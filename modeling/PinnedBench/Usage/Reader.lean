import PinnedBench.Usage.Item

/-!
# Reading command lines

`readItems items start words` reads words as items and gives the arguments that they make of
`start`. Items are named behind two hyphens; a value follows as the next word or behind an equals
sign. Two hyphens alone say that no item follows, and as there are no other words, nothing may.

Reading goes from left to right. The value of an item is looked at when the next item begins, or at
the end: until then a word that cannot stand where it does decides. What has to be given is looked
for last.

* The word behind an item is its value unless it looks like an item. A negative number looks like
  one letter after another, and is a value only of an item that takes negative numbers.
* Nothing may be given twice.
-/

namespace PinnedBench

/-- Why reading a command line ends without a command. -/
inductive UsageStop where
  /-- The usage is asked for, that of a command or that of the program. -/
  | help (command : Option String)
  /-- The version is asked for. -/
  | version
  /-- There are no words. -/
  | nothing
  /-- There is no command. -/
  | noCommand
  /-- There is no such command. -/
  | unknownCommand (word : String)
  /-- A word cannot stand where it does. -/
  | unknownWord (word : String)
  /-- An item has a value and takes none. -/
  | needlessValue (item : String)
  /-- An item has no value and takes one. -/
  | missingValue (item : String)
  /-- The value of an item is none of those that there are. -/
  | refusedValue (item value : String)
  /-- The value of an item does not have the form of one. -/
  | malformedValue (item value : String)
  /-- An item is given twice. -/
  | repeated (item : String)
  /-- An item that has to be given is not. -/
  | missingItem (item : String)
  deriving DecidableEq, Repr

/-! ### Words -/

/-- What a word looks like. -/
inductive WordForm where
  /-- Two hyphens alone. -/
  | terminator
  /-- A name behind two hyphens, with a value if there is an equals sign. -/
  | long (name : String) (value : Option String)
  /-- Letters behind one hyphen. -/
  | short (letters : List Char)
  /-- Anything else. -/
  | plain
  deriving DecidableEq, Repr

/-- The form of a name behind two hyphens. -/
def WordForm.ofName (cs : List Char) : WordForm :=
  let name := String.ofList (cs.takeWhile (· != '='))
  match cs.dropWhile (· != '=') with
  | [] => .long name none
  | _ :: value => .long name (some (String.ofList value))

/-- The form of a word. -/
def WordForm.of (word : String) : WordForm :=
  match word.toList with
  | ['-', '-'] => .terminator
  | '-' :: '-' :: cs => .ofName cs
  | '-' :: c :: cs => .short (c :: cs)
  | _ => .plain

/-- The characters behind the digits that a text starts with. -/
def afterDigits (cs : List Char) : List Char := cs.dropWhile Char.isDigit

/-- The rest behind the digits of a number, which has at most one point and not as its first
character. -/
def afterNumber : List Char → List Char
  | [] => []
  | '.' :: cs => '.' :: cs
  | cs =>
    match afterDigits cs with
    | '.' :: rest => afterDigits rest
    | rest => rest

/-- Whether letters behind one hyphen make it a negative number: digits with at most one point, and
an exponent of digits alone; neither the point nor the exponent comes first. -/
def isNumber (cs : List Char) : Bool :=
  match afterNumber cs with
  | [] => true
  | 'e' :: exponent => cs.head? != some 'e' && !exponent.isEmpty && (afterDigits exponent).isEmpty
  | _ => false

/-! ### Progress -/

/-- An item whose value has not been looked at. -/
structure Pending (σ : Type) where
  /-- The item. -/
  item : Item σ
  /-- What the value does. -/
  set : String → σ → Except ValueFault σ
  /-- The value, if there is one by now. -/
  value : Option String

/-- How far reading has come. -/
structure Progress (σ : Type) where
  /-- The arguments made so far. -/
  arguments : σ
  /-- The names of the items given so far. -/
  given : List String
  /-- The last item, if its value has not been looked at. -/
  pending : Option (Pending σ)

namespace Progress

variable {σ : Type}

/-- Nothing has been read. -/
def start (arguments : σ) : Progress σ := ⟨arguments, [], none⟩

/-- Takes note of an item that is given. -/
def mark (p : Progress σ) (name : String) : Except UsageStop (Progress σ) :=
  if p.given.contains name then .error (.repeated name)
  else .ok { p with given := name :: p.given }

/-- Looks at the value of the last item. -/
def settle (p : Progress σ) : Except UsageStop (Progress σ) := do
  match p.pending with
  | none => .ok p
  | some ⟨item, _, none⟩ => .error (.missingValue item.name)
  | some ⟨item, set, some value⟩ =>
    let p ← p.mark item.name
    match set value p.arguments with
    | .ok arguments => .ok { p with arguments := arguments, pending := none }
    | .error .refused => .error (.refusedValue item.name value)
    | .error .malformed => .error (.malformedValue item.name value)

/-- An item begins, with its value if that is attached. -/
def begin (p : Progress σ) (item : Item σ) (attached : Option String) :
    Except UsageStop (Progress σ) :=
  match item.effect, attached with
  | .flag _, some _ => .error (.needlessValue item.name)
  | .flag set, none => do
    let p ← (← p.settle).mark item.name
    .ok { p with arguments := set p.arguments }
  | .value set, value => do
    let p ← p.settle
    let next := { p with pending := some ⟨item, set, value⟩ }
    if value.isSome then next.settle else .ok next

/-- A word is the value of the last item, if that has none. -/
def supply (p : Progress σ) (word : String) : Except UsageStop (Progress σ) :=
  match p.pending with
  | some ⟨item, set, none⟩ => .ok { p with pending := some ⟨item, set, some word⟩ }
  | _ => .error (.unknownWord word)

/-- Whether a negative number would be the value of the last item. -/
def takesNegatives (p : Progress σ) : Bool :=
  match p.pending with
  | some ⟨item, _, none⟩ => item.negatives
  | _ => false

/-- The usage is asked for, unless the last item is refused. -/
def stop (p : Progress σ) (command : Option String) : Except UsageStop (Progress σ) := do
  let _ ← p.settle
  .error (.help command)

end Progress

/-! ### Reading -/

section Reading

variable {σ : Type}

/-- Reads one word that is not two hyphens alone. -/
def takeWord (command : String) (items : List (Item σ)) (p : Progress σ) (word : String) :
    Except UsageStop (Progress σ) :=
  match WordForm.of word with
  | .long name value =>
    if name = "help" then
      if value.isSome then .error (.needlessValue name) else p.stop command
    else
      match items.find? (Item.named name) with
      | some item => p.begin item value
      | none => .error (.unknownWord word)
  | .short letters =>
    -- A negative number looks like letters, and is a value only where one may be negative.
    if p.takesNegatives && isNumber letters then p.supply word
    else if letters.head? = some 'h' then p.stop command
    else .error (.unknownWord word)
  | _ => p.supply word

/-- Reads words up to the end. -/
def readWords (command : String) (items : List (Item σ)) :
    Progress σ → List String → Except UsageStop (Progress σ)
  | p, [] => p.settle
  | p, word :: rest =>
    if WordForm.of word = .terminator then
      match rest with
      | [] => p.settle
      | next :: _ => .error (.unknownWord next)
    else do readWords command items (← takeWord command items p word) rest

/-- **Reads the words of a command** as items. -/
def readItems (command : String) (items : List (Item σ)) (start : σ) (words : List String) :
    Except UsageStop σ := do
  let p ← readWords command items (.start start) words
  match items.find? fun i => i.required && !p.given.contains i.name with
  | some item => .error (.missingItem item.name)
  | none => .ok p.arguments

end Reading

end PinnedBench
