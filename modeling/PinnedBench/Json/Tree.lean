/-!
# JSON texts

`Json.Tree` is a JSON text as it stands: members in the order of the text with repetitions kept,
numbers as they are written, and strings that may turn out to be no text at all because they name
half of a surrogate pair. `Json.Tree.ofText` reads a text into a tree and refuses exactly what the
grammar refuses: nesting may be arbitrarily deep, numbers may be out of any range, and members may
be repeated.

What a tree means is settled when it is decoded (`PinnedBench.Json.Decoder`), and only where it is
decoded: a member that nobody asks for has to be well formed and nothing more.
-/

namespace PinnedBench.Json

/-- Why a text is no JSON, or is not the value that was asked for. -/
inductive Fault where
  /-- The text ends too early. -/
  | unexpectedEnd
  /-- A character cannot stand where it does. -/
  | unexpectedCharacter (c : Char)
  /-- A control character stands in a string. -/
  | controlCharacter
  /-- A backslash is followed by something else than an escape. -/
  | invalidEscape
  /-- A number lacks digits or has a leading zero. -/
  | invalidNumber
  /-- Something follows the value. -/
  | trailingCharacters
  /-- Arrays and objects are nested too deeply. -/
  | tooDeep
  /-- A string names half of a surrogate pair. -/
  | loneSurrogate
  /-- A number is too large for its type. -/
  | outOfRange
  /-- The value is of another type. -/
  | wrongType (expected : String)
  /-- A record lacks a field. -/
  | missingField (name : String)
  /-- A record has a field twice. -/
  | duplicateField (name : String)
  /-- A sequence has another length. -/
  | wrongLength
  /-- An enumeration has no such value. -/
  | unknownVariant (name : String)
  deriving DecidableEq, Repr

/-- The wording of a fault. -/
def Fault.message : Fault → String
  | unexpectedEnd => "unexpected end of the text"
  | unexpectedCharacter c => s!"unexpected character {c.toNat}"
  | controlCharacter => "control character in a string"
  | invalidEscape => "invalid escape"
  | invalidNumber => "invalid number"
  | trailingCharacters => "trailing characters"
  | tooDeep => "nesting is too deep"
  | loneSurrogate => "lone surrogate in a string"
  | outOfRange => "number out of range"
  | wrongType expected => s!"wrong type, expected {expected}"
  | missingField name => s!"missing field {name}"
  | duplicateField name => s!"duplicate field {name}"
  | wrongLength => "wrong length of a sequence"
  | unknownVariant name => s!"unknown variant {name}"

/-- A number as it is written: a sign, digits, and a power of ten that scales them. -/
structure Numeral where
  /-- Whether a minus sign comes first. -/
  negative : Bool
  /-- The digits, those behind the point included. -/
  digits : Nat
  /-- The power of ten that scales the digits. -/
  exponent : Int
  /-- Whether the number is written without point and exponent. -/
  whole : Bool
  deriving DecidableEq, Repr

/-- A JSON text as it stands. -/
inductive Tree where
  /-- The word for nothing. -/
  | null
  /-- A truth value. -/
  | boolean (value : Bool)
  /-- A number. -/
  | number (numeral : Numeral)
  /-- A string, nothing when it names half of a surrogate pair. -/
  | string (text : Option String)
  /-- An array. -/
  | array (items : List Tree)
  /-- An object, with its members in the order of the text. -/
  | object (members : List (Option String × Tree))
  deriving Repr

/-! ### Blanks, words and numbers -/

/-- The characters that may stand between the tokens of a text. -/
def isSpace (c : Char) : Bool := c == ' ' || c == '\n' || c == '\t' || c == '\r'

/-- The text from the next token on. -/
def skipSpace (cs : List Char) : List Char := cs.dropWhile isSpace

/-- The value of a run of digits. -/
def valueOf (ds : List Char) : Nat := ds.foldl (fun n c => 10 * n + (c.toNat - '0'.toNat)) 0

/-- The digits before the point: no zero comes before other digits. -/
def readWholePart (cs : List Char) : Except Fault (List Char × List Char) :=
  match cs.takeWhile Char.isDigit, cs.dropWhile Char.isDigit with
  | [], _ => .error .invalidNumber
  | '0' :: _ :: _, _ => .error .invalidNumber
  | ds, rest => .ok (ds, rest)

/-- The digits behind the point, at least one if there is a point. -/
def readPlaces : List Char → Except Fault (Option (List Char) × List Char)
  | '.' :: cs =>
    match cs.takeWhile Char.isDigit, cs.dropWhile Char.isDigit with
    | [], _ => .error .invalidNumber
    | ds, rest => .ok (some ds, rest)
  | cs => .ok (none, cs)

/-- The digits of an exponent behind its sign. -/
def readExponentDigits (negative : Bool) (cs : List Char) :
    Except Fault (Option Int × List Char) :=
  match cs.takeWhile Char.isDigit, cs.dropWhile Char.isDigit with
  | [], _ => .error .invalidNumber
  | ds, rest => .ok (some (if negative then -(valueOf ds : Int) else valueOf ds), rest)

/-- The exponent, if there is one. -/
def readExponent : List Char → Except Fault (Option Int × List Char)
  | c :: cs =>
    if c = 'e' ∨ c = 'E' then
      match cs with
      | '-' :: rest => readExponentDigits true rest
      | '+' :: rest => readExponentDigits false rest
      | rest => readExponentDigits false rest
    else .ok (none, c :: cs)
  | [] => .ok (none, [])

/-- A number behind its sign. -/
def readUnsigned (negative : Bool) (cs : List Char) : Except Fault (Numeral × List Char) := do
  let (ds, rest) ← readWholePart cs
  let (places, rest) ← readPlaces rest
  let (exponent, rest) ← readExponent rest
  -- Every digit behind the point takes one off the exponent.
  let behind := places.getD []
  .ok (⟨negative, valueOf (ds ++ behind), exponent.getD 0 - behind.length,
    places.isNone && exponent.isNone⟩, rest)

/-- A number. -/
def readNumber : List Char → Except Fault (Numeral × List Char)
  | '-' :: cs => readUnsigned true cs
  | cs => readUnsigned false cs

/-! ### Strings -/

/-- The value of a hexadecimal digit. -/
def hexDigit? (c : Char) : Option Nat :=
  if c.isDigit then some (c.toNat - '0'.toNat)
  else if 'a' ≤ c ∧ c ≤ 'f' then some (c.toNat - 'a'.toNat + 10)
  else if 'A' ≤ c ∧ c ≤ 'F' then some (c.toNat - 'A'.toNat + 10)
  else none

/-- The value of four hexadecimal digits. -/
def hexUnit? (a b c d : Char) : Option Nat := do
  let a ← hexDigit? a
  let b ← hexDigit? b
  let c ← hexDigit? c
  let d ← hexDigit? d
  some (((a * 16 + b) * 16 + c) * 16 + d)

/-- The character that a short escape stands for. -/
def shortEscape? : Char → Option Char
  | '"' => some '"'
  | '\\' => some '\\'
  | '/' => some '/'
  | 'b' => some '\x08'
  | 'f' => some '\x0c'
  | 'n' => some '\n'
  | 'r' => some '\r'
  | 't' => some '\t'
  | _ => none

/-- The code units of a string up to its closing quote, behind those of `taken` (last one first): a
character is a unit, and so is each half of an escaped surrogate pair. -/
def readUnits (taken : List Nat) : List Char → Except Fault (List Nat × List Char)
  | [] => .error .unexpectedEnd
  | '"' :: rest => .ok (taken.reverse, rest)
  | '\\' :: 'u' :: a :: b :: c :: d :: rest =>
    match hexUnit? a b c d with
    | some n => readUnits (n :: taken) rest
    | none => .error .invalidEscape
  | '\\' :: c :: rest =>
    match shortEscape? c with
    | some e => readUnits (e.toNat :: taken) rest
    | none => .error .invalidEscape
  | c :: rest =>
    -- A backslash that comes as far as this ends the text.
    if c = '\\' then .error .unexpectedEnd
    else if c.toNat < 0x20 then .error .controlCharacter
    else readUnits (c.toNat :: taken) rest

/-- Whether a unit is the first half of a surrogate pair. -/
def isLeading (n : Nat) : Bool := 0xd800 ≤ n && n < 0xdc00

/-- Whether a unit is the second half of a surrogate pair. -/
def isTrailing (n : Nat) : Bool := 0xdc00 ≤ n && n < 0xe000

/-- The characters of code units, behind those of `taken` (last one first): the two halves of a pair
make one character, and a half on its own makes none. -/
def joinUnits (taken : List Char) : List Nat → Option (List Char)
  | [] => some taken.reverse
  | [n] =>
    if isLeading n || isTrailing n then none else some (Char.ofNat n :: taken).reverse
  | n :: m :: rest =>
    if isLeading n then
      if isTrailing m then
        joinUnits (Char.ofNat (0x10000 + (n - 0xd800) * 0x400 + (m - 0xdc00)) :: taken) rest
      else none
    else if isTrailing n then none
    else joinUnits (Char.ofNat n :: taken) (m :: rest)

/-- A string behind its opening quote. -/
def readString (cs : List Char) : Except Fault (Option String × List Char) := do
  let (units, rest) ← readUnits [] cs
  .ok ((joinUnits [] units).map String.ofList, rest)

/-! ### Values -/

mutual

/-- A value, with `fuel` bounding the calls that may still be nested or chained. -/
def readValue : Nat → List Char → Except Fault (Tree × List Char)
  | 0, _ => .error .unexpectedEnd
  | fuel + 1, cs =>
    match skipSpace cs with
    | [] => .error .unexpectedEnd
    | '{' :: rest =>
      match skipSpace rest with
      | '}' :: rest => .ok (.object [], rest)
      | rest => do
        let (members, rest) ← readMembers fuel rest
        .ok (.object members, rest)
    | '[' :: rest =>
      match skipSpace rest with
      | ']' :: rest => .ok (.array [], rest)
      | rest => do
        let (items, rest) ← readItems fuel rest
        .ok (.array items, rest)
    | '"' :: rest => do
      let (text, rest) ← readString rest
      .ok (.string text, rest)
    | 'n' :: 'u' :: 'l' :: 'l' :: rest => .ok (.null, rest)
    | 't' :: 'r' :: 'u' :: 'e' :: rest => .ok (.boolean true, rest)
    | 'f' :: 'a' :: 'l' :: 's' :: 'e' :: rest => .ok (.boolean false, rest)
    | c :: rest =>
      if c = '-' ∨ c.isDigit then do
        let (numeral, rest) ← readNumber (c :: rest)
        .ok (.number numeral, rest)
      else .error (.unexpectedCharacter c)

/-- The items of an array up to its closing bracket. -/
def readItems : Nat → List Char → Except Fault (List Tree × List Char)
  | 0, _ => .error .unexpectedEnd
  | fuel + 1, cs => do
    let (item, rest) ← readValue fuel cs
    match skipSpace rest with
    | ',' :: rest =>
      let (items, rest) ← readItems fuel rest
      .ok (item :: items, rest)
    | ']' :: rest => .ok ([item], rest)
    | c :: _ => .error (.unexpectedCharacter c)
    | [] => .error .unexpectedEnd

/-- The members of an object up to its closing brace. -/
def readMembers : Nat → List Char → Except Fault (List (Option String × Tree) × List Char)
  | 0, _ => .error .unexpectedEnd
  | fuel + 1, cs =>
    match skipSpace cs with
    | '"' :: rest => do
      let (key, rest) ← readString rest
      match skipSpace rest with
      | ':' :: rest =>
        let (value, rest) ← readValue fuel rest
        match skipSpace rest with
        | ',' :: rest =>
          let (members, rest) ← readMembers fuel rest
          .ok ((key, value) :: members, rest)
        | '}' :: rest => .ok ([(key, value)], rest)
        | c :: _ => .error (.unexpectedCharacter c)
        | [] => .error .unexpectedEnd
      | c :: _ => .error (.unexpectedCharacter c)
      | [] => .error .unexpectedEnd
    | c :: _ => .error (.unexpectedCharacter c)
    | [] => .error .unexpectedEnd

end

/-- **Reads a JSON text.** Every call of a reader takes a character or hands on to a call that does,
so twice the length of the text is fuel enough. -/
def Tree.ofText (text : String) : Except Fault Tree := do
  let cs := text.toList
  let (tree, rest) ← readValue (2 * cs.length + 2) cs
  match skipSpace rest with
  | [] => .ok tree
  | _ => .error .trailingCharacters

end PinnedBench.Json
