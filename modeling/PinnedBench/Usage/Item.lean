import PinnedBench.Text.Numeral

/-!
# Items of a command line

A command line gives arguments by named items: a flag stands alone, any other item is followed by a
value. An `Item σ` says how it is named and what it does to arguments of type `σ`, so that arguments
are a structure of their own and every item fills in one field of it.

The functions `Item.flag`, `Item.path`, `Item.text` and so on make the items of each kind. A value
that is not of the kind is malformed; a value that the kind leaves out is refused.
-/

namespace PinnedBench

/-- Why a value is not taken. -/
inductive ValueFault where
  /-- It is none of the values that there are. -/
  | refused
  /-- It does not have the form of a value. -/
  | malformed
  deriving DecidableEq, Repr

/-- What an item does to arguments. -/
inductive Effect (σ : Type) where
  /-- The item stands alone. -/
  | flag (set : σ → σ)
  /-- The item is followed by a value. -/
  | value (set : String → σ → Except ValueFault σ)

/-- An item of a command line. -/
structure Item (σ : Type) where
  /-- Its name. -/
  name : String
  /-- A second name. -/
  secondName : Option String
  /-- Whether it has to be given. -/
  required : Bool
  /-- Whether its value may be a negative number. -/
  negatives : Bool
  /-- What it does. -/
  effect : Effect σ
  /-- What stands for its value in the usage. -/
  placeholder : String
  /-- The value that it has unless it is given, as it is written. -/
  fallback : Option String
  /-- What it is for. -/
  help : String

namespace Item

variable {σ τ : Type}

/-- Whether an item goes by a name. -/
def named (name : String) (i : Item σ) : Bool := i.name == name || i.secondName == some name

/-! ### Kinds of items -/

/-- A flag. -/
def flag (name help : String) (set : σ → σ) : Item σ :=
  ⟨name, none, false, false, .flag set, "", none, help⟩

/-- An item whose value is read in some way. -/
def reading {α : Type} (read : String → Except ValueFault α) (name placeholder help : String)
    (set : α → σ → σ) : Item σ :=
  ⟨name, none, false, false, .value fun text s => (read text).map fun a => set a s, placeholder,
    none, help⟩

/-- An item with any text as its value. -/
def text (name placeholder help : String) (set : String → σ → σ) : Item σ :=
  reading .ok name placeholder help set

/-- Takes every text but the empty one. -/
def readPath (text : String) : Except ValueFault String :=
  if text.isEmpty then .error .refused else .ok text

/-- An item with a path as its value. -/
def path (name placeholder help : String) (set : String → σ → σ) : Item σ :=
  reading readPath name placeholder help set

/-- Reads a signed word of 64 bits. -/
def readSignedWord (text : String) : Except ValueFault Int :=
  (readInteger text.toList).mapError fun _ => .malformed

/-- An item with a whole number as its value, which may be negative. -/
def integer (name placeholder help : String) (set : Int → σ → σ) : Item σ :=
  { reading readSignedWord name placeholder help set with negatives := true }

/-- Reads a word of 64 bits. -/
def readWord (text : String) : Except ValueFault UInt64 :=
  match readWhole (powerOfTwo 64 - 1) text.toList with
  | .ok n => .ok n.toUInt64
  | .error _ => .error .malformed

/-- An item with a word of 64 bits as its value. -/
def word (name placeholder help : String) (set : UInt64 → σ → σ) : Item σ :=
  reading readWord name placeholder help set

/-- Reads a word of 32 bits. Its sign may be written, so minus zero is zero. -/
def readHalfWord (text : String) : Except ValueFault UInt32 := do
  let n ← readSignedWord text
  if 0 ≤ n ∧ n < powerOfTwo 32 then .ok n.toNat.toUInt32 else .error .malformed

/-- An item with a word of 32 bits as its value. -/
def halfWord (name placeholder help : String) (set : UInt32 → σ → σ) : Item σ :=
  reading readHalfWord name placeholder help set

/-- An item with one of some named values. -/
def choice {α : Type} (choices : List (String × α)) (name placeholder help : String)
    (set : α → σ → σ) : Item σ :=
  reading (fun text => (choices.lookup text).elim (.error .refused) .ok) name placeholder help set

/-! ### Changes to items -/

/-- The item with a second name. -/
def alsoNamed (i : Item σ) (name : String) : Item σ := { i with secondName := some name }

/-- The item as one that has to be given. -/
def mandatory (i : Item σ) : Item σ := { i with required := true }

/-- The item with the text of the value that it has unless it is given. -/
def otherwise (i : Item σ) (fallback : String) : Item σ := { i with fallback := some fallback }

/-- The item as one of larger arguments. -/
def within (get : τ → σ) (put : σ → τ → τ) (i : Item σ) : Item τ :=
  { name := i.name
    secondName := i.secondName
    required := i.required
    negatives := i.negatives
    effect := match i.effect with
      | .flag set => .flag fun t => put (set (get t)) t
      | .value set => .value fun text t => (set text (get t)).map fun s => put s t
    placeholder := i.placeholder
    fallback := i.fallback
    help := i.help }

end Item

end PinnedBench
