import PinnedBench.Decimal.Nearest
import PinnedBench.Json.Tree
import PinnedBench.Keyed

/-!
# JSON values

A `Json` value is what a JSON text means. Numbers that are written as whole numbers and fit a 64-bit
word, signed or not, are kept as whole numbers; all others are doubles. The members of an object
that has been read stand in the order of their keys, the last of several under one key being kept.

`Json.ofTree levels` gives the value of a text with at most `levels` levels of nesting; a number
beyond the range of doubles and a string with half of a surrogate pair have no value.
-/

namespace PinnedBench

/-- A JSON value. -/
inductive Json where
  /-- Nothing. -/
  | null
  /-- A truth value. -/
  | boolean (value : Bool)
  /-- A whole number. -/
  | integer (value : Int)
  /-- A number that is not kept as a whole number. -/
  | real (value : Double)
  /-- A text. -/
  | string (text : String)
  /-- An array. -/
  | array (items : List Json)
  /-- An object. -/
  | object (members : List (String × Json))
  deriving Repr, BEq

namespace Json

/-- The number of nested arrays and objects that a document may have. -/
def maxLevels : Nat := 127

/-- The number that a numeral writes, if the doubles reach that far. -/
def Numeral.toDouble (n : Numeral) : Except Fault Double :=
  let x := Decimal.toDouble n.negative ⟨n.digits, n.exponent⟩
  if x.isFinite then .ok x else .error .outOfRange

/-- The value of a numeral: a whole number if it is written as one and fits a word. -/
def Numeral.value (n : Numeral) : Except Fault Json :=
  if n.whole ∧ n.negative = false ∧ n.digits < powerOfTwo 64 then .ok (.integer n.digits)
  -- A zero with a minus sign is not kept as a whole number.
  else if n.whole ∧ n.negative ∧ n.digits ≠ 0 ∧ n.digits ≤ powerOfTwo 63 then
    .ok (.integer (-n.digits))
  else n.toDouble.map .real

/-- The text of a string that has one. -/
def textOf : Option String → Except Fault String
  | some s => .ok s
  | none => .error .loneSurrogate

/-- **The value of a text** with at most so many levels of nesting. -/
def ofTree : Nat → Tree → Except Fault Json
  | _, .null => .ok .null
  | _, .boolean b => .ok (.boolean b)
  | _, .number n => n.value
  | _, .string s => (textOf s).map .string
  | 0, .array _ => .error .tooDeep
  | 0, .object _ => .error .tooDeep
  | levels + 1, .array items => (items.mapM (ofTree levels)).map .array
  | levels + 1, .object members => do
    let entries ← members.mapM fun (key, tree) => do
      .ok ((← textOf key), (← ofTree levels tree))
    .ok (.object (entries.foldl (fun known (k, v) => insertEntry k v known) []))

/-- The value that a text writes. -/
def ofText (text : String) : Except Fault Json := do
  ofTree maxLevels (← Tree.ofText text)

/-- The member of an object under a key. -/
def member? (key : String) : Json → Option Json
  | .object members => (members.find? fun m => m.1 == key).map (·.2)
  | _ => none

/-- A stored number as a value: what is not finite has no form in JSON and becomes nothing. -/
def ofDouble (x : Double) : Json := if x.isFinite then .real x else .null

/-- Numbers as an array. -/
def ofDoubles (xs : List Double) : Json := .array (xs.map ofDouble)

/-- A word of 64 bits as a value. -/
def ofWord (n : UInt64) : Json := .integer n.toNat

/-- A word of 32 bits as a value. -/
def ofHalfWord (n : UInt32) : Json := .integer n.toNat

/-- A value that may be missing. -/
def ofOption {α : Type} (f : α → Json) : Option α → Json
  | none => .null
  | some a => f a

/-- Entries in key order as an object. -/
def ofKeyed {β : Type} (f : β → Json) (m : Keyed β) : Json :=
  .object (m.entries.map fun e => (e.1, f e.2))

mutual

/-- The value with the members of all objects in the order of their keys. -/
def sorted : Json → Json
  | .array items => .array (sortedItems items)
  | .object members => .object (sortedMembers members)
  | j => j

/-- The items of an array, each sorted. -/
def sortedItems : List Json → List Json
  | [] => []
  | item :: items => item.sorted :: sortedItems items

/-- The members of an object in the order of their keys, each value sorted; the first one under a
key stays. -/
def sortedMembers : List (String × Json) → List (String × Json)
  | [] => []
  | (key, value) :: members => insertEntry key value.sorted (sortedMembers members)

end

end Json

end PinnedBench
