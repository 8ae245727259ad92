import PinnedBench.Json.Value

/-!
# Decoding JSON texts

A `Decoder α` reads a value of type `α` out of a text's tree. It is told how many levels of nesting
the document has left, and every array, object and record uses one of them.

Records may be written as objects, by the names of their fields, or as arrays, in the order of their
fields. In an object, fields that the record does not have are skipped, and a field of the record
may stand only once. `Tree.fields` collects what a text gives for the fields of a record; the
functions of `Fields` then read one field each:

* `required` refuses a missing field;
* `nullable` takes a missing field of an object for nothing, but refuses a missing one of an array;
* `defaulted` takes a default for a missing field of either.
-/

namespace PinnedBench.Json

/-- A reader of values of type `α`, given the levels of nesting that are left. -/
abbrev Decoder (α : Type) := Nat → Tree → Except Fault α

namespace Decoder

/-- Any value. -/
def any : Decoder Json := ofTree

/-- A truth value. -/
def boolean : Decoder Bool
  | _, .boolean b => .ok b
  | _, _ => .error (.wrongType "boolean")

/-- A text. -/
def string : Decoder String
  | _, .string s => textOf s
  | _, _ => .error (.wrongType "string")

/-- A whole number below a bound: written as one, without a minus sign. -/
def natural (bound : Nat) : Decoder Nat
  | _, .number n =>
    if n.whole ∧ n.negative = false ∧ n.digits < bound then .ok n.digits
    else .error (.wrongType "unsigned integer")
  | _, _ => .error (.wrongType "unsigned integer")

/-- A word of 64 bits. -/
def word : Decoder UInt64 := fun levels t => (natural (powerOfTwo 64) levels t).map Nat.toUInt64

/-- A word of 32 bits. -/
def halfWord : Decoder UInt32 := fun levels t => (natural (powerOfTwo 32) levels t).map Nat.toUInt32

/-- A finite number, whole or not. -/
def double : Decoder Double
  | _, .number n => n.toDouble
  | _, _ => .error (.wrongType "number")

/-- A value, or nothing. -/
def orNull {α : Type} (d : Decoder α) : Decoder (Option α)
  | _, .null => .ok none
  | levels, t => (d levels t).map some

/-- The items of an array. -/
def list {α : Type} (d : Decoder α) : Decoder (List α)
  | 0, .array _ => .error .tooDeep
  | levels + 1, .array items => items.mapM (d levels)
  | _, _ => .error (.wrongType "array")

/-- Exactly two items. -/
def pair {α : Type} (d : Decoder α) : Decoder (α × α) := fun levels t => do
  match ← list d levels t with
  | [a, b] => .ok (a, b)
  | _ => .error .wrongLength

/-- The members of an object, by their keys; the last one under a key stays. -/
def keyed {β : Type} (d : Decoder β) : Decoder (Keyed β)
  | 0, .object _ => .error .tooDeep
  | levels + 1, .object members => do
    let entries ← members.mapM fun (key, tree) => do
      .ok ((← textOf key), (← d levels tree))
    .ok (.ofList entries)
  | _, _ => .error (.wrongType "object")

/-- A value of an enumeration, by its name: the name as a text, or an object with the name as its
only key and nothing under it. -/
def variant {α : Type} (named : List (String × α)) : Decoder α := fun levels t => do
  let name ← match levels, t with
    | _, .string s => textOf s
    | 0, .object _ => .error .tooDeep
    | _ + 1, .object [(key, .null)] => textOf key
    | _, _ => .error (.wrongType "enumeration")
  match named.lookup name with
  | some a => .ok a
  | none => .error (.unknownVariant name)

end Decoder

/-! ### Records -/

/-- What a text gives for the fields of a record. -/
structure Fields where
  /-- The levels of nesting left inside the record. -/
  levels : Nat
  /-- Whether the record is written as an array. -/
  positional : Bool
  /-- The trees of the fields that are given. -/
  given : List (String × Tree)

/-- The members of an object under the names of a record's fields, behind those found already. -/
def collectMembers (names : List String) :
    List (String × Tree) → List (Option String × Tree) → Except Fault (List (String × Tree))
  | found, [] => .ok found
  | found, (key, tree) :: rest => do
    let name ← textOf key
    if names.contains name then
      if (found.lookup name).isSome then .error (.duplicateField name)
      else collectMembers names (found ++ [(name, tree)]) rest
    else collectMembers names found rest

/-- What a text gives for the fields of a record with these names. -/
def Tree.fields (names : List String) : Decoder Fields
  | 0, .array _ => .error .tooDeep
  | 0, .object _ => .error .tooDeep
  | levels + 1, .array items =>
    -- Too few items are found out by the fields that are missing then.
    if names.length < items.length then .error .wrongLength
    else .ok ⟨levels, true, names.zip items⟩
  | levels + 1, .object members => do
    .ok ⟨levels, false, ← collectMembers names [] members⟩
  | _, _ => .error (.wrongType "record")

namespace Fields

variable {α : Type}

/-- A field that has to be given. -/
def required (f : Fields) (name : String) (d : Decoder α) : Except Fault α :=
  match f.given.lookup name with
  | some t => d f.levels t
  | none => .error (.missingField name)

/-- A field that may be nothing, and may be left out of an object. -/
def nullable (f : Fields) (name : String) (d : Decoder α) : Except Fault (Option α) :=
  match f.given.lookup name with
  | some t => d.orNull f.levels t
  | none => if f.positional then .error (.missingField name) else .ok none

/-- A field that may be left out for a default. -/
def defaulted (f : Fields) (name : String) (default : α) (d : Decoder α) : Except Fault α :=
  match f.given.lookup name with
  | some t => d f.levels t
  | none => .ok default

end Fields

/-- Reads a document with a decoder. -/
def decodeText {α : Type} (d : Decoder α) (text : String) : Except Fault α := do
  d maxLevels (← Tree.ofText text)

end PinnedBench.Json
