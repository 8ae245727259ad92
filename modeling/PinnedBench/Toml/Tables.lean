import PinnedBench.Toml.Value

/-!
# Building TOML tables

A document gives the entries of its tables in pieces: under headers, by keys with several parts, and
in arrays of tables to which every header adds one. `Item` is what a key holds while the pieces come
in, and `addEntry`, `openTable` and `addTable` take in one piece each.

The pieces may not contradict each other, and a table is given in one way only. A table has an
`Origin`: a header of its own, a header of a table inside it, or a key with several parts.

* A header may open a table that only headers of inner tables have made so far, once.
* A key with several parts may not reach into a table with a header of its own, and its last part
  goes into a table made by such keys alone.
* No key is given twice.
-/

namespace PinnedBench.Toml

/-- How a table has come about. -/
inductive Origin where
  /-- It has a header, or is an array's element, or is written out. -/
  | header
  /-- Only headers of tables inside it were met. -/
  | inner
  /-- A key with several parts leads into it. -/
  | dotted
  deriving DecidableEq, Repr

/-- What a key holds while a document is read. -/
inductive Item where
  /-- A value. -/
  | value (value : Value)
  /-- A table. -/
  | table (origin : Origin) (members : List (String × Item))
  /-- An array of tables. -/
  | tables (elements : List (List (String × Item)))
  deriving Repr

/-- The entries of a table that is being built. -/
abbrev Members := List (String × Item)

/-- The entries with another item under a key that is there. -/
def replace (key : String) (item : Item) (members : Members) : Members :=
  members.map fun m => if m.1 = key then (key, item) else m

/-- The item under a key. -/
def item? (key : String) (members : Members) : Option Item := members.lookup key

/-- **A change inside a table.** The path is followed through tables and the last elements of arrays
of tables, tables that are missing are made, and `change` is applied at its end. -/
def within (dotted : Bool) (change : Origin → Members → Except Fault Members) :
    List String → Origin → Members → Except Fault Members
  | [], origin, members => change origin members
  | key :: path, _, members =>
    match item? key members with
    | none => do
      let made := if dotted then Origin.dotted else Origin.inner
      let inner ← within dotted change path made []
      .ok (members ++ [(key, .table made inner)])
    | some (.value _) => .error (.noTable key)
    | some (.table origin inner) =>
      if dotted ∧ origin = .header then .error (.duplicateKey key)
      else do
        let inner ← within dotted change path origin inner
        .ok (replace key (.table origin inner) members)
    | some (.tables elements) =>
      -- What is said of an array of tables is said of its last element.
      match elements.getLast? with
      | none => .error (.noTable key)
      | some last => do
        let last ← within dotted change path .header last
        .ok (replace key (.tables (elements.dropLast ++ [last])) members)

/-- A key's path and its last part. -/
def splitKey (key : List String) : List String × String := (key.dropLast, key.getLastD "")

/-- An entry put into a table, under a key that may have several parts. -/
def addEntry (key : List String) (value : Value) : Origin → Members → Except Fault Members :=
  let (path, name) := splitKey key
  within true (fun origin members =>
    -- Keys with several parts fill the tables that they have made, plain keys all others.
    if (origin == .dotted) == path.isEmpty then .error (.duplicateKey name)
    else
      match item? name members with
      | some _ => .error (.duplicateKey name)
      | none => .ok (members ++ [(name, .value value)])) path

/-- A table opened by its header. -/
def openTable (key : List String) : Origin → Members → Except Fault Members :=
  let (path, name) := splitKey key
  within false (fun _ members =>
    match item? name members with
    | none => .ok (members ++ [(name, .table .header [])])
    | some (.table .inner inner) => .ok (replace name (.table .header inner) members)
    | some _ => .error (.duplicateKey name)) path

/-- A table added to an array by a header. -/
def addTable (key : List String) : Origin → Members → Except Fault Members :=
  let (path, name) := splitKey key
  within false (fun _ members =>
    match item? name members with
    | none => .ok (members ++ [(name, .tables [[]])])
    | some (.tables elements) => .ok (replace name (.tables (elements ++ [[]])) members)
    | some _ => .error (.duplicateKey name)) path

mutual

/-- The value that an item stands for. -/
def Item.toValue : Item → Value
  | .value v => v
  | .table _ members => .table (valuesOf members)
  | .tables elements => .array (tablesOf elements)

/-- The values of entries. -/
def valuesOf : List (String × Item) → List (String × Value)
  | [] => []
  | (key, item) :: rest => (key, item.toValue) :: valuesOf rest

/-- The values of an array of tables. -/
def tablesOf : List (List (String × Item)) → List Value
  | [] => []
  | members :: rest => .table (valuesOf members) :: tablesOf rest

end

/-- The entries of a table that is written out, given one after the other. -/
def membersOf (entries : List (List String × Value)) : Except Fault (List (String × Value)) := do
  let members ← entries.foldlM (fun members (key, value) => addEntry key value .header members) []
  .ok (valuesOf members)

end PinnedBench.Toml
