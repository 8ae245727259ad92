import PinnedBench.Proofs.Json.Records
import PinnedBench.Proofs.Keyed

/-!
# Values of JSON documents

A value that is kept as free JSON inside a document comes back as the same value, provided that it
is one that reading can give: its words fit, and the members of its objects stand in the order of
their keys (`ofTree_object`).
-/

namespace PinnedBench

namespace Json

/-! ### Values -/

/-- A word is a value that reading gives. -/
theorem ofTree_ofWord (n : UInt64) (levels : Nat) :
    ofTree levels (ofWord n).tree = .ok (ofWord n) := by
  have hbound : n.toNat < powerOfTwo 64 := n.toNat_lt
  have hsign : ¬(n.toNat : Int) < 0 := by omega
  rw [ofWord, tree, integerNumeral, ofTree, Numeral.value]
  simp [hbound, hsign]

theorem ofTree_string (s : String) (levels : Nat) :
    ofTree levels (Json.string s).tree = .ok (.string s) := by
  rw [tree, ofTree]
  rfl

/-- **An array** is read back if its items are. -/
theorem ofTree_array {levels : Nat} {items : List Json}
    (h : ∀ item ∈ items, ofTree levels item.tree = .ok item) :
    ofTree (levels + 1) (Json.array items).tree = .ok (.array items) := by
  rw [tree, itemTrees_eq_map, ofTree, mapM_map_eq_ok h]
  rfl

/-- Members under keys that are texts are read back if their values are. -/
theorem mapM_members_eq_ok {β : Type} {write : β → Tree} {read : Tree → Except Fault β}
    {members : List (String × β)} (h : ∀ m ∈ members, read (write m.2) = .ok m.2) :
    ((members.map fun m => (some m.1, write m.2)).mapM fun m => do
      .ok ((← textOf m.1), (← read m.2))) = .ok members := by
  refine mapM_map_eq_ok fun m hm => ?_
  simp only [textOf, h m hm, bind, Except.bind]

/-- **An object** is read back if its values are and its keys stand in order. -/
theorem ofTree_object {levels : Nat} {members : List (String × Json)}
    (h : ∀ m ∈ members, ofTree levels m.2.tree = .ok m.2) (hsorted : SortedEntries members) :
    ofTree (levels + 1) (Json.object members).tree = .ok (.object members) := by
  have hfold := @foldl_insertEntry _ [] members hsorted
  rw [tree, memberTrees_eq_map, ofTree]
  -- Reading puts the members in order, and they stand in order already.
  change (Except.bind ((members.map fun m => (some m.1, m.2.tree)).mapM fun m => do
    .ok ((← textOf m.1), (← ofTree levels m.2))) _) = _
  rw [mapM_members_eq_ok h]
  exact congrArg (fun ms => Except.ok (Json.object ms)) hfold

/-- **Entries in key order** are read back if their values are. -/
theorem Decoder.keyed_tree {β : Type} {f : β → Json} {d : Decoder β} {levels : Nat} {m : Keyed β}
    (h : ∀ e ∈ m.entries, d levels (f e.2).tree = .ok e.2) :
    d.keyed (levels + 1) (ofKeyed f m).tree = .ok m := by
  have hentries : ((m.entries.map fun e => (some e.1, (f e.2).tree)).mapM fun e => do
      .ok ((← textOf e.1), (← d levels e.2))) = .ok m.entries :=
    @mapM_members_eq_ok _ (fun v => (f v).tree) (d levels) _ h
  rw [ofKeyed, tree, memberTrees_eq_map, List.map_map, keyed]
  change (Except.bind ((m.entries.map fun e => (some e.1, (f e.2).tree)).mapM fun e => do
    .ok ((← textOf e.1), (← d levels e.2))) _) = _
  rw [hentries]
  -- The entries stand in order already.
  refine congrArg Except.ok (Keyed.ext ?_)
  rw [Keyed.entries_ofList]
  exact @foldl_insertEntry _ [] m.entries m.sorted

end Json

end PinnedBench
