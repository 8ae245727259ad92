import Mathlib.Data.List.Nodup
import PinnedBench.Proofs.Json.Documents
import PinnedBench.Proofs.Keyed
import PinnedBench.Proofs.Outcomes

/-!
# Records of JSON documents

An object gives the fields of a record that are among its members, if no field is given twice
(`Tree.fields_eq_ok`). So the order of the members does not matter, nor do members that are no
fields; and of an object that is made from another one by leaving out members, each field is read as
before, or has its default (`Remade.exists_fields`).

A record is written as an object with its fields, and a reader of the record looks them up by their
names. If the keys of the object are fields of the record and no key is repeated, the reader finds
what was written under each (`Tree.fields_object`). With the lemmas on the decoders of texts and
words, reading a record that was written comes down to looking up names in a list.
-/

namespace PinnedBench.Json

/-! ### Trees of arrays and objects -/

theorem itemTrees_eq_map (items : List Json) : itemTrees items = items.map tree := by
  induction items with
  | nil => rfl
  | cons item items ih => rw [itemTrees, ih, List.map_cons]

/-- The trees of members, one by one. -/
theorem memberTrees_eq_map (members : List (String × Json)) :
    memberTrees members = members.map fun m => (some m.1, m.2.tree) := by
  induction members with
  | nil => rfl
  | cons member members ih =>
    obtain ⟨key, value⟩ := member
    rw [memberTrees, ih, List.map_cons]

/-! ### Fields -/

/-- The members of an object that are fields with these names. -/
def ownMembers (names : List String) (members : List (Option String × Tree)) :
    List (String × Tree) :=
  members.filterMap fun m => (m.1.filter (· ∈ names)).map fun name => (name, m.2)

/-- A member that is a field is kept. -/
theorem ownMembers_cons_of_mem {names : List String} {name : String} (h : name ∈ names) (t : Tree)
    (rest : List (Option String × Tree)) :
    ownMembers names ((some name, t) :: rest) = (name, t) :: ownMembers names rest := by
  simp [ownMembers, h]

/-- A member that is no field is passed over. -/
theorem ownMembers_cons_of_not_mem {names : List String} {name : String} (h : name ∉ names)
    (t : Tree) (rest : List (Option String × Tree)) :
    ownMembers names ((some name, t) :: rest) = ownMembers names rest := by
  simp [ownMembers, h]

/-- Rows of members may be looked at one after the other. -/
theorem ownMembers_append (names : List String) (members rest : List (Option String × Tree)) :
    ownMembers names (members ++ rest) = ownMembers names members ++ ownMembers names rest :=
  List.filterMap_append

/-- The order of the members is that of the fields, and does not matter for which they are. -/
theorem ownMembers_perm (names : List String) {members members' : List (Option String × Tree)}
    (h : members.Perm members') : (ownMembers names members).Perm (ownMembers names members') :=
  h.filterMap _

/-- Where all members are fields, all are kept. -/
theorem ownMembers_map_some {names : List String} {members : List (String × Tree)}
    (h : ∀ m ∈ members, m.1 ∈ names) :
    ownMembers names (members.map fun m => (some m.1, m.2)) = members := by
  induction members with
  | nil => rfl
  | cons m rest ih =>
    obtain ⟨hm, hrest⟩ := List.forall_mem_cons.mp h
    rw [List.map_cons, ownMembers_cons_of_mem hm, ih hrest]

/-- Members are collected if their keys are texts and no field is given twice. -/
theorem collectMembers_eq_ok {names : List String} {found given : List (String × Tree)}
    {members : List (Option String × Tree)} (hfound : (found.map (·.1)).Nodup) :
    collectMembers names found members = .ok given ↔
      (∀ m ∈ members, ∃ name, m.1 = some name) ∧
        ((found ++ ownMembers names members).map (·.1)).Nodup ∧
        found ++ ownMembers names members = given := by
  -- The induction is on the members that are left, with those that have been found before them left
  -- open.
  induction members generalizing found with
  | nil => simp [collectMembers, ownMembers, hfound]
  | cons m rest ih =>
    obtain ⟨key, t⟩ := m
    rw [collectMembers, bind_eq_ok]
    cases key with
    | none => simp [textOf]
    | some name =>
      have hkeys : (∀ m ∈ (some name, t) :: rest, ∃ name, m.1 = some name) ↔
          ∀ m ∈ rest, ∃ name, m.1 = some name := by
        simp
      have hlookup : (found.lookup name).isSome = true ↔ name ∈ found.map (·.1) := by
        simp only [List.lookup_isSome_iff, List.mem_map, beq_iff_eq, @eq_comm _ name]
      simp only [textOf, Except.ok.injEq, exists_eq_left', hkeys, List.contains_iff_mem]
      split
      next hmem =>
        rw [ownMembers_cons_of_mem hmem]
        split
        next hdouble =>
          -- The name is among those that were found before.
          refine iff_of_false nofun fun ⟨_, hnodup, _⟩ => ?_
          rw [List.map_append, List.nodup_append] at hnodup
          exact hnodup.2.2 name (hlookup.mp hdouble) name List.mem_cons_self rfl
        next hnew =>
          have hfound' : ((found ++ [(name, t)]).map (·.1)).Nodup := by
            have hname : name ∉ found.map (·.1) := mt hlookup.mpr hnew
            rw [List.map_append]
            exact hfound.append (List.nodup_singleton name) (List.disjoint_singleton.mpr hname)
          rw [ih hfound', List.append_assoc, List.singleton_append]
      next hmem =>
        rw [ownMembers_cons_of_not_mem hmem]
        exact ih hfound

/-- **An object** gives the fields of a record that are among its members. -/
theorem Tree.fields_eq_ok {names : List String} {levels : Nat}
    {members : List (Option String × Tree)} {f : Fields} :
    Tree.fields names (levels + 1) (.object members) = .ok f ↔
      (∀ m ∈ members, ∃ name, m.1 = some name) ∧ ((ownMembers names members).map (·.1)).Nodup ∧
        f = ⟨levels, false, ownMembers names members⟩ := by
  have hcollect {given : List (String × Tree)} := @collectMembers_eq_ok names [] given members
    List.nodup_nil
  rw [Tree.fields, bind_eq_ok]
  constructor
  · rintro ⟨given, hgiven, hf⟩
    obtain ⟨hkeys, hnodup, rfl⟩ := hcollect.mp hgiven
    exact ⟨hkeys, hnodup, (Except.ok.inj hf).symm⟩
  · rintro ⟨hkeys, hnodup, rfl⟩
    exact ⟨_, hcollect.mpr ⟨hkeys, hnodup, rfl⟩, rfl⟩

/-! ### Objects with other members -/

/-- The keys of members that are texts. -/
def memberNames (members : List (Option String × Tree)) : List String := members.filterMap (·.1)

/-- The fields that are given are the names of the record among the keys. -/
theorem mem_keys_ownMembers {names : List String} {members : List (Option String × Tree)}
    {name : String} :
    name ∈ (ownMembers names members).map (·.1) ↔ name ∈ memberNames members ∧ name ∈ names := by
  simp [ownMembers, memberNames, Option.filter_eq_some_iff]

/-- **An object that is made from another one** by leaving out members and putting others among the
rest, in any order. The others are no fields with the names of a record. -/
structure Remade (names : List String) (members deleted added members' :
    List (Option String × Tree)) : Prop where
  /-- What is left of the one is in the other, and the order is free. -/
  exists_kept : ∃ kept, members.Perm (kept ++ deleted) ∧ members'.Perm (kept ++ added)
  /-- What is put in has names that the record does not know. -/
  unknown : ∀ m ∈ added, ∃ name, m.1 = some name ∧ name ∉ names

namespace Remade

variable {names : List String} {members deleted added members' : List (Option String × Tree)}

/-- The other object has the same fields but for those that are left out. -/
theorem exists_own (h : Remade names members deleted added members') :
    ∃ own, (ownMembers names members).Perm (own ++ ownMembers names deleted) ∧
      (ownMembers names members').Perm own := by
  obtain ⟨kept, hmembers, hmembers'⟩ := h.exists_kept
  have hadded : ownMembers names added = [] := by
    refine List.filterMap_eq_nil_iff.mpr fun m hm => ?_
    obtain ⟨name, hname, hunknown⟩ := h.unknown m hm
    simp [hname, hunknown]
  have hown := ownMembers_perm names hmembers'
  rw [ownMembers_append, hadded, List.append_nil] at hown
  refine ⟨ownMembers names kept, ?_, hown⟩
  rw [← ownMembers_append]
  exact ownMembers_perm names hmembers

/-- The keys of the other object are texts as well. -/
theorem keys (h : Remade names members deleted added members')
    (hkeys : ∀ m ∈ members, ∃ name, m.1 = some name) :
    ∀ m ∈ members', ∃ name, m.1 = some name := by
  obtain ⟨kept, hmembers, hmembers'⟩ := h.exists_kept
  intro m hm
  rcases List.mem_append.mp (hmembers'.mem_iff.mp hm) with hm | hm
  · exact hkeys m (hmembers.mem_iff.mpr (List.mem_append_left _ hm))
  · obtain ⟨name, hname, -⟩ := h.unknown m hm
    exact ⟨name, hname⟩

/-- No field is given twice by the other object. -/
theorem nodup (h : Remade names members deleted added members')
    (hnodup : ((ownMembers names members).map (·.1)).Nodup) :
    ((ownMembers names members').map (·.1)).Nodup := by
  obtain ⟨own, hown, hown'⟩ := h.exists_own
  have hboth := (hown.map (·.1)).nodup_iff.mp hnodup
  rw [List.map_append] at hboth
  exact (hown'.map (·.1)).nodup_iff.mpr hboth.of_append_left

/-- **Under the name of a field** stands what stood there before, unless the field is left out. -/
theorem lookup (h : Remade names members deleted added members')
    (hnodup : ((ownMembers names members).map (·.1)).Nodup) {name : String} (hname : name ∈ names) :
    (ownMembers names members').lookup name =
      if name ∈ memberNames deleted then none else (ownMembers names members).lookup name := by
  obtain ⟨own, hown, hown'⟩ := h.exists_own
  have hboth := (hown.map (·.1)).nodup_iff.mp hnodup
  rw [lookup_perm hown' (h.nodup hnodup), lookup_perm hown hnodup, List.lookup_append]
  rw [List.map_append, List.nodup_append] at hboth
  split
  next hdeleted =>
    -- The field is among those that are left out, so it is not among the others.
    have hkey := mem_keys_ownMembers.mpr ⟨hdeleted, hname⟩
    refine List.lookup_eq_none_iff.mpr fun m hm => bne_iff_ne.mpr ?_
    exact (hboth.2.2 m.1 (List.mem_map_of_mem hm) name hkey).symm
  next hdeleted =>
    have hnone : (ownMembers names deleted).lookup name = none := by
      refine List.lookup_eq_none_iff.mpr fun m hm => bne_iff_ne.mpr ?_
      rintro rfl
      exact hdeleted (mem_keys_ownMembers.mp (List.mem_map_of_mem hm)).1
    rw [hnone, Option.or_none]

/-- **Fields that may be left out** are read from the other object as they were before, or else have
their defaults. -/
theorem exists_fields (h : Remade names members deleted added members') {levels : Nat} {f : Fields}
    (hf : Tree.fields names (levels + 1) (.object members) = .ok f) :
    ∃ f', Tree.fields names (levels + 1) (.object members') = .ok f' ∧
      ∀ name ∈ names, ∀ {α : Type} {a v : α} {d : Decoder α}, f.defaulted name a d = .ok v →
        f'.defaulted name a d = .ok (if name ∈ memberNames deleted then a else v) := by
  obtain ⟨hkeys, hnodup, rfl⟩ := Tree.fields_eq_ok.mp hf
  refine ⟨_, Tree.fields_eq_ok.mpr ⟨h.keys hkeys, h.nodup hnodup, rfl⟩, ?_⟩
  intro name hname α a v d hv
  rw [Fields.defaulted, h.lookup hnodup hname]
  by_cases hdeleted : name ∈ memberNames deleted
  · rw [if_pos hdeleted, if_pos hdeleted]
  · rw [if_neg hdeleted, if_neg hdeleted]
    exact hv

end Remade

/-- **The fields of a record** that is written as an object are the members of the object. -/
theorem Tree.fields_object {names : List String} {members : List (String × Json)}
    (hnames : ∀ m ∈ members, m.1 ∈ names) (hnodup : (members.map (·.1)).Nodup) (levels : Nat) :
    Tree.fields names (levels + 1) (Json.object members).tree =
      .ok ⟨levels, false, members.map fun m => (m.1, m.2.tree)⟩ := by
  have hmembers : memberTrees members =
      (members.map fun m => (m.1, m.2.tree)).map fun m => (some m.1, m.2) := by
    rw [memberTrees_eq_map, List.map_map]
    rfl
  have hown : ownMembers names (memberTrees members) = members.map fun m => (m.1, m.2.tree) := by
    rw [hmembers]
    exact ownMembers_map_some (List.forall_mem_map.mpr hnames)
  rw [Json.tree, Tree.fields_eq_ok, hown]
  refine ⟨?_, ?_, rfl⟩
  · rw [hmembers]
    exact List.forall_mem_map.mpr fun m _ => ⟨m.1, rfl⟩
  · rw [List.map_map]
    exact hnodup

namespace Fields

variable {α : Type} {f : Fields} {name : String} {t : Tree}

/-- A field that is given is decoded, whatever its default is. -/
theorem defaulted_of_lookup (h : f.given.lookup name = some t) (a : α) (d : Decoder α) :
    f.defaulted name a d = d f.levels t := by
  rw [defaulted, h]

end Fields

/-! ### Decoders -/

namespace Decoder

@[simp]
theorem string_tree (s : String) (levels : Nat) : string levels (Json.string s).tree = .ok s := rfl

@[simp]
theorem word_tree (n : UInt64) (levels : Nat) : word levels (ofWord n).tree = .ok n := by
  have hbound : n.toNat < powerOfTwo 64 := n.toNat_lt
  have hsign : ¬ (n.toNat : Int) < 0 := by omega
  rw [ofWord, tree, integerNumeral, word, natural]
  simp [hbound, hsign, Except.map]

/-- A word of 32 bits is read back. -/
@[simp]
theorem halfWord_tree (n : UInt32) (levels : Nat) :
    halfWord levels (ofHalfWord n).tree = .ok n := by
  have hbound : n.toNat < powerOfTwo 32 := n.toNat_lt
  have hsign : ¬ (n.toNat : Int) < 0 := by omega
  rw [ofHalfWord, tree, integerNumeral, halfWord, natural]
  simp [hbound, hsign, Except.map]

@[simp]
theorem boolean_tree (b : Bool) (levels : Nat) : boolean levels (Json.boolean b).tree = .ok b := rfl

/-- **A value that may be missing** is read back if it is not written as nothing. -/
theorem orNull_tree {α : Type} {f : α → Json} {d : Decoder α} {levels : Nat} {o : Option α}
    (h : ∀ a ∈ o, (f a).tree ≠ .null ∧ d levels (f a).tree = .ok a) :
    d.orNull levels (ofOption f o).tree = .ok o := by
  cases o with
  | none => rfl
  | some a =>
    obtain ⟨hnull, hread⟩ := h a rfl
    rw [ofOption, orNull, hread]
    · rfl
    · exact hnull

/-- **A list** is read back if its items are. -/
theorem list_tree {α : Type} {f : α → Json} {d : Decoder α} {levels : Nat} {as : List α}
    (h : ∀ a ∈ as, d levels (f a).tree = .ok a) :
    d.list (levels + 1) (Json.array (as.map f)).tree = .ok as := by
  rw [tree, itemTrees_eq_map, List.map_map, list]
  exact mapM_map_eq_ok h

@[simp]
theorem pair_tree (a b : UInt64) (levels : Nat) :
    pair word (levels + 1) (Json.array [ofWord a, ofWord b]).tree = .ok (a, b) := by
  rw [tree, itemTrees_eq_map, pair, list]
  simp [bind, Except.bind, pure, Except.pure]

end Decoder

end PinnedBench.Json
