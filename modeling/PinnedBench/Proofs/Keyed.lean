import Mathlib.Data.List.Dedup
import Mathlib.Data.List.Induction
import PinnedBench.Keyed

/-!
# What stands under a key

A collection of entries under keys is known by what stands under each key (`Keyed.ext_find?`), since
its entries stand in the order of their keys. So everything about a collection that is read from a
list is said by two facts:

* under a key stands the last entry of the list with that key (`Keyed.find?_ofList`), which makes
  the order of the list and entries under other keys irrelevant where keys are different
  (`Keyed.ofList_perm`, `Keyed.ofList_cons_middle`);
* the keys are those of the list, each of them once (`Keyed.keys_ofList_perm`), which says how many
  entries are left of a list (`Keyed.size_ofList_eq_length`).
-/

namespace PinnedBench

variable {β : Type}

/-! ### Entries that are put in order -/

/-- An entry with the largest key goes to the end. -/
theorem insertEntry_of_lt {k : String} {v : β} {entries : List (String × β)}
    (h : ∀ e ∈ entries, e.1 < k) : insertEntry k v entries = entries ++ [(k, v)] := by
  induction entries with
  | nil => rfl
  | cons e rest ih =>
    obtain ⟨k', v'⟩ := e
    have hlt : k' < k := h _ List.mem_cons_self
    have hne : k ≠ k' := fun heq => String.lt_irrefl k' (heq ▸ hlt)
    -- The entry goes behind the first one, and so on to the end.
    rw [insertEntry, if_neg (String.lt_asymm hlt), if_neg hne,
      ih fun e he => h e (List.mem_cons_of_mem _ he), List.cons_append]

/-- Entries that stand in order stay as they are when they are put in order. -/
theorem foldl_insertEntry {known entries : List (String × β)}
    (h : SortedEntries (known ++ entries)) :
    entries.foldl (fun known e => insertEntry e.1 e.2 known) known = known ++ entries := by
  induction entries generalizing known with
  | nil => rw [List.foldl_nil, List.append_nil]
  | cons e rest ih =>
    -- Every entry has the largest key so far.
    have hlast : ∀ e' ∈ known, e'.1 < e.1 := fun e' he' =>
      (List.pairwise_append.mp h).2.2 e' he' e List.mem_cons_self
    rw [List.append_cons] at h
    rw [List.foldl_cons, insertEntry_of_lt hlast, ih h, List.append_assoc, List.singleton_append]

/-- Looking up in a list, spelled out by whether the first entry has the key. -/
theorem lookup_cons_eq_ite (e : String × β) (rest : List (String × β)) (k : String) :
    (e :: rest).lookup k = if k = e.1 then some e.2 else rest.lookup k := by
  rw [List.lookup_cons]
  by_cases hk : k = e.1
  · rw [if_pos hk, beq_iff_eq.mpr hk]
  · rw [if_neg hk, beq_eq_false_iff_ne.mpr hk]

/-- An entry is found under its own key, and nothing changes under the others. -/
theorem lookup_insertEntry (k k' : String) (v : β) (entries : List (String × β)) :
    (insertEntry k v entries).lookup k' = if k' = k then some v else entries.lookup k' := by
  induction entries with
  | nil =>
    unfold insertEntry
    rw [lookup_cons_eq_ite]
  | cons e rest ih =>
    obtain ⟨k₀, v₀⟩ := e
    unfold insertEntry
    split
    · -- The entry goes before all others.
      rw [lookup_cons_eq_ite]
    · split
      next heq =>
        -- The entry takes the place of the first one.
        subst heq
        rw [lookup_cons_eq_ite, lookup_cons_eq_ite]
        by_cases hk : k' = k
        · rw [if_pos hk, if_pos hk]
        · rw [if_neg hk, if_neg hk, if_neg hk]
      next hne =>
        -- The entry goes behind the first one, which has another key.
        rw [lookup_cons_eq_ite, lookup_cons_eq_ite, ih]
        by_cases hfirst : k' = k₀
        · subst hfirst
          rw [if_pos rfl, if_pos rfl, if_neg (Ne.symm hne)]
        · rw [if_neg hfirst, if_neg hfirst]

/-- Where no key stands twice, an entry is found under its key. -/
theorem lookup_eq_some_iff_mem {entries : List (String × β)} (h : (entries.map (·.1)).Nodup)
    {k : String} {v : β} : entries.lookup k = some v ↔ (k, v) ∈ entries := by
  induction entries with
  | nil => simp
  | cons e rest ih =>
    rw [List.map_cons, List.nodup_cons] at h
    rw [lookup_cons_eq_ite, List.mem_cons, Prod.ext_iff]
    by_cases hk : k = e.1
    · subst hk
      -- No other entry has the key of the first one.
      have hrest : (e.1, v) ∉ rest := fun hmem => h.1 (List.mem_map.mpr ⟨(e.1, v), hmem, rfl⟩)
      simp [hrest, eq_comm]
    · simp [hk, ih h.2]

/-- Where no key stands twice, the order of the entries does not matter. -/
theorem lookup_perm {entries entries' : List (String × β)} (hperm : entries.Perm entries')
    (h : (entries.map (·.1)).Nodup) (k : String) : entries.lookup k = entries'.lookup k := by
  apply Option.ext
  intro v
  rw [lookup_eq_some_iff_mem h, lookup_eq_some_iff_mem ((hperm.map _).nodup_iff.mp h),
    hperm.mem_iff]

/-- The first entry under a key is that of the first item with that key. -/
theorem lookup_map_eq {α : Type} (key : α → String) (value : α → β) (as : List α) (k : String) :
    (as.map fun a => (key a, value a)).lookup k = (as.find? fun a => key a == k).map value := by
  induction as with
  | nil => rfl
  | cons a as ih =>
    rw [List.map_cons, lookup_cons_eq_ite, ih, List.find?_cons]
    by_cases hk : k = key a
    · rw [if_pos hk, beq_iff_eq.mpr hk.symm, Option.map_some]
    · rw [if_neg hk, beq_eq_false_iff_ne.mpr (Ne.symm hk)]

/-- Where no two items have the same key, an item is found by its key. -/
theorem find?_eq_some_iff_mem {α : Type} {key : α → String} {as : List α}
    (h : (as.map key).Nodup) {k : String} {a : α} :
    (as.find? fun a => key a == k) = some a ↔ a ∈ as ∧ key a = k := by
  have hkeys : ((as.map fun a => (key a, a)).map (·.1)).Nodup := by
    rw [List.map_map]
    exact h
  have hlookup := lookup_map_eq key id as k
  rw [Option.map_id, id_eq] at hlookup
  rw [← hlookup]
  refine (lookup_eq_some_iff_mem hkeys).trans ?_
  simp only [List.mem_map, Prod.mk.injEq]
  constructor
  · rintro ⟨a', ha, hk, rfl⟩
    exact ⟨ha, hk⟩
  · rintro ⟨ha, hk⟩
    exact ⟨a, ha, hk, rfl⟩

/-- Entries that stand in the order of their keys have different ones. -/
theorem SortedEntries.nodup_keys {entries : List (String × β)} (h : SortedEntries entries) :
    (entries.map (·.1)).Nodup := by
  apply List.pairwise_map.mpr
  apply List.Pairwise.imp _ h
  intro e e' hlt heq
  exact String.lt_irrefl e'.1 (heq ▸ hlt)

namespace Keyed

/-! ### Finding entries -/

/-- What stands under a key. -/
def find? (m : Keyed β) (k : String) : Option β := m.entries.lookup k

/-- What stands under a key is the entry with that key. -/
theorem find?_eq_some {m : Keyed β} {k : String} {v : β} :
    m.find? k = some v ↔ (k, v) ∈ m.entries :=
  lookup_eq_some_iff_mem m.sorted.nodup_keys

theorem mem_keys {m : Keyed β} {k : String} : k ∈ m.keys ↔ ∃ v, m.find? k = some v := by
  unfold keys
  simp [find?_eq_some]

/-- An entry stands under its own key from then on, and the others stay. -/
@[simp]
theorem find?_insert (m : Keyed β) (k k' : String) (v : β) :
    (m.insert k v).find? k' = if k' = k then some v else m.find? k' :=
  lookup_insertEntry k k' v m.entries

/-- **A collection** is known by what stands under each key. -/
theorem ext_find? {m n : Keyed β} (h : ∀ k, m.find? k = n.find? k) : m = n := by
  have hmem : ∀ e, e ∈ m.entries ↔ e ∈ n.entries := by
    rintro ⟨k, v⟩
    rw [← find?_eq_some, ← find?_eq_some, h k]
  have hperm : m.entries.Perm n.entries :=
    (List.perm_ext_iff_of_nodup (.of_map _ m.sorted.nodup_keys) (.of_map _ n.sorted.nodup_keys)).mpr
      hmem
  -- Both stand in the order of their keys, and there is only one such order.
  refine ext (hperm.eq_of_pairwise ?_ m.sorted n.sorted)
  intro a b _ _ hab hba
  exact absurd hba (String.lt_asymm hab)

/-! ### Collections that are read from lists -/

/-- A collection that is read from left to right has its entries put in order one by one. -/
theorem entries_ofList (entries : List (String × β)) :
    (ofList entries).entries =
      entries.foldl (fun known e => insertEntry e.1 e.2 known) [] := by
  have hfold : ∀ known : Keyed β,
      (entries.foldl (fun known e => known.insert e.1 e.2) known).entries =
        entries.foldl (fun known e => insertEntry e.1 e.2 known) known.entries := by
    induction entries with
    | nil => exact fun _ => rfl
    | cons e rest ih => exact fun known => ih (known.insert e.1 e.2)
  exact hfold .empty

/-- The last entry of a list is put in last. -/
theorem ofList_concat (entries : List (String × β)) (e : String × β) :
    ofList (entries ++ [e]) = (ofList entries).insert e.1 e.2 := by
  unfold ofList
  rw [List.foldl_append, List.foldl_cons, List.foldl_nil]

/-- **Under a key** stands the last entry with that key. -/
theorem find?_ofList (entries : List (String × β)) (k : String) :
    (ofList entries).find? k = entries.reverse.lookup k := by
  -- The induction is from the end of the list, because the last entry is the one that stays.
  induction entries using List.reverseRecOn with
  | nil => rfl
  | append_singleton entries e ih =>
    rw [ofList_concat, find?_insert, ih, List.reverse_concat, lookup_cons_eq_ite]

/-- Under a key stands what belongs to the last item with that key. -/
theorem find?_ofList_map {α : Type} (key : α → String) (value : α → β) (as : List α) (k : String) :
    (ofList (as.map fun a => (key a, value a))).find? k =
      (as.reverse.find? fun a => key a == k).map value := by
  rw [find?_ofList, ← List.map_reverse, lookup_map_eq]

/-- No entry comes from anywhere but the list. -/
theorem mem_of_mem_ofList {entries : List (String × β)} {e : String × β}
    (h : e ∈ (ofList entries).entries) : e ∈ entries := by
  obtain ⟨k, v⟩ := e
  rw [← find?_eq_some, find?_ofList, List.lookup_eq_some_iff] at h
  obtain ⟨before, after, hsplit, -⟩ := h
  rw [← List.mem_reverse, hsplit]
  simp

/-- Of entries under different keys none is lost. -/
theorem find?_ofList_of_nodup {entries : List (String × β)} (h : (entries.map (·.1)).Nodup)
    {k : String} {v : β} : (ofList entries).find? k = some v ↔ (k, v) ∈ entries := by
  -- The last entry under a key is the first one of the list read backwards.
  have hreverse : (entries.reverse.map (·.1)).Nodup := by
    rw [List.map_reverse]
    exact List.nodup_reverse.mpr h
  rw [find?_ofList, lookup_eq_some_iff_mem hreverse, List.mem_reverse]

/-- **The order** in which entries under different keys are read does not matter. -/
theorem ofList_perm {entries entries' : List (String × β)} (hperm : entries.Perm entries')
    (h : (entries.map (·.1)).Nodup) : ofList entries = ofList entries' := by
  have h' : (entries'.map (·.1)).Nodup := (hperm.map _).nodup_iff.mp h
  apply ext_find?
  intro k
  apply Option.ext
  intro v
  rw [find?_ofList_of_nodup h, find?_ofList_of_nodup h', hperm.mem_iff]

/-- **An entry** that is read among others is put beside them, unless one behind it has its key. -/
theorem ofList_cons_middle {before after : List (String × β)} {e : String × β}
    (h : e.1 ∉ after.map (·.1)) :
    ofList (before ++ e :: after) = (ofList (before ++ after)).insert e.1 e.2 := by
  -- What stands behind the entry cannot take its place.
  have hafter : after.reverse.lookup e.1 = none := by
    rw [List.lookup_eq_none_iff]
    intro e' he'
    rw [bne_iff_ne]
    rintro heq
    exact h (heq ▸ List.mem_map_of_mem (List.mem_reverse.mp he'))
  apply ext_find?
  intro k
  rw [find?_insert, find?_ofList, find?_ofList, List.reverse_append, List.reverse_append,
    List.reverse_cons, List.append_assoc, List.lookup_append, List.singleton_append,
    lookup_cons_eq_ite, List.lookup_append]
  by_cases hk : k = e.1
  · subst hk
    rw [if_pos rfl, if_pos rfl, hafter, Option.none_or]
  · rw [if_neg hk, if_neg hk]

/-- **The keys** are those of the list, each of them once. -/
theorem keys_ofList_perm (entries : List (String × β)) :
    (ofList entries).keys.Perm (entries.map (·.1)).dedup := by
  apply (List.perm_ext_iff_of_nodup (ofList entries).sorted.nodup_keys (List.nodup_dedup _)).mpr
  intro k
  have hlookup : (∃ v, entries.reverse.lookup k = some v) ↔ ∃ e ∈ entries, e.1 = k := by
    rw [← Option.isSome_iff_exists, List.lookup_isSome_iff]
    simp only [List.mem_reverse, beq_iff_eq, @eq_comm _ k]
  show k ∈ (ofList entries).keys ↔ _
  rw [mem_keys, List.mem_dedup, List.mem_map]
  simp only [find?_ofList, hlookup]

/-- No entry of a list is lost exactly if their keys are different. -/
theorem size_ofList_eq_length {entries : List (String × β)} :
    (ofList entries).size = entries.length ↔ (entries.map (·.1)).Nodup := by
  have hsize : (ofList entries).size = (entries.map (·.1)).dedup.length := by
    rw [← (keys_ofList_perm entries).length_eq]
    exact (List.length_map _).symm
  rw [hsize, ← List.dedup_eq_self]
  constructor
  · intro hlength
    exact (List.dedup_sublist _).eq_of_length (hlength.trans (List.length_map _).symm)
  · intro hkept
    rw [hkept, List.length_map]

end Keyed

end PinnedBench
