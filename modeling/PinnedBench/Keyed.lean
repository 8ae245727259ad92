/-!
# Entries in key order

`Keyed β` is a finite collection of entries under string keys: one entry per key, in increasing
order of the keys (by code points). The order is part of the type, so two collections with the same
entries are equal however they were built. Inserting under a key that is present replaces the entry.
-/

namespace PinnedBench

/-- The entry under a key put in its place among sorted entries, replacing one under the same key.
-/
def insertEntry {β : Type} (k : String) (v : β) : List (String × β) → List (String × β)
  | [] => [(k, v)]
  | (k', v') :: rest =>
    if k < k' then (k, v) :: (k', v') :: rest
    else if k = k' then (k, v) :: rest
    else (k', v') :: insertEntry k v rest

/-- Whether entries stand in strictly increasing order of their keys. -/
def SortedEntries {β : Type} (entries : List (String × β)) : Prop :=
  entries.Pairwise fun a b => a.1 < b.1

/-- A bound below the present keys and the new one is below all keys afterwards. -/
theorem below_insertEntry {β : Type} {b k : String} {v : β} {entries : List (String × β)}
    (hk : b < k) (h : ∀ e ∈ entries, b < e.1) : ∀ e ∈ insertEntry k v entries, b < e.1 := by
  induction entries with
  | nil => simpa [insertEntry] using hk
  | cons e rest ih =>
    obtain ⟨k', v'⟩ := e
    have hrest : ∀ e ∈ rest, b < e.1 := fun e he => h e (List.mem_cons_of_mem _ he)
    have hhead : b < k' := h (k', v') List.mem_cons_self
    unfold insertEntry
    split
    · intro e he
      rcases List.mem_cons.1 he with rfl | he
      · exact hk
      · exact h e he
    · split
      · intro e he
        rcases List.mem_cons.1 he with rfl | he
        · exact hk
        · exact hrest e he
      · intro e he
        rcases List.mem_cons.1 he with rfl | he
        · exact hhead
        · exact ih hrest e he

/-- Inserting keeps the order. -/
theorem SortedEntries.insertEntry {β : Type} {k : String} {v : β} {entries : List (String × β)}
    (h : SortedEntries entries) : SortedEntries (insertEntry k v entries) := by
  induction entries with
  | nil => simp [PinnedBench.insertEntry, SortedEntries]
  | cons e rest ih =>
    obtain ⟨k', v'⟩ := e
    have hhead : ∀ e ∈ rest, k' < e.1 := (List.pairwise_cons.1 h).1
    have hrest : SortedEntries rest := (List.pairwise_cons.1 h).2
    unfold PinnedBench.insertEntry
    split
    next hlt =>
      refine List.pairwise_cons.2 ⟨?_, h⟩
      intro e he
      rcases List.mem_cons.1 he with rfl | he
      · exact hlt
      · exact String.lt_trans hlt (hhead e he)
    next hnlt =>
      split
      next heq => exact List.pairwise_cons.2 ⟨fun e he => heq ▸ hhead e he, hrest⟩
      next hne =>
        refine List.pairwise_cons.2 ⟨below_insertEntry ?_ hhead, ih hrest⟩
        exact String.not_le.1 fun hle => hne (String.le_antisymm hle (String.not_lt.1 hnlt))

/-- Entries under string keys, one per key, in the order of the keys. -/
structure Keyed (β : Type) where
  /-- The entries. -/
  entries : List (String × β)
  /-- The keys increase. -/
  sorted : SortedEntries entries

namespace Keyed

variable {β : Type}

/-- The collection without entries. -/
def empty : Keyed β := ⟨[], List.Pairwise.nil⟩

/-- The collection with an entry under a key, in place of one that was there. -/
def insert (m : Keyed β) (k : String) (v : β) : Keyed β :=
  ⟨insertEntry k v m.entries, m.sorted.insertEntry⟩

/-- The collection of entries read from left to right, so that the last one under a key stays. -/
def ofList (entries : List (String × β)) : Keyed β :=
  entries.foldl (fun m e => m.insert e.1 e.2) empty

/-- The keys, in order. -/
def keys (m : Keyed β) : List String := m.entries.map (·.1)

/-- The number of entries. -/
def size (m : Keyed β) : Nat := m.entries.length

/-- Whether there is no entry. -/
def isEmpty (m : Keyed β) : Bool := m.entries.isEmpty

@[simp]
theorem entries_empty : (empty : Keyed β).entries = [] := rfl

@[simp]
theorem entries_insert (m : Keyed β) (k : String) (v : β) :
    (m.insert k v).entries = insertEntry k v m.entries := rfl

/-- Collections with the same entries are equal. -/
theorem ext {m n : Keyed β} (h : m.entries = n.entries) : m = n := by
  cases m; cases n; cases h; rfl

end Keyed

end PinnedBench
