import PinnedBench.Proofs.Files.Machines
import PinnedBench.Proofs.Files.Routes

/-!
# What operations on a store change

Two relations between a store and a later one say what an operation may have done:

* `Store.AddsDirectories` — directories stand where nothing stood, and nothing else is different.
  Making directories does no more (`Store.addsDirectories_makeDirectories`), so it touches no file
  (`Store.AddsDirectories.file_iff`).
* `Store.putFiles` — the store with the given files of one directory in place. Looking up a route
  finds the file that was put there (`Store.node?_putFiles_of_mem`) or what stood there before
  (`Store.node?_putFiles_of_ne`), and the directories are the same
  (`Store.sameDirectories_putFiles`).
-/

namespace PinnedBench

namespace Store

/-! ### Making directories -/

/-- The later store has more directories, and nothing else is different. -/
structure AddsDirectories (s t : Store) : Prop where
  /-- The current directory is the same. -/
  current_eq : t.current = s.current
  /-- A route keeps what stands there, or gets a directory where nothing stood. -/
  node?_eq : ∀ r, t.node? r = s.node? r ∨ s.node? r = none ∧ t.node? r = some .directory

theorem AddsDirectories.refl (s : Store) : s.AddsDirectories s := ⟨rfl, fun _ => .inl rfl⟩

/-- Directories are made one after the other. -/
theorem AddsDirectories.trans {s t u : Store} (h : s.AddsDirectories t) (h' : t.AddsDirectories u) :
    s.AddsDirectories u := by
  refine ⟨h'.current_eq.trans h.current_eq, fun r => ?_⟩
  rcases h.node?_eq r with h1 | ⟨h1, h2⟩ <;> rcases h'.node?_eq r with h3 | ⟨h3, h4⟩
  · exact .inl (h3.trans h1)
  · exact .inr ⟨h1.symm.trans h3, h4⟩
  · exact .inr ⟨h1, h3.trans h2⟩
  · exact .inr ⟨h1, h4⟩

theorem AddsDirectories.file_iff {s t : Store} (h : s.AddsDirectories t) (r : Route)
    (c : ByteArray) : t.node? r = some (.file c) ↔ s.node? r = some (.file c) := by
  rcases h.node?_eq r with h1 | ⟨h1, h2⟩
  · rw [h1]
  · simp [h1, h2]

theorem AddsDirectories.keeps {s t : Store} (h : s.AddsDirectories t) : s.KeepsDirectories t := by
  refine ⟨h.current_eq, fun r hr => ?_⟩
  rcases h.node?_eq r with h1 | ⟨h1, -⟩
  · exact h1.trans hr
  · simp [hr] at h1

/-- A file that is read is read as before when directories have been made. -/
theorem AddsDirectories.read {s t : Store} (h : s.AddsDirectories t) {p : Path} {c : ByteArray}
    (hc : s.read p = .ok c) : t.read p = .ok c := by
  obtain ⟨r, hr, hnode⟩ := read_eq_ok.mp hc
  exact read_eq_ok.mpr ⟨r, h.keeps.route hr, (h.file_iff r c).mpr hnode⟩

/-- Making one directory, whose place must be empty. -/
theorem addsDirectories_makeDirectory {s t : Store} {p : Path} (h : s.makeDirectory p = .ok t) :
    s.AddsDirectories t := by
  rw [makeDirectory] at h
  cases hr : s.follow p (partsToMake p) with
  | error e => simp [hr, bind, Except.bind] at h
  | ok r =>
    simp only [hr, bind, Except.bind] at h
    -- A directory is made only where nothing stands.
    split at h
    · simp at h
    next hnone =>
      rw [← Except.ok.inj h]
      have hne : r ≠ [] := by
        rintro rfl
        simp at hnone
      refine ⟨rfl, fun q => ?_⟩
      by_cases hq : q = r
      · subst hq
        exact .inr ⟨hnone, node?_put_self hne⟩
      · exact .inl (node?_put_ne hq)

/-- Making a directory, or finding that it is there. -/
theorem addsDirectories_ensureDirectory {s t : Store} {p : Path}
    (h : s.ensureDirectory p = .ok t) : s.AddsDirectories t := by
  rw [ensureDirectory] at h
  split at h
  next hmake => exact Except.ok.inj h ▸ addsDirectories_makeDirectory hmake
  · split at h
    · exact Except.ok.inj h ▸ .refl s
    · simp at h

/-- Making a directory and those above it. -/
theorem addsDirectories_ensureFrom {s t : Store} {fuel : Nat} {p : Path}
    (h : s.ensureFrom fuel p = .ok t) : s.AddsDirectories t := by
  -- The induction is on the fuel, which counts the directories above that may still have to be
  -- made.
  induction fuel generalizing p t with
  | zero => simp [ensureFrom] at h
  | succ fuel ih =>
    rw [ensureFrom] at h
    split at h
    · exact Except.ok.inj h ▸ .refl s
    · split at h
      next hd => exact Except.ok.inj h ▸ addsDirectories_ensureDirectory hd
      · split at h
        · simp at h
        -- The directories above are made first, with less fuel.
        next above _ =>
          cases hu : s.ensureFrom fuel above with
          | error e => simp [hu, bind, Except.bind] at h
          | ok u =>
            simp only [hu, bind, Except.bind] at h
            exact (ih hu).trans (addsDirectories_ensureDirectory h)
      · simp at h

/-- **Making directories** adds directories and does nothing else. -/
theorem addsDirectories_makeDirectories {s t : Store} {p : Path}
    (h : s.makeDirectories p = .ok t) : s.AddsDirectories t :=
  addsDirectories_ensureFrom h

/-! ### Putting files -/

/-- The store with files of the directory at a route, put one after the other. -/
def putFiles (s : Store) (b : Route) : List (String × ByteArray) → Store
  | [] => s
  | (name, c) :: rest => putFiles (s.put (b ++ [name]) (.file c)) b rest

/-- A route that is none of those of the files keeps what stands there. -/
theorem node?_putFiles_of_ne {s : Store} {b r : Route} {files : List (String × ByteArray)}
    (h : ∀ e ∈ files, r ≠ b ++ [e.1]) : (s.putFiles b files).node? r = s.node? r := by
  -- Every file is put into the store that the ones before have left, so the store is left open.
  induction files generalizing s with
  | nil => rfl
  | cons e rest ih =>
    rw [putFiles, ih fun e' he' => h e' (List.mem_cons_of_mem _ he'),
      node?_put_ne (h e List.mem_cons_self)]

/-- **A file that is put** stands at its route, unless another of the same name follows. -/
theorem node?_putFiles_of_mem {s : Store} {b : Route} {files : List (String × ByteArray)}
    (hnames : (files.map (·.1)).Nodup) {e : String × ByteArray} (he : e ∈ files) :
    (s.putFiles b files).node? (b ++ [e.1]) = some (.file e.2) := by
  induction files generalizing s with
  | nil => simp at he
  | cons f rest ih =>
    rw [List.map_cons, List.nodup_cons] at hnames
    rw [putFiles]
    -- The files behind it have other names, so they keep the first one.
    rcases List.mem_cons.mp he with rfl | he
    · rw [node?_putFiles_of_ne, node?_put_self (by simp)]
      intro e' he' heq
      have hname : e.1 = e'.1 := by simpa using heq
      exact hnames.1 (hname ▸ List.mem_map_of_mem he')
    · exact ih hnames.2 he

/-- Files that are put where no directories stand keep the directories. -/
theorem sameDirectories_putFiles {s : Store} {b : Route} {files : List (String × ByteArray)}
    (h : ∀ e ∈ files, s.node? (b ++ [e.1]) ≠ some .directory) :
    s.SameDirectories (s.putFiles b files) := by
  induction files generalizing s with
  | nil => exact ⟨rfl, fun _ => Iff.rfl⟩
  | cons e rest ih =>
    have hput := sameDirectories_put (c := e.2) (h e List.mem_cons_self)
    -- Putting the first file makes no directory where the others go.
    refine hput.trans (ih fun e' he' hd => ?_)
    exact h e' (List.mem_cons_of_mem _ he') ((hput.node?_iff _).mp hd)

/-! ### Removing files -/

theorem node?_erase_self {s : Store} {r : Route} (h : r ≠ []) : (s.erase r).node? r = none := by
  rw [node?, if_neg h, erase, List.lookup_eq_none_iff]
  intro e he
  have hne : e.1 ≠ r := by simpa using (List.mem_filter.mp he).2
  exact bne_iff_ne.mpr hne.symm

/-- The other routes keep what stands there. -/
theorem node?_erase_ne {s : Store} {r q : Route} (h : q ≠ r) :
    (s.erase r).node? q = s.node? q := by
  unfold node? erase
  split
  · rfl
  · exact lookup_filter_ne h s.nodes

/-- A file that is removed leaves the directories. -/
theorem sameDirectories_erase {s : Store} {r : Route} {c : ByteArray}
    (h : s.node? r = some (.file c)) : s.SameDirectories (s.erase r) := by
  have hr : r ≠ [] := by
    rintro rfl
    simp at h
  refine ⟨rfl, fun q => ?_⟩
  -- A file stands at the route, so no directory goes with it.
  by_cases hq : q = r
  · subst hq
    rw [node?_erase_self hr, h]
    simp
  · rw [node?_erase_ne hq]

/-- Removing takes away a file and nothing else. -/
theorem remove_eq_ok {s t : Store} {p : Path} :
    s.remove p = .ok t ↔
      ∃ r c, s.route p = .ok r ∧ s.node? r = some (.file c) ∧ t = s.erase r := by
  rw [remove]
  cases hr : s.route p with
  | error e => simp [bind, Except.bind]
  | ok r =>
    simp only [bind, Except.bind, Except.ok.injEq]
    cases hnode : s.node? r with
    | none => simp [hnode]
    | some n =>
      cases n with
      | directory => simp [hnode]
      | file c => simp [hnode, eq_comm]

/-- A file that has been removed is missing. -/
theorem read_of_remove {s t : Store} {p : Path} (h : s.remove p = .ok t) :
    t.read p = .error .missing := by
  obtain ⟨r, c, hr, hnode, rfl⟩ := remove_eq_ok.mp h
  have hne : r ≠ [] := by
    rintro rfl
    simp at hnode
  rw [read, (sameDirectories_erase hnode).route hr]
  simp only [bind, Except.bind, node?_erase_self hne]

/-- The other files are read as before. -/
theorem read_of_remove_ne {s t : Store} {p p' : Path} {r r' : Route} {c : ByteArray}
    (h : s.remove p = .ok t) (hr : s.route p = .ok r) (hr' : s.route p' = .ok r') (hne : r' ≠ r)
    (hread : s.read p' = .ok c) : t.read p' = .ok c := by
  obtain ⟨q, c', hq, hnode, rfl⟩ := remove_eq_ok.mp h
  obtain rfl := Except.ok.inj (hr.symm.trans hq)
  obtain ⟨q', hq', hnode'⟩ := read_eq_ok.mp hread
  obtain rfl := Except.ok.inj (hr'.symm.trans hq')
  refine read_eq_ok.mpr ⟨r', (sameDirectories_erase hnode).route hr', ?_⟩
  rw [node?_erase_ne hne, hnode']

end Store

/-! ### Texts as contents -/

/-- The text that the bytes of a text write is that text. -/
theorem textOfBytes_toUTF8 (text : String) : textOfBytes text.toUTF8 = .ok text := by
  have h : String.fromUTF8? text.toUTF8 = some text := by
    rw [String.toUTF8_eq_toByteArray, String.fromUTF8?, dif_pos text.isValidUTF8]
    rfl
  rw [textOfBytes, h]

end PinnedBench
