import PinnedBench.Files.Store

/-!
# Where the files of a directory stand

A path that is joined from a directory and a plain name leads to the route of the directory followed
by the name. The statements of this module say so in both directions, and say that the route stays
the same as long as no directory comes or goes:

* `Path.parts_join` — the parts of a joined path are those of the directory, then the name;
* `Store.route_join` — the route of a joined path, with the exact conditions under which there is
  one;
* `Store.SameDirectories.route` — stores with the same directories resolve paths alike. Writing a
  file keeps the directories (`Store.sameDirectories_put`), so the other files of a directory stay
  where they are.

`Store.Opens s d b` is what the statements about directories are built on: the path `d` leads to the
route `b`, and there is a directory.
-/

namespace PinnedBench

/-- A name that leads exactly one level down. -/
structure IsPlainName (name : String) : Prop where
  /-- It is not empty. -/
  ne_empty : name ≠ ""
  /-- It does not stay where it is. -/
  ne_dot : name ≠ "."
  /-- It does not go up. -/
  ne_dots : name ≠ ".."
  /-- It is one part of a path. -/
  slash_not_mem : '/' ∉ name.toList
  /-- It is no longer than a name may be. -/
  size_le : name.utf8ByteSize ≤ Store.maxName

instance (name : String) : Decidable (IsPlainName name) :=
  decidable_of_iff (name ≠ "" ∧ name ≠ "." ∧ name ≠ ".." ∧ '/' ∉ name.toList ∧
      name.utf8ByteSize ≤ Store.maxName)
    ⟨fun ⟨h1, h2, h3, h4, h5⟩ => ⟨h1, h2, h3, h4, h5⟩,
      fun h => ⟨h.ne_empty, h.ne_dot, h.ne_dots, h.slash_not_mem, h.size_le⟩⟩

namespace Path

/-! ### Joined paths -/

/-- The parts of a path that come before a name that is joined to it. -/
def leading (p : Path) : List String :=
  if p.isEmpty then []
  else if p.text.toList.getLast? = some '/' then p.parts.dropLast
  else p.parts

/-- A path that the file system takes: not too long, and without a character that it refuses. -/
structure Acceptable (p : Path) : Prop where
  /-- No character ends the path early. -/
  nul_not_mem : p.text.toList.contains '\x00' = false
  /-- The path is shorter than the bound. -/
  size_lt : p.text.utf8ByteSize < Store.pathBound

instance (p : Path) : Decidable p.Acceptable :=
  decidable_of_iff (p.text.toList.contains '\x00' = false ∧ p.text.utf8ByteSize < Store.pathBound)
    ⟨fun h => ⟨h.1, h.2⟩, fun h => ⟨h.1, h.2⟩⟩

/-- A plain name does not start at the root. -/
theorem isAbsolute_of_plain {name : String} (hn : IsPlainName name) :
    (Path.mk name).isAbsolute = false := by
  rw [isAbsolute, beq_eq_false_iff_ne]
  intro h
  exact hn.slash_not_mem (List.mem_of_head? h)

theorem isEmpty_iff {p : Path} : p.isEmpty = true ↔ p.text.toList = [] := by
  rw [isEmpty, String.isEmpty_iff, ← String.toList_eq_nil_iff]

/-- A path joined with a plain name, spelled out. -/
theorem join_of_plain {name : String} (hn : IsPlainName name) (p : Path) :
    p.join name =
      if p.isEmpty then ⟨name⟩
      else if p.text.toList.getLast? = some '/' then ⟨p.text ++ name⟩
      else ⟨p.text ++ "/" ++ name⟩ := by
  rw [join, isAbsolute_of_plain hn]
  simp only [Bool.false_eq_true, false_or]

theorem parts_of_plain {name : String} (hn : IsPlainName name) : (Path.mk name).parts = [name] := by
  rw [parts, List.splitOn_eq_singleton hn.slash_not_mem, List.map_singleton, String.ofList_toList]

/-- The parts of a text, a slash and a plain name. -/
private theorem parts_of_slash {name : String} (hn : IsPlainName name) (cs : List Char) :
    ((cs ++ '/' :: name.toList).splitOn '/').map String.ofList =
      (cs.splitOn '/').map String.ofList ++ [name] := by
  rw [List.splitOn_append_cons_self, List.splitOn_eq_singleton hn.slash_not_mem, List.map_append,
    List.map_singleton, String.ofList_toList]

/-- **The parts of a joined path** are those of the directory, then the name. -/
theorem parts_join {name : String} (hn : IsPlainName name) (p : Path) :
    (p.join name).parts = p.leading ++ [name] := by
  rw [join_of_plain hn, leading]
  split
  · rw [parts_of_plain hn, List.nil_append]
  · split
    next hl =>
      -- A path that ends in a slash has an empty last part, which the name takes the place of.
      obtain ⟨cs, hcs⟩ := List.getLast?_eq_some_iff.mp hl
      rw [parts, parts, String.toList_append, hcs, List.append_assoc, List.singleton_append,
        parts_of_slash hn, List.splitOn_append_cons_self, List.splitOn_nil, List.map_append,
        List.map_singleton, List.dropLast_concat]
    next =>
      rw [parts, parts, String.toList_append, String.toList_append, List.append_assoc]
      exact parts_of_slash hn p.text.toList

/-- A joined path starts where the directory does. -/
theorem isAbsolute_join {name : String} (hn : IsPlainName name) (p : Path) :
    (p.join name).isAbsolute = p.isAbsolute := by
  rw [join_of_plain hn]
  split
  next he =>
    rw [isAbsolute_of_plain hn, isAbsolute, isEmpty_iff.mp he]
    rfl
  next he =>
    have hne : p.text.toList ≠ [] := fun h => he (isEmpty_iff.mpr h)
    obtain ⟨c, cs, hcs⟩ := List.exists_cons_of_ne_nil hne
    split <;> simp [isAbsolute, hcs]

/-- A joined path has at least the characters of the name. -/
theorem isEmpty_join {name : String} (hn : IsPlainName name) (p : Path) :
    (p.join name).isEmpty = false := by
  have hne : name.toList ≠ [] := fun h => hn.ne_empty (String.toList_eq_nil_iff.mp h)
  rw [← Bool.not_eq_true, isEmpty_iff, join_of_plain hn]
  split
  · exact hne
  · split <;> simp [hne]

end Path

namespace Store

/-! ### Walks -/

/-- A walk over names and one plain name more comes to the route of the names, where there is a
directory, and goes one level down. -/
theorem walk_concat {s : Store} {name : String} (hn : IsPlainName name) (names : List String)
    (a r : Route) :
    s.walk a (names ++ [name]) = .ok r ↔
      ∃ b, s.walk a names = .ok b ∧ s.node? b = some .directory ∧ r = b ++ [name] := by
  -- The first name decides where the rest of the walk starts, so the induction is over all starts.
  induction names generalizing a with
  | nil =>
    rw [List.nil_append, walk]
    cases hnode : s.node? a with
    | none => simp [walk, hnode]
    | some n =>
      cases n with
      | file c => simp [walk, hnode]
      | directory =>
        simp only [hnode, hn.ne_empty, hn.ne_dot, hn.ne_dots, or_self, if_false,
          Nat.not_lt.mpr hn.size_le, walk, Except.ok.injEq]
        constructor
        · rintro rfl
          exact ⟨a, rfl, hnode, rfl⟩
        · rintro ⟨b, rfl, -, rfl⟩
          rfl
  | cons part rest ih =>
    rw [List.cons_append, walk, walk]
    cases hnode : s.node? a with
    | none => simp
    | some n =>
      cases n with
      | file c => simp
      | directory =>
        simp only
        split
        · exact ih a
        · split
          · exact ih a.dropLast
          · split
            · simp
            · exact ih (a ++ [part])

/-! ### Directories -/

/-- The route of the directory in which a path looks up a name that is joined to it. -/
def folder (s : Store) (d : Path) : Except Refusal Route :=
  s.walk (if d.isAbsolute then [] else s.current) d.leading

/-- The path `d` leads to the route `b`, and there is a directory. -/
structure Opens (s : Store) (d : Path) (b : Route) : Prop where
  /-- The path leads there. -/
  folder_eq : s.folder d = .ok b
  /-- There is a directory. -/
  node?_eq : s.node? b = some .directory

theorem Opens.unique {s : Store} {d : Path} {b b' : Route} (h : s.Opens d b) (h' : s.Opens d b') :
    b = b' := by
  have := h.folder_eq.symm.trans h'.folder_eq
  exact Except.ok.inj this

/-- The route of a path that the file system takes and that is not empty. -/
theorem route_of_acceptable {s : Store} {p : Path} (hp : p.Acceptable) (he : p.isEmpty = false) :
    s.route p = s.walk (if p.isAbsolute then [] else s.current) p.parts := by
  rw [route, follow, he, hp.nul_not_mem]
  simp only [Bool.false_eq_true, if_false, Nat.not_le.mpr hp.size_lt]

/-- A path that leads somewhere is one that the file system takes. -/
theorem acceptable_of_route {s : Store} {p : Path} {r : Route} (h : s.route p = .ok r) :
    p.Acceptable := by
  rw [route, follow] at h
  split at h
  · simp at h
  · split at h
    · simp at h
    next hnul =>
      split at h
      · simp at h
      next hsize => exact ⟨by simpa using hnul, Nat.not_le.mp hsize⟩

/-- **The route of a joined path**: the file system takes the path, the directory is there, and the
name stands in it. -/
theorem route_join {s : Store} {d : Path} {name : String} (hn : IsPlainName name) {r : Route} :
    s.route (d.join name) = .ok r ↔
      (d.join name).Acceptable ∧ ∃ b, s.Opens d b ∧ r = b ++ [name] := by
  constructor
  · intro h
    have ha := acceptable_of_route h
    rw [route_of_acceptable ha (Path.isEmpty_join hn d), Path.parts_join hn,
      Path.isAbsolute_join hn, walk_concat hn] at h
    obtain ⟨b, hwalk, hnode, rfl⟩ := h
    exact ⟨ha, b, ⟨hwalk, hnode⟩, rfl⟩
  · rintro ⟨ha, b, hb, rfl⟩
    rw [route_of_acceptable ha (Path.isEmpty_join hn d), Path.parts_join hn,
      Path.isAbsolute_join hn, walk_concat hn]
    exact ⟨b, hb.folder_eq, hb.node?_eq, rfl⟩

/-! ### Stores that keep directories -/

/-- A store with the same current directory that has a directory wherever the other one has one. -/
structure KeepsDirectories (s t : Store) : Prop where
  /-- The current directory is the same. -/
  current_eq : t.current = s.current
  /-- The directories are still there. -/
  node?_eq : ∀ r, s.node? r = some .directory → t.node? r = some .directory

/-- A walk that comes somewhere passes directories only, so it comes to the same place in a store
that has kept them. -/
theorem KeepsDirectories.walk {s t : Store} (h : s.KeepsDirectories t) {a r : Route}
    {names : List String} (hw : s.walk a names = .ok r) : t.walk a names = .ok r := by
  -- The induction is on the names that are still to be followed, with the place reached so far left
  -- open.
  induction names generalizing a with
  | nil => exact hw
  | cons name rest ih =>
    rw [Store.walk] at hw
    cases hnode : s.node? a with
    | none => simp [hnode] at hw
    | some n =>
      cases n with
      | file c => simp [hnode] at hw
      | directory =>
        rw [Store.walk, h.node?_eq a hnode]
        rw [hnode] at hw
        simp only at hw ⊢
        split at hw
        -- The four kinds of names are told apart without the store, so both walks take the same
        -- step.
        next hc => rw [if_pos hc]; exact ih hw
        next hc =>
          rw [if_neg hc]
          split at hw
          next hd => rw [if_pos hd]; exact ih hw
          next hd =>
            rw [if_neg hd]
            split at hw
            · simp at hw
            next hl => rw [if_neg hl]; exact ih hw

/-- A path that leads somewhere leads to the same place in a store that has kept the directories. -/
theorem KeepsDirectories.route {s t : Store} (h : s.KeepsDirectories t) {p : Path} {r : Route}
    (hr : s.route p = .ok r) : t.route p = .ok r := by
  -- Whether a path is refused outright does not depend on the store.
  have ha := acceptable_of_route hr
  have he : p.isEmpty = false := by
    rw [← Bool.not_eq_true]
    intro he
    simp [Store.route, follow, he] at hr
  rw [route_of_acceptable ha he] at hr ⊢
  rw [h.current_eq]
  exact h.walk hr

/-- A directory that has been kept opens at the same route. -/
theorem KeepsDirectories.opens {s t : Store} (h : s.KeepsDirectories t) {d : Path} {b : Route}
    (hb : s.Opens d b) : t.Opens d b := by
  refine ⟨?_, h.node?_eq b hb.node?_eq⟩
  rw [folder, h.current_eq]
  exact h.walk hb.folder_eq

/-! ### Stores with the same directories -/

/-- Two stores with the same current directory and with directories at the same routes. -/
structure SameDirectories (s t : Store) : Prop where
  /-- The current directory is the same. -/
  current_eq : t.current = s.current
  /-- There is a directory in the one where there is one in the other. -/
  node?_iff : ∀ r, t.node? r = some .directory ↔ s.node? r = some .directory

/-- It does not matter which store is the later one. -/
theorem SameDirectories.symm {s t : Store} (h : s.SameDirectories t) : t.SameDirectories s :=
  ⟨h.current_eq.symm, fun r => (h.node?_iff r).symm⟩

theorem SameDirectories.trans {s t u : Store} (h : s.SameDirectories t) (h' : t.SameDirectories u) :
    s.SameDirectories u :=
  ⟨h'.current_eq.trans h.current_eq, fun r => (h'.node?_iff r).trans (h.node?_iff r)⟩

/-- What is said of stores that keep directories holds for them in particular. -/
theorem SameDirectories.keeps {s t : Store} (h : s.SameDirectories t) : s.KeepsDirectories t :=
  ⟨h.current_eq, fun r => (h.node?_iff r).mpr⟩

theorem SameDirectories.route {s t : Store} (h : s.SameDirectories t) {p : Path} {r : Route}
    (hr : s.route p = .ok r) : t.route p = .ok r :=
  h.keeps.route hr

theorem SameDirectories.opens {s t : Store} (h : s.SameDirectories t) {d : Path} {b : Route}
    (hb : s.Opens d b) : t.Opens d b :=
  h.keeps.opens hb

/-- A file that is put where there is no directory keeps the directories. -/
theorem sameDirectories_put {s : Store} {r : Route} {c : ByteArray}
    (h : s.node? r ≠ some .directory) : s.SameDirectories (s.put r (.file c)) := by
  -- A directory stands at the root, always.
  have hr : r ≠ [] := by
    rintro rfl
    exact h (node?_nil s)
  refine ⟨rfl, fun q => ?_⟩
  by_cases hq : q = r
  · subst hq
    rw [node?_put_self hr]
    simp [h]
  · rw [node?_put_ne hq]

/-! ### Reading and writing -/

/-- Writing puts a file at the route of the path, unless a directory stands there. -/
theorem write_eq_ok {s t : Store} {p : Path} {c : ByteArray} :
    s.write p c = .ok t ↔
      ∃ r, s.route p = .ok r ∧ s.node? r ≠ some .directory ∧ t = s.put r (.file c) := by
  rw [write]
  cases hr : s.route p with
  | error e => simp [bind, Except.bind]
  | ok r =>
    simp only [bind, Except.bind, Except.ok.injEq, exists_eq_left']
    split
    next hd => simp [hd]
    next hd =>
      rw [Except.ok.injEq]
      exact ⟨fun h => ⟨fun h' => hd h', h.symm⟩, fun h => h.2.symm⟩

/-- Reading gives the file at the route of the path. -/
theorem read_eq_ok {s : Store} {p : Path} {c : ByteArray} :
    s.read p = .ok c ↔ ∃ r, s.route p = .ok r ∧ s.node? r = some (.file c) := by
  rw [read]
  cases hr : s.route p with
  | error e => simp [bind, Except.bind]
  | ok r =>
    simp only [bind, Except.bind, Except.ok.injEq, exists_eq_left']
    cases s.node? r with
    | none => simp
    | some n => cases n <;> simp

/-- What has been written is read. -/
theorem read_of_write {s t : Store} {p : Path} {c : ByteArray} (h : s.write p c = .ok t) :
    t.read p = .ok c := by
  obtain ⟨r, hr, hd, rfl⟩ := write_eq_ok.mp h
  -- Nothing can be put at the root, so the file is at another route.
  have hne : r ≠ [] := by
    rintro rfl
    exact hd (node?_nil s)
  exact read_eq_ok.mpr ⟨r, (sameDirectories_put hd).route hr, node?_put_self hne⟩

/-- A file at another route is read as before when a file is written. -/
theorem read_of_write_ne {s t : Store} {p p' : Path} {r r' : Route} {c c' : ByteArray}
    (h : s.write p c = .ok t) (hr : s.route p = .ok r) (hr' : s.route p' = .ok r') (hne : r' ≠ r)
    (hread : s.read p' = .ok c') : t.read p' = .ok c' := by
  obtain ⟨q, hq, hd, rfl⟩ := write_eq_ok.mp h
  obtain rfl := Except.ok.inj (hr.symm.trans hq)
  obtain ⟨q', hq', hnode⟩ := read_eq_ok.mp hread
  obtain rfl := Except.ok.inj (hr'.symm.trans hq')
  refine read_eq_ok.mpr ⟨r', (sameDirectories_put hd).route hr', ?_⟩
  rw [node?_put_ne hne, hnode]

end Store

end PinnedBench
