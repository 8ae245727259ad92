import PinnedBench.Proofs.Files.Changes

/-!
# Stores whose machine goes down

An `Outage` is a store on a machine that goes down after so many changes. The change that is under
way at that moment is not made, or it is the writing of a file, which may have left a first part of
the bytes in the file. Nothing is changed from then on, and what is asked for is refused, so a
program that runs there leaves the files of a program that has been stopped at that moment.

What a write has done when it is over is told by `Outage.runOn_writeFile_cases`. Which files stand
in a directory after an outage among several writes is told by `Torn`: the first few, and possibly a
part of the next one.
-/

namespace PinnedBench

/-- A store on a machine that goes down. -/
structure Outage where
  /-- The files. -/
  store : Store
  /-- How many more changes are made before the machine goes down; nothing when it is down. -/
  supply : Option Nat
  /-- How many bytes of the file that is being written then are left in it; nothing if the file is
  as it was. -/
  cut : Option Nat

namespace Outage

/-- The reason for what is refused when the machine goes down. -/
def down : Refusal := .other "the machine went down"

/-- The files that a write leaves behind when the machine goes down. -/
def torn (s : Store) (p : Path) (content : ByteArray) : Option Nat → Store
  | none => s
  | some n =>
    match s.write p (content.extract 0 n) with
    | .ok t => t
    | .error _ => s

/-- Makes a change, if the machine does not go down; `broken` are the files that are left if it does
so now. -/
def change (change : Store → Except Refusal Store) (broken : Outage → Store) :
    StateM Outage (Except Refusal Unit) := fun m =>
  match m.supply with
  | none => (.error down, m)
  | some 0 => (.error down, { m with store := broken m, supply := none })
  | some (k + 1) =>
    match change m.store with
    | .ok s => (.ok (), { m with store := s, supply := some k })
    | .error e => (.error e, m)

instance : Files (StateM Outage) where
  present p m := (m.store.present p, m)
  read p m := (m.store.read p, m)
  write p content := change (·.write p content) fun m => torn m.store p content m.cut
  makeDirectories p := change (·.makeDirectories p) (·.store)

/-- Asking whether there is something goes on when the machine is down, as it changes nothing. -/
theorem runOn_present {ε : Type} (p : Path) (m : Outage) :
    runOn (ExceptT.lift (Files.present p) : ExceptT ε (StateM Outage) Bool) m =
      (.ok (m.store.present p), m) := rfl

/-- A file that is left torn holds a first part of the bytes, or is as it was. -/
theorem torn_cases (s : Store) (p : Path) (content : ByteArray) (cut : Option Nat) :
    torn s p content cut = s ∨
      ∃ n, s.write p (content.extract 0 n) = .ok (torn s p content cut) := by
  -- Without a cut nothing has reached the file; with one, the store may refuse the first part too.
  cases cut with
  | none => exact .inl rfl
  | some n =>
    rw [torn]
    cases hwrite : s.write p (content.extract 0 n) with
    | ok t => exact .inr ⟨n, hwrite⟩
    | error e => exact .inl rfl

/-- A change has been made; or it has been refused, and the files are as they were or those that are
left when the machine goes down. -/
theorem change_cases (f : Store → Except Refusal Store) (broken : Outage → Store) (m : Outage) :
    (∃ m', change f broken m = (.ok (), m') ∧ f m.store = .ok m'.store) ∨
      ∃ e m', change f broken m = (.error e, m') ∧
        (m'.store = m.store ∨ m'.store = broken m) := by
  rw [change]
  -- The machine is down, goes down now, or stays up for this change.
  match m.supply with
  | none => exact .inr ⟨_, _, rfl, .inl rfl⟩
  -- This is the only case in which torn files can be left.
  | some 0 => exact .inr ⟨_, _, rfl, .inr rfl⟩
  | some (k + 1) =>
    -- While the machine is up, a change that the store refuses leaves everything as it was.
    cases hchange : f m.store with
    | ok s => exact .inl ⟨_, rfl, rfl⟩
    | error e => exact .inr ⟨_, _, rfl, .inl rfl⟩

/-- Writing a file is a change with a torn file as what may be left. -/
theorem runOn_writeFile_eq (p : Path) (content : ByteArray) (m : Outage) :
    runOn (writeFile p content) m =
      ((change (·.write p content) (fun m => torn m.store p content m.cut) m).1.mapError
          Refusal.onWrite,
        (change (·.write p content) (fun m => torn m.store p content m.cut) m).2) := rfl

/-- Making directories is a change that is made or is not. -/
theorem runOn_makeDirectories_eq (p : Path) (m : Outage) :
    runOn (makeDirectories p) m =
      ((change (·.makeDirectories p) (·.store) m).1.mapError Refusal.onWrite,
        (change (·.makeDirectories p) (·.store) m).2) := rfl

/-- **Writing a file** on a machine that may go down: the file has been written; or the step has
failed, and the files are as they were or a first part of the bytes stands in the file. -/
theorem runOn_writeFile_cases (p : Path) (content : ByteArray) (m : Outage) :
    (∃ m', runOn (writeFile p content) m = (.ok (), m') ∧
        m.store.write p content = .ok m'.store) ∨
      ∃ fault m', runOn (writeFile p content) m = (.error fault, m') ∧
        (m'.store = m.store ∨ ∃ n, m.store.write p (content.extract 0 n) = .ok m'.store) := by
  rw [runOn_writeFile_eq]
  -- What a change does in general, with the torn file as what may be left of it.
  rcases change_cases (·.write p content) (fun m => torn m.store p content m.cut) m with
    ⟨m', hchange, hwrite⟩ | ⟨e, m', hchange, hstore⟩
  · rw [hchange]
    exact .inl ⟨m', rfl, hwrite⟩
  · rw [hchange]
    refine .inr ⟨_, m', rfl, ?_⟩
    -- Torn files come of a cut, or are no other than the files before.
    rcases hstore with hsame | hbroken
    · exact .inl hsame
    · rw [hbroken]
      exact torn_cases m.store p content m.cut

/-- Making directories on a machine that may go down: they have been made, or the step has failed
and the files are as they were. -/
theorem runOn_makeDirectories_cases (p : Path) (m : Outage) :
    (∃ m', runOn (makeDirectories p) m = (.ok (), m') ∧
        m.store.makeDirectories p = .ok m'.store) ∨
      ∃ fault m', runOn (makeDirectories p) m = (.error fault, m') ∧ m'.store = m.store := by
  rw [runOn_makeDirectories_eq]
  rcases change_cases (·.makeDirectories p) (·.store) m with
    ⟨m', hchange, hmake⟩ | ⟨e, m', hchange, hstore⟩
  · rw [hchange]
    exact .inl ⟨m', rfl, hmake⟩
  · rw [hchange]
    -- A directory is not torn: either way the files are as they were.
    exact .inr ⟨_, m', rfl, hstore.elim id id⟩

/-! ### Machines that stay up -/

/-- A machine that stays up long enough writes a file as a store does. -/
theorem runOn_writeFile_of_supply {p : Path} {content : ByteArray} {s t : Store}
    (h : runOn (writeFile p content) s = (.ok (), t)) (k : Nat) (cut : Option Nat) :
    runOn (writeFile p content) (Outage.mk s (some (k + 1)) cut) =
      (.ok (), Outage.mk t (some k) cut) := by
  -- The store takes the bytes, and with a change in supply nothing else is asked for.
  obtain ⟨t', hwrite, rfl⟩ := runOn_writeFile_eq_ok.mp h
  rw [store_self] at hwrite
  rw [runOn_writeFile_eq, change]
  simp only [hwrite]
  rfl

/-- A machine that stays up long enough makes directories as a store does. -/
theorem runOn_makeDirectories_of_supply {p : Path} {s t : Store}
    (h : runOn (makeDirectories p) s = (.ok (), t)) (k : Nat) (cut : Option Nat) :
    runOn (makeDirectories p) (Outage.mk s (some (k + 1)) cut) =
      (.ok (), Outage.mk t (some k) cut) := by
  obtain ⟨t', hmake, rfl⟩ := runOn_makeDirectories_eq_ok.mp h
  rw [store_self] at hmake
  rw [runOn_makeDirectories_eq, change]
  simp only [hmake]
  rfl

end Outage

/-- The files that stand in a directory when writing `files` has been stopped. -/
inductive Torn : List (String × ByteArray) → List (String × ByteArray) → Prop
  /-- The first of them has not been touched. -/
  | none (files) : Torn [] files
  /-- A first part of the bytes stands in the first of them. -/
  | cut (name content n rest) : Torn [(name, content.extract 0 n)] ((name, content) :: rest)
  /-- The first of them is complete. -/
  | cons (e) {written rest} : Torn written rest → Torn (e :: written) (e :: rest)

/-- More files might have been written, had the machine not gone down. -/
theorem Torn.append {written files : List (String × ByteArray)} (h : Torn written files)
    (others : List (String × ByteArray)) : Torn written (files ++ others) := by
  -- Each constructor looks at the front only, so it is the one for the longer list.
  induction h with
  | none files => exact .none _
  | cut name content n rest => exact .cut name content n (rest ++ others)
  | cons e _ ih => exact .cons e ih

/-- The files that stand there are the first ones, under their names. -/
theorem Torn.map_fst_sublist {written files : List (String × ByteArray)} (h : Torn written files) :
    (written.map (·.1)).Sublist (files.map (·.1)) := by
  induction h with
  | none files => exact List.nil_sublist _
  | cut name content n rest => exact (List.nil_sublist _).cons_cons name
  | cons e _ ih => exact ih.cons_cons e.1

end PinnedBench
