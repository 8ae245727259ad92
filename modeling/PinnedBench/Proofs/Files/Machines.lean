import Mathlib.Data.List.Forall2
import PinnedBench.Machine.Workbench
import PinnedBench.Proofs.Outcomes

/-!
# Machines that keep their files in a store

A step of this library is a program over any machine that has the operations of `Files`. Here it is
read over the machines that keep their files in a `Store`: a bare store, and a workbench. `runOn` is
what a step comes to on such a machine, together with the machine that it leaves, and every
operation on files is told by what it does to the store (`runOn_readText`, `runOn_writeFile`,
`runOn_makeDirectories`, `runOn_present`).

A step that is made of steps is taken apart by `runOn_bind` and, when it is known to succeed, by
`runOn_bind_eq_ok`. What is known of a step for every item and every machine is known of a list of
items (`forall₂_mapM`).
-/

namespace PinnedBench

/-- What a step comes to on a machine, and the machine that it leaves. -/
def runOn {σ ε α : Type} (step : ExceptT ε (StateM σ) α) (m : σ) : Except ε α × σ :=
  step.run.run m

section Steps

variable {σ ε δ α β : Type}

/-! ### Steps made of steps -/

@[simp]
theorem runOn_pure (a : α) (m : σ) :
    runOn (pure a : ExceptT ε (StateM σ) α) m = (.ok a, m) := rfl

@[simp]
theorem runOn_throw (e : ε) (m : σ) :
    runOn (throw e : ExceptT ε (StateM σ) α) m = (.error e, m) := rfl

/-- A step behind another one runs on the machine that the first one leaves, and does not run at all
if the first one fails. -/
theorem runOn_bind (x : ExceptT ε (StateM σ) α) (f : α → ExceptT ε (StateM σ) β) (m : σ) :
    runOn (x >>= f) m =
      match runOn x m with
      | (.ok a, m') => runOn (f a) m'
      | (.error e, m') => (.error e, m') := by
  -- The bind of `ExceptT` is that of the state underneath, followed by a look at the outcome.
  change (match x.run.run m with | (r, m') => (ExceptT.bindCont f r).run m') = _
  rcases h : x.run.run m with ⟨r, m'⟩
  rw [runOn, h]
  cases r <;> rfl

theorem runOn_bind_of_ok {x : ExceptT ε (StateM σ) α} {f : α → ExceptT ε (StateM σ) β} {m m' : σ}
    {a : α} (h : runOn x m = (.ok a, m')) : runOn (x >>= f) m = runOn (f a) m' := by
  rw [runOn_bind, h]

/-- Steps in a row succeed exactly when each of them does. -/
theorem runOn_bind_eq_ok {x : ExceptT ε (StateM σ) α} {f : α → ExceptT ε (StateM σ) β}
    {m m'' : σ} {b : β} :
    runOn (x >>= f) m = (.ok b, m'') ↔
      ∃ a m', runOn x m = (.ok a, m') ∧ runOn (f a) m' = (.ok b, m'') := by
  rw [runOn_bind]
  rcases h : runOn x m with ⟨r, m'⟩
  cases r with
  | ok a =>
    constructor
    · -- The first step has succeeded, so the outcome is that of the second one.
      exact fun h' => ⟨a, m', rfl, h'⟩
    · rintro ⟨_, _, h1, h2⟩
      obtain ⟨h3, rfl⟩ := Prod.mk.inj h1
      cases h3
      exact h2
  | error e =>
    constructor
    · -- A first step that fails is all there is, so nothing can have come of the second one.
      intro h'
      simp at h'
    · rintro ⟨_, _, h1, -⟩
      simp at h1

/-- An operation of the machine, taken as a step, cannot fail. -/
@[simp]
theorem runOn_lift (x : StateM σ α) (m : σ) :
    runOn (ExceptT.lift x : ExceptT ε (StateM σ) α) m = (.ok (x m).1, (x m).2) := rfl

/-- Items that are worked on one after the other come to what each of them comes to, on whatever
machine it is worked on. -/
theorem forall₂_mapM {f : α → StateM σ β} {R : α → β → Prop} (h : ∀ a m, R a (f a m).1)
    (as : List α) (m : σ) : List.Forall₂ R as ((as.mapM f : StateM σ (List β)) m).1 := by
  -- The rest of the items runs on the machine that the first one leaves, so the machine is general.
  induction as generalizing m with
  | nil => exact .nil
  | cons a as ih =>
    rw [List.mapM_cons]
    exact .cons (h a m) (ih (f a m).2)

/-- Renaming the faults of a step changes its outcome only. -/
theorem runOn_adapt (f : ε → δ) (x : ExceptT ε (StateM σ) α) (m : σ) :
    runOn (ExceptT.adapt f x) m = ((runOn x m).1.mapError f, (runOn x m).2) := rfl

/-- A step succeeds in the same way when its faults are renamed. -/
theorem runOn_adapt_eq_ok {f : ε → δ} {x : ExceptT ε (StateM σ) α} {m m' : σ} {a : α} :
    runOn (ExceptT.adapt f x) m = (.ok a, m') ↔ runOn x m = (.ok a, m') := by
  rw [runOn_adapt, Prod.mk.injEq, mapError_eq_ok, ← Prod.mk.injEq]

/-- A check looks at a value and leaves the machine as it is. -/
@[simp]
theorem runOn_checked (fault : ε → Fault) (outcome : Except ε α) (m : σ) :
    runOn (checked fault outcome : ExceptT Fault (StateM σ) α) m =
      (outcome.mapError fault, m) := rfl

/-- A check that succeeds changes nothing. -/
theorem runOn_checked_eq_ok {fault : ε → Fault} {outcome : Except ε α} {m m' : σ} {a : α} :
    runOn (checked fault outcome : ExceptT Fault (StateM σ) α) m = (.ok a, m') ↔
      outcome = .ok a ∧ m' = m := by
  rw [runOn_checked, Prod.mk.injEq, mapError_eq_ok, eq_comm (a := m)]

end Steps

/-! ### Machines -/

/-- A machine whose files are held in a store. -/
class StoreMachine (σ : Type) [Files (StateM σ)] where
  /-- The files. -/
  store : σ → Store
  /-- The machine with other files. -/
  withStore : σ → Store → σ
  /-- The other files are there. -/
  store_withStore : ∀ m s, store (withStore m s) = s
  /-- Nothing else is changed. -/
  withStore_withStore : ∀ m s t, withStore (withStore m s) t = withStore m t
  /-- A machine with its own files is the same machine. -/
  withStore_store : ∀ m, withStore m (store m) = m
  /-- Asking whether there is something asks the store. -/
  run_present : ∀ p m, (Files.present p : StateM σ Bool) m = ((store m).present p, m)
  /-- Reading reads the store. -/
  run_read : ∀ p m,
    (Files.read p : StateM σ (Except Refusal ByteArray)) m = ((store m).read p, m)
  /-- Writing writes the store, and does nothing when it is refused. -/
  run_write : ∀ p c m, (Files.write p c : StateM σ (Except Refusal Unit)) m =
    match (store m).write p c with
    | .ok s => (.ok (), withStore m s)
    | .error e => (.error e, m)
  /-- Making directories makes them in the store, and does nothing when it is refused. -/
  run_makeDirectories : ∀ p m, (Files.makeDirectories p : StateM σ (Except Refusal Unit)) m =
    match (store m).makeDirectories p with
    | .ok s => (.ok (), withStore m s)
    | .error e => (.error e, m)

instance : StoreMachine Store where
  store s := s
  withStore _ s := s
  store_withStore _ _ := rfl
  withStore_withStore _ _ _ := rfl
  withStore_store _ := rfl
  run_present _ _ := rfl
  run_read _ _ := rfl
  run_write _ _ _ := rfl
  run_makeDirectories _ _ := rfl

instance : StoreMachine Workbench where
  store w := w.store
  withStore w s := { w with store := s }
  store_withStore _ _ := rfl
  withStore_withStore _ _ _ := rfl
  withStore_store _ := rfl
  run_present _ _ := rfl
  run_read _ _ := rfl
  run_write p c w := by
    change Workbench.onStore (Files.write p c) w = _
    rw [Workbench.onStore]
    change (match (match w.store.write p c with
      | .ok s' => ((.ok (), s') : Except Refusal Unit × Store)
      | .error e => (.error e, w.store)) with | (a, s) => (a, { w with store := s })) = _
    cases w.store.write p c <;> rfl
  run_makeDirectories p w := by
    change Workbench.onStore (Files.makeDirectories p) w = _
    rw [Workbench.onStore]
    change (match (match w.store.makeDirectories p with
      | .ok s' => ((.ok (), s') : Except Refusal Unit × Store)
      | .error e => (.error e, w.store)) with | (a, s) => (a, { w with store := s })) = _
    cases w.store.makeDirectories p <;> rfl

export StoreMachine (store withStore)

attribute [simp] StoreMachine.store_withStore StoreMachine.withStore_withStore
  StoreMachine.withStore_store

/-- A bare store is its own files. -/
@[simp]
theorem store_self (s : Store) : store s = s := rfl

/-- A bare store with other files is those files. -/
@[simp]
theorem withStore_self (s t : Store) : withStore s t = t := rfl

@[simp]
theorem store_workbench (w : Workbench) : store w = w.store := rfl

/-- A workbench with other files differs in nothing else. -/
@[simp]
theorem withStore_workbench (w : Workbench) (s : Store) : withStore w s = { w with store := s } :=
  rfl

/-- A workbench with these files, on which nothing has been printed yet and no time passes. -/
def Workbench.ofStore (s : Store) : Workbench where
  store := s
  printed := ""
  remarks := ""
  passing _ := default
  samples := []
  stamp := ⟨⟨0, 0⟩, ⟨"host", "Linux", "kernel", "processor"⟩, none⟩

/-! ### Operations on files -/

section Operations

variable {σ : Type} [Files (StateM σ)] [StoreMachine σ]

/-- Asking whether there is something at a path. -/
theorem runOn_present {ε : Type} (p : Path) (m : σ) :
    runOn (ExceptT.lift (Files.present p) : ExceptT ε (StateM σ) Bool) m =
      (.ok ((store m).present p), m) := by
  rw [runOn_lift, StoreMachine.run_present]

theorem runOn_read {ε : Type} (p : Path) (m : σ) :
    runOn (ExceptT.lift (Files.read p) : ExceptT ε (StateM σ) (Except Refusal ByteArray)) m =
      (.ok ((store m).read p), m) := by
  rw [runOn_lift, StoreMachine.run_read]

/-- Reading a text file. -/
theorem runOn_readText (p : Path) (m : σ) :
    runOn (readText p) m =
      (((store m).read p >>= textOfBytes).mapError (Refusal.onRead p), m) := by
  -- The text is made of what the machine reads, which the store tells.
  change (fun r : Except Refusal ByteArray × σ =>
    ((r.1 >>= textOfBytes).mapError (Refusal.onRead p), r.2))
      ((Files.read p : StateM σ (Except Refusal ByteArray)) m) = _
  rw [StoreMachine.run_read]

/-- A text file that is read. -/
theorem runOn_readText_eq_ok {p : Path} {text : String} {m m' : σ} :
    runOn (readText p) m = (.ok text, m') ↔
      (∃ bytes, (store m).read p = .ok bytes ∧ textOfBytes bytes = .ok text) ∧ m' = m := by
  rw [runOn_readText]
  -- The file cannot be read, or its bytes are a text or are not.
  cases (store m).read p with
  | error e => simp [bind, Except.bind]
  | ok bytes =>
    cases htext : textOfBytes bytes <;>
      simp [bind, Except.bind, htext, eq_comm]

/-- A text file that is read and checked: nothing is changed on the way. -/
theorem runOn_readText_checked_eq_ok {p : Path} {fault : ε → Fault} {read : String → Except ε α}
    {a : α} {m m' : σ} :
    runOn (readText p >>= fun text => checked fault (read text)) m = (.ok a, m') ↔
      (∃ bytes text, (store m).read p = .ok bytes ∧ textOfBytes bytes = .ok text ∧
        read text = .ok a) ∧ m' = m := by
  rw [runOn_bind_eq_ok]
  constructor
  · -- Neither the reading nor the check changes the machine, so `m₁` is both `m` and `m'`.
    rintro ⟨text, m₁, htext, hchecked⟩
    obtain ⟨⟨bytes, hread, hbytes⟩, rfl⟩ := runOn_readText_eq_ok.mp htext
    obtain ⟨ha, rfl⟩ := runOn_checked_eq_ok.mp hchecked
    exact ⟨⟨bytes, text, hread, hbytes, ha⟩, rfl⟩
  · rintro ⟨⟨bytes, text, hread, hbytes, ha⟩, rfl⟩
    exact ⟨text, m', runOn_readText_eq_ok.mpr ⟨⟨bytes, hread, hbytes⟩, rfl⟩,
      runOn_checked_eq_ok.mpr ⟨ha, rfl⟩⟩

/-- Writing a file. -/
theorem runOn_writeFile (p : Path) (c : ByteArray) (m : σ) :
    runOn (writeFile p c) m =
      match (store m).write p c with
      | .ok s => (.ok (), withStore m s)
      | .error e => (.error e.onWrite, m) := by
  -- A fault of the machine is a refusal that has been put as one of writing.
  change (fun r : Except Refusal Unit × σ => (r.1.mapError Refusal.onWrite, r.2))
    ((Files.write p c : StateM σ (Except Refusal Unit)) m) = _
  rw [StoreMachine.run_write]
  cases (store m).write p c <;> rfl

/-- A file has been written exactly when the store takes the bytes, and then only the files change.
-/
theorem runOn_writeFile_eq_ok {p : Path} {c : ByteArray} {m m' : σ} :
    runOn (writeFile p c) m = (.ok (), m') ↔
      ∃ s, (store m).write p c = .ok s ∧ m' = withStore m s := by
  rw [runOn_writeFile]
  cases (store m).write p c with
  | ok s => simp [eq_comm]
  | error e => simp

/-- Making directories. -/
theorem runOn_makeDirectories (p : Path) (m : σ) :
    runOn (makeDirectories p) m =
      match (store m).makeDirectories p with
      | .ok s => (.ok (), withStore m s)
      | .error e => (.error e.onWrite, m) := by
  change (fun r : Except Refusal Unit × σ => (r.1.mapError Refusal.onWrite, r.2))
    ((Files.makeDirectories p : StateM σ (Except Refusal Unit)) m) = _
  rw [StoreMachine.run_makeDirectories]
  cases (store m).makeDirectories p <;> rfl

/-- Directories have been made exactly when the store makes them, and then only the files change. -/
theorem runOn_makeDirectories_eq_ok {p : Path} {m m' : σ} :
    runOn (makeDirectories p) m = (.ok (), m') ↔
      ∃ s, (store m).makeDirectories p = .ok s ∧ m' = withStore m s := by
  rw [runOn_makeDirectories]
  cases (store m).makeDirectories p with
  | ok s => simp [eq_comm]
  | error e => simp

end Operations

end PinnedBench
