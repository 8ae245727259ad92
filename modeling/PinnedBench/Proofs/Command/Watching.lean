import PinnedBench.Proofs.Command.Steps

/-!
# Workbenches that are watched

A `Watched` workbench does what a workbench does, and notes whether a file or a directory has been
refused on the way. On it one can say of a command that nothing was wrong with the writing itself.

Three relations tell what a step does there, each between the step as it is taken on a watched
workbench and the same step on a plain one:

* `Reads` — the step leaves the files as they are, whether it succeeds or fails;
* `Writes` — the step fails only where a file or a directory is refused;
* `Traceless` — where the step fails and nothing has been refused, the files are as before.

Reading and then writing is traceless (`Reads.bind_traceless`, `Writes.traceless`): this is the
order in which commands do things. In all three the plain step comes to what the watched one comes
to, so watching changes nothing (`Mirrors`).
-/

namespace PinnedBench

/-- A workbench on which it is noted whether a file or a directory has been refused. -/
structure Watched where
  /-- The workbench. -/
  machine : Workbench
  /-- Whether a file or a directory has been refused. -/
  refused : Bool

namespace Watched

/-- A workbench on which nothing has been refused yet. -/
def of (w : Workbench) : Watched := ⟨w, false⟩

/-- Takes a step without a note. -/
def plain {α : Type} (step : StateM Workbench α) : StateM Watched α := fun w =>
  ((step w.machine).1, ⟨(step w.machine).2, w.refused⟩)

/-- Takes a step and notes whether it is refused. -/
def noting (step : StateM Workbench (Except Refusal Unit)) :
    StateM Watched (Except Refusal Unit) := fun w =>
  ((step w.machine).1, ⟨(step w.machine).2, w.refused || !(step w.machine).1.isOk⟩)

instance : Files (StateM Watched) where
  present p := plain (Files.present p)
  read p := plain (Files.read p)
  write p content := noting (Files.write p content)
  makeDirectories p := noting (Files.makeDirectories p)

instance : Host (StateM Watched) where
  settle milliseconds := plain (Host.settle milliseconds)
  observe work := plain (Host.observe work)
  stamp := plain Host.stamp

instance : Console (StateM Watched) where
  print text := plain (Console.print text)
  remark text := plain (Console.remark text)

end Watched

variable {ε δ α β : Type}

/-! ### Steps that cannot fail -/

/-- A step that cannot fail comes to the same on a watched workbench and on the workbench, and
neither leaves another file nor another note. -/
structure Keeps (x : StateM Watched α) (y : StateM Workbench α) : Prop where
  /-- It comes to the same. -/
  mirrors : ∀ w, y w.machine = ((x w).1, (x w).2.machine)
  /-- The files are the same. -/
  store_eq : ∀ w, (x w).2.machine.store = w.machine.store
  /-- The note is the same. -/
  refused_eq : ∀ w, (x w).2.refused = w.refused

/-- A step that only gives a value touches neither the files nor the note. -/
theorem keeps_pure (a : α) : Keeps (pure a) (pure a) := ⟨fun _ => rfl, fun _ => rfl, fun _ => rfl⟩

/-- A step that keeps the files of a workbench, taken without a note. -/
theorem keeps_plain {step : StateM Workbench α} (h : ∀ w, (step w).2.store = w.store) :
    Keeps (Watched.plain step) step :=
  ⟨fun _ => rfl, fun w => h w.machine, fun _ => rfl⟩

/-- Two steps that keep the files keep them one after the other, and what the second one does may
depend on what the first one has come to. -/
theorem Keeps.bind {x : StateM Watched α} {y : StateM Workbench α} {f : α → StateM Watched β}
    {g : α → StateM Workbench β} (h : Keeps x y) (hf : ∀ a, Keeps (f a) (g a)) :
    Keeps (x >>= f) (y >>= g) where
  mirrors w := by
    -- Both sides go on with the outcome of the first step, so that one is rewritten first.
    change g (y w.machine).1 (y w.machine).2 = _
    rw [h.mirrors w]
    exact (hf _).mirrors _
  store_eq w := ((hf _).store_eq _).trans (h.store_eq w)
  refused_eq w := ((hf _).refused_eq _).trans (h.refused_eq w)

/-- A row of steps that keep the files, one for each item of a list. The induction is on the list,
whose steps are taken from the front. -/
theorem Keeps.mapM {f : α → StateM Watched β} {g : α → StateM Workbench β}
    (h : ∀ a, Keeps (f a) (g a)) (as : List α) : Keeps (as.mapM f) (as.mapM g) := by
  induction as with
  | nil => exact keeps_pure []
  | cons a as ih =>
    rw [List.mapM_cons, List.mapM_cons]
    exact (h a).bind fun b => ih.bind fun bs => keeps_pure (b :: bs)

/-! ### Steps that may fail -/

/-- The step comes to the same on a watched workbench and on the workbench. -/
def Mirrors (x : ExceptT ε (StateM Watched) α) (y : ExceptT ε (StateM Workbench) α) : Prop :=
  ∀ w, runOn y w.machine = ((runOn x w).1, (runOn x w).2.machine)

/-- The step leaves the files as they are, whether it succeeds or fails. -/
structure Reads (x : ExceptT ε (StateM Watched) α) (y : ExceptT ε (StateM Workbench) α) :
    Prop where
  /-- It comes to the same on the workbench. -/
  mirrors : Mirrors x y
  /-- The files are the same. -/
  store_eq : ∀ w, (runOn x w).2.machine.store = w.machine.store

/-- The step fails only where a file or a directory is refused. -/
structure Writes (x : ExceptT ε (StateM Watched) α) (y : ExceptT ε (StateM Workbench) α) :
    Prop where
  /-- It comes to the same on the workbench. -/
  mirrors : Mirrors x y
  /-- What has been noted stays noted. -/
  monotone : ∀ w, w.refused = true → (runOn x w).2.refused = true
  /-- Where it fails, something has been refused. -/
  refused_of_error : ∀ w e, (runOn x w).1 = .error e → (runOn x w).2.refused = true

/-- Where the step fails and nothing has been refused, the files are as before. -/
structure Traceless (x : ExceptT ε (StateM Watched) α) (y : ExceptT ε (StateM Workbench) α) :
    Prop where
  /-- It comes to the same on the workbench. -/
  mirrors : Mirrors x y
  /-- Where it fails and nothing has been refused, the files are as before. -/
  store_eq : ∀ w e, (runOn x w).1 = .error e → (runOn x w).2.refused = false →
    (runOn x w).2.machine.store = w.machine.store

section Bind

variable {x : ExceptT ε (StateM Watched) α} {y : ExceptT ε (StateM Workbench) α}
  {f : α → ExceptT ε (StateM Watched) β} {g : α → ExceptT ε (StateM Workbench) β}

/-- A row of steps comes to the same where each of them does. -/
theorem Mirrors.bind (h : Mirrors x y) (hf : ∀ a, Mirrors (f a) (g a)) :
    Mirrors (x >>= f) (y >>= g) := by
  intro w
  have hplain := h w
  rcases hrun : runOn x w with ⟨e | a, w'⟩ <;> rw [hrun] at hplain
  · rw [runOn_bind, runOn_bind, hplain, hrun]
  · rw [runOn_bind, runOn_bind, hplain, hrun]
    exact hf a w'

/-- Reading goes on where it has not failed, so a row of reading steps leaves the files as they are,
wherever it stops. -/
theorem Reads.bind (h : Reads x y) (hf : ∀ a, Reads (f a) (g a)) :
    Reads (x >>= f) (y >>= g) where
  mirrors := h.mirrors.bind fun a => (hf a).mirrors
  store_eq w := by
    have hstore := h.store_eq w
    -- If the first step fails, the second one is not taken.
    rcases hrun : runOn x w with ⟨e | a, w'⟩ <;> rw [hrun] at hstore <;> rw [runOn_bind, hrun]
    · exact hstore
    · exact ((hf a).store_eq w').trans hstore

/-- Of two steps that fail only where something is refused, either may be the one that fails. What
the first one has noted stays noted while the second one is taken, so the note is there in both
cases. -/
theorem Writes.bind (h : Writes x y) (hf : ∀ a, Writes (f a) (g a)) :
    Writes (x >>= f) (y >>= g) where
  mirrors := h.mirrors.bind fun a => (hf a).mirrors
  monotone w hw := by
    have hx := h.monotone w hw
    rw [runOn_bind]
    -- A note that was there before survives the first step, and then the second one.
    rcases hrun : runOn x w with ⟨e | a, w'⟩
    · rwa [hrun] at hx
    · rw [hrun] at hx
      exact (hf a).monotone w' hx
  refused_of_error w e he := by
    rw [runOn_bind] at he ⊢
    -- A failure is that of the first step, or that of the second one where the first has succeeded.
    rcases hrun : runOn x w with ⟨e' | a, w'⟩
    · have hx := h.refused_of_error w e' (by rw [hrun])
      rwa [hrun] at hx
    · rw [hrun] at he
      exact (hf a).refused_of_error w' e he

/-- Reading first keeps a step traceless. -/
theorem Reads.bind_traceless (h : Reads x y) (hf : ∀ a, Traceless (f a) (g a)) :
    Traceless (x >>= f) (y >>= g) where
  mirrors := h.mirrors.bind fun a => (hf a).mirrors
  store_eq w e he hrefused := by
    have hstore := h.store_eq w
    rw [runOn_bind] at he hrefused ⊢
    -- The files before the second step are those before the first one.
    rcases hrun : runOn x w with ⟨e' | a, w'⟩
    · rwa [hrun] at hstore
    · rw [hrun] at he hrefused hstore
      exact ((hf a).store_eq w' e he hrefused).trans hstore

/-- Steps may follow that succeed wherever the first one has succeeded. -/
theorem Traceless.bind_of_ok (h : Traceless x y) (hf : ∀ a, Mirrors (f a) (g a))
    (hok : ∀ w a w', runOn y w = (.ok a, w') → ∃ b w'', runOn (g a) w' = (.ok b, w'')) :
    Traceless (x >>= f) (y >>= g) where
  mirrors := h.mirrors.bind hf
  store_eq w e he hrefused := by
    rw [runOn_bind] at he hrefused ⊢
    rcases hrun : runOn x w with ⟨e' | a, w'⟩
    · -- A failure of the first step leaves no trace.
      have hx := h.store_eq w e' (by rw [hrun])
      rw [hrun] at hrefused hx
      exact hx hrefused
    · -- The steps behind it cannot be where the failure comes from: they have succeeded on the
      -- plain workbench, which comes to the same.
      rw [hrun] at he
      have hplain := h.mirrors w
      rw [hrun] at hplain
      obtain ⟨b, w'', hb⟩ := hok _ _ _ hplain
      have hsame := hf a w'
      rw [hb, he] at hsame
      exact absurd (Prod.mk.inj hsame).1 (by simp)

/-- What leaves the files as they are leaves no trace, whether something is refused or not. -/
theorem Reads.traceless (h : Reads x y) : Traceless x y :=
  ⟨h.mirrors, fun w _ _ _ => h.store_eq w⟩

/-- What fails only where something is refused leaves no trace for want of a case: it cannot fail
where nothing is. -/
theorem Writes.traceless (h : Writes x y) : Traceless x y where
  mirrors := h.mirrors
  store_eq w e he hrefused :=
    absurd ((h.refused_of_error w e he).symm.trans hrefused) (by simp)

/-- Telling the fault of a step in other words does not change what it does. -/
theorem Mirrors.adapt (φ : ε → δ) (h : Mirrors x y) :
    Mirrors (ExceptT.adapt φ x) (ExceptT.adapt φ y) := by
  intro w
  rw [runOn_adapt, runOn_adapt, h w]

/-- Reading is still reading when its fault is told in other words. -/
theorem Reads.adapt (φ : ε → δ) (h : Reads x y) : Reads (ExceptT.adapt φ x) (ExceptT.adapt φ y) :=
  ⟨h.mirrors.adapt φ, h.store_eq⟩

/-- A step that fails only where something is refused does so in other words, too. -/
theorem Writes.adapt (φ : ε → δ) (h : Writes x y) :
    Writes (ExceptT.adapt φ x) (ExceptT.adapt φ y) where
  mirrors := h.mirrors.adapt φ
  monotone := h.monotone
  refused_of_error w e he := by
    rw [runOn_adapt] at he
    rcases hrun : runOn x w with ⟨e' | a, w'⟩
    · exact h.refused_of_error w e' (by rw [hrun])
    · rw [hrun] at he
      simp at he

/-- A step without a trace has none in other words either. -/
theorem Traceless.adapt (φ : ε → δ) (h : Traceless x y) :
    Traceless (ExceptT.adapt φ x) (ExceptT.adapt φ y) where
  mirrors := h.mirrors.adapt φ
  store_eq w e he hrefused := by
    rw [runOn_adapt] at he
    rcases hrun : runOn x w with ⟨e' | a, w'⟩
    · -- The failure in other words is a failure of the step itself.
      have hx := h.store_eq w e' (by rw [hrun])
      rw [hrun] at hx
      rw [runOn_adapt, hrun] at hrefused ⊢
      exact hx hrefused
    · rw [hrun] at he
      simp at he

end Bind

/-! ### The steps of commands -/

/-- A step that cannot fail reads, as a step among those that may. -/
theorem Keeps.lift {x : StateM Watched α} {y : StateM Workbench α} (h : Keeps x y) :
    Reads (ExceptT.lift x : ExceptT ε (StateM Watched) α) (ExceptT.lift y) where
  mirrors w := by rw [runOn_lift, runOn_lift, h.mirrors w]
  store_eq := h.store_eq

/-- A step that tells in its outcome whether it fails. -/
theorem Keeps.step {x : StateM Watched (Except ε α)} {y : StateM Workbench (Except ε α)}
    (h : Keeps x y) : Reads (ExceptT.mk x) (ExceptT.mk y) :=
  ⟨h.mirrors, h.store_eq⟩

/-- Giving a value is reading, -/
theorem reads_pure (a : α) :
    Reads (pure a : ExceptT ε (StateM Watched) α) (pure a : ExceptT ε (StateM Workbench) α) :=
  (keeps_pure (Except.ok a)).step

/-- and so is failing at once, -/
theorem reads_throw (e : ε) :
    Reads (throw e : ExceptT ε (StateM Watched) α) (throw e : ExceptT ε (StateM Workbench) α) :=
  (keeps_pure (Except.error e)).step

/-- and so is checking a value that is there already. -/
theorem reads_checked (fault : ε → Fault) (outcome : Except ε α) :
    Reads (checked fault outcome) (checked fault outcome) := (keeps_pure _).step

/-- Behind a check there is nothing to be asked but of what the check lets through. -/
theorem traceless_checked_bind {fault : ε → Fault} {outcome : Except ε α}
    {f : α → ExceptT Fault (StateM Watched) β} {g : α → ExceptT Fault (StateM Workbench) β}
    (h : ∀ a, outcome = .ok a → Traceless (f a) (g a)) :
    Traceless (checked fault outcome >>= f) (checked fault outcome >>= g) := by
  cases outcome with
  | error e => exact (reads_throw (fault e)).traceless
  | ok a => exact h a rfl

/-- Asking whether a file is there keeps the files. -/
theorem keeps_present (p : Path) : Keeps (Files.present p) (Files.present p) :=
  keeps_plain fun _ => rfl

/-- Reading a file keeps the files, also where it is refused: only writing is noted. -/
theorem keeps_read (p : Path) : Keeps (Files.read p) (Files.read p) := keeps_plain fun _ => rfl

/-- Reading a text is reading a file and looking at its bytes. -/
theorem reads_readText (p : Path) : Reads (readText p) (readText p) :=
  ((keeps_read p).bind fun _ => keeps_pure _).step

/-- Writing a file fails only where it is refused. -/
theorem writes_noting (step : StateM Workbench (Except Refusal Unit)) (fault : Refusal → Fault) :
    Writes (ExceptT.mk (Watched.noting step >>= fun r => pure (r.mapError fault)))
      (ExceptT.mk (step >>= fun r => pure (r.mapError fault))) where
  mirrors _ := rfl
  monotone w hw := by
    change (w.refused || _) = true
    rw [hw, Bool.true_or]
  refused_of_error w e he := by
    change (step w.machine).1.mapError fault = .error e at he
    change (w.refused || !(step w.machine).1.isOk) = true
    -- The fault is there exactly if the outcome is a refusal, which is what is noted.
    cases hstep : (step w.machine).1 with
    | ok u => simp [hstep] at he
    | error r => simp [Except.isOk, Except.toBool]

/-- Writing a file is one of the two steps that are noted, -/
theorem writes_writeFile (p : Path) (content : ByteArray) :
    Writes (writeFile p content) (writeFile p content) :=
  writes_noting (Files.write p content) Refusal.onWrite

/-- and making directories is the other one. -/
theorem writes_makeDirectories (p : Path) : Writes (makeDirectories p) (makeDirectories p) :=
  writes_noting (Files.makeDirectories p) Refusal.onWrite

/-- What cannot fail fails only where something is refused. -/
theorem Keeps.writes_lift {x : StateM Watched α} {y : StateM Workbench α} (h : Keeps x y) :
    Writes (ExceptT.lift x : ExceptT ε (StateM Watched) α) (ExceptT.lift y) where
  mirrors := h.lift.mirrors
  monotone w hw := (h.refused_eq w).trans hw
  refused_of_error w e he := by simp at he

/-- Giving a value does not fail, so it fails nowhere else either. -/
theorem writes_pure (a : α) :
    Writes (pure a : ExceptT ε (StateM Watched) α) (pure a : ExceptT ε (StateM Workbench) α) where
  mirrors := (reads_pure a).mirrors
  monotone _ hw := hw
  refused_of_error _ _ he := by simp at he

/-- Printing keeps the files. -/
theorem keeps_print (text : String) : Keeps (Console.print text) (Console.print text) :=
  keeps_plain fun _ => rfl

/-- Remarks keep the files, as printing does. -/
theorem keeps_remark (text : String) : Keeps (Console.remark text) (Console.remark text) :=
  keeps_plain fun _ => rfl

/-- Asking the machine for a stamp keeps the files. -/
theorem keeps_stamp : Keeps Host.stamp Host.stamp := keeps_plain fun _ => rfl

/-- Saying a line is reading, since printing does not count as a change. -/
theorem reads_say (line : String) : Reads (say line) (say line) := (keeps_print _).lift

/-- Saying several lines is reading as well. -/
theorem reads_sayAll (lines : List String) : Reads (sayAll lines) (sayAll lines) := by
  induction lines with
  | nil => exact reads_pure ()
  | cons line lines ih => exact (reads_say line).bind fun _ => ih

/-- Saying a line never fails, so it may come behind what has been written, -/
theorem writes_say (line : String) : Writes (say line) (say line) := (keeps_print _).writes_lift

/-- and so may several lines. -/
theorem writes_sayAll (lines : List String) : Writes (sayAll lines) (sayAll lines) := by
  induction lines with
  | nil => exact writes_pure ()
  | cons line lines ih => exact (writes_say line).bind fun _ => ih

/-- Settling waits or does nothing. Neither touches the files. -/
theorem keeps_settle (c : Configuration) (limit : Nat) :
    Keeps (c.settle limit) (c.settle limit) := by
  rw [Configuration.settle, Configuration.settle]
  cases (if c.settles then c.mode.settleTime limit else none) with
  | none => exact keeps_pure _
  | some milliseconds => exact keeps_plain fun _ => rfl

/-- Measuring an implementation keeps the files. Observing its resources, where that is asked for,
is done by the machine and does not touch them either. -/
theorem keeps_measure (c : Configuration) (i : Implementation) :
    Keeps (Bench.measure c i) (Bench.measure c i) := by
  rw [Bench.measure, Bench.measure]
  split
  · exact Keeps.bind (keeps_plain fun _ => rfl) fun _ => keeps_pure _
  · exact keeps_pure _

end PinnedBench
