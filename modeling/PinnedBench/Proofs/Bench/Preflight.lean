import PinnedBench.Bench.Run
import PinnedBench.Proofs.Dataset.Pinning

/-!
# What a benchmark checks before it measures

A benchmark is held against the lock of its dataset, and against nothing else. `Bench.run_ok_iff`
says when it is run and what follows for the arrays:

* a refused benchmark has measured nothing, and the machine is as it was;
* the arrays are not looked at, so that directories with the same lock are accepted alike;
* where the directory verifies as well, the arrays are there and have the digest that the lock
  holds.

That the lock alone does not pin the content is shown by a directory from which an array has been
removed (`Bench.accepts_without_axes`).

On a workbench a benchmark that is run measures the implementations that it is given, in their
order, and leaves the workbench as it is (`Bench.measures_of_run`, `Bench.runOn_run_workbench`).
-/

namespace PinnedBench

namespace Bench

variable {σ : Type} [Files (StateM σ)] [StoreMachine σ]

/-- A directory that verifies under a descriptor whose digest the lock holds has arrays with that
digest. -/
theorem pinned_of_verify {x : Descriptor} {d : Path} {hash : String} {m : σ}
    (hload : runOn (Dataset.load (Dataset.descriptorPath d)) m = (.ok x, m))
    (hverify : runOn (Dataset.verify d) m = (.ok hash, m))
    (hlock : Dataset.LockHolds (store m) d x.hash) :
    ∃ embeddings axes, (store m).read (d.join x.embeddingsFile) = .ok embeddings ∧
      (store m).read (d.join x.axesFile) = .ok axes ∧
      Dataset.HasLength embeddings x.embeddingsShape ∧ Dataset.HasLength axes x.axesShape ∧
      Dataset.LockHolds (store m) d (Sha256.hex (embeddings ++ axes)) := by
  obtain ⟨⟨y, c, hy, hembeddings, haxes, hverdict⟩, -⟩ := Dataset.runOn_verify_eq_ok.mp hverify
  -- Verifying reads the descriptor from the same file, so it is the one that was loaded.
  obtain rfl := Except.ok.inj (Prod.mk.inj (hload.symm.trans hy)).1
  obtain ⟨hfirst, hsecond, hhash, -⟩ := Dataset.verdict_eq_ok.mp hverdict
  rw [← hhash] at hlock
  exact ⟨c.embeddings, c.axes, hembeddings, haxes, hfirst, hsecond, hlock⟩

variable [Host (StateM σ)]

/-- A benchmark on a machine comes to an outcome. -/
def Accepts (x : Descriptor) (d : Path) (implementations : List Implementation) (c : Configuration)
    (m : σ) : Prop :=
  ∃ o m', runOn (run x d implementations c) m = (.ok o, m')

/-- **A benchmark that is refused** has done nothing. -/
theorem runOn_run_of_error {x : Descriptor} {d : Path} {implementations : List Implementation}
    {c : Configuration} {m m' : σ} {fault : Fault}
    (h : runOn (run x d implementations c) m = (.error fault, m')) : m' = m := by
  rw [run, runOn_bind, runOn_checked] at h
  cases hvalid : c.validate with
  | error e =>
    rw [hvalid] at h
    exact (Prod.mk.inj h).2.symm
  | ok u =>
    rw [hvalid] at h
    simp only [mapError_ok, runOn_bind] at h
    -- Measuring cannot fail, so the lock has been refused.
    have hkept := Dataset.runOn_verifyLock_snd x d m
    rcases hlock : runOn (Dataset.verifyLock x d) m with ⟨e | u, m₁⟩
    · rw [hlock] at h hkept
      exact (Prod.mk.inj h).2.symm.trans hkept
    · rw [hlock] at h
      simp at h

/-- A benchmark that its lock pins measures the implementations. -/
theorem runOn_run_of_lock {x : Descriptor} {d : Path} {implementations : List Implementation}
    {c : Configuration} {m : σ} (hvalid : c.validate = .ok ())
    (hlock : Dataset.LockHolds (store m) d x.hash) :
    runOn (run x d implementations c) m =
      (.ok ((implementations.mapM (measure c) : StateM σ Outcome) m).1,
        ((implementations.mapM (measure c) : StateM σ Outcome) m).2) := by
  rw [run, runOn_bind_of_ok (runOn_checked_eq_ok.mpr ⟨hvalid, rfl⟩),
    runOn_bind_of_ok (Dataset.runOn_verifyLock_eq_ok.mpr ⟨hlock, rfl⟩), runOn_lift]

/-- **A benchmark is accepted** exactly when it measures something and the lock holds the recorded
digest. -/
theorem accepts_iff {x : Descriptor} {d : Path} {implementations : List Implementation}
    {c : Configuration} {m : σ} :
    Accepts x d implementations c m ↔
      c.validate = .ok () ∧ Dataset.LockHolds (store m) d x.hash := by
  constructor
  · rintro ⟨o, m', h⟩
    -- Both checks have been passed on the way to an outcome.
    obtain ⟨⟨⟩, m₁, hvalidate, h₁⟩ := runOn_bind_eq_ok.mp h
    obtain ⟨hvalid, rfl⟩ := runOn_checked_eq_ok.mp hvalidate
    obtain ⟨⟨⟩, m₂, hlock, -⟩ := runOn_bind_eq_ok.mp h₁
    exact ⟨hvalid, (Dataset.runOn_verifyLock_eq_ok.mp hlock).1⟩
  · rintro ⟨hvalid, hlock⟩
    exact ⟨_, _, runOn_run_of_lock hvalid hlock⟩

/-- **A benchmark that is run** comes to a measurement for each implementation, in their order. -/
theorem forall₂_of_run {x : Descriptor} {d : Path} {implementations : List Implementation}
    {c : Configuration} {o : Outcome} {m m' : σ} {R : Implementation → Measurement → Prop}
    (hmeasure : ∀ i m₁, R i ((measure c i : StateM σ Measurement) m₁).1)
    (h : runOn (run x d implementations c) m = (.ok o, m')) :
    List.Forall₂ R implementations o := by
  obtain ⟨hvalid, hlock⟩ := accepts_iff.mp ⟨o, m', h⟩
  have hrun := h.symm.trans (runOn_run_of_lock hvalid hlock)
  rw [Except.ok.inj (Prod.mk.inj hrun).1]
  exact forall₂_mapM hmeasure implementations m

/-- **What a benchmark accepts.** It is run exactly when it measures something and the text of the
lock, without the blanks around it, is the recorded digest; otherwise the machine is left as it was,
and nothing has been measured. The arrays are not looked at: with the same lock, a benchmark is
accepted in one state of the directory as in the other. If the directory verifies under the
descriptor as well, the two arrays that the descriptor names are there, with the lengths of their
shapes, and the lock holds the digest of their bytes. -/
theorem run_ok_iff (x : Descriptor) (d : Path) (implementations : List Implementation)
    (c : Configuration) (m : σ) :
    (Accepts x d implementations c m ↔
        c.validate = .ok () ∧ Dataset.LockHolds (store m) d x.hash) ∧
      (¬Accepts x d implementations c m →
        ∃ fault, runOn (run x d implementations c) m = (.error fault, m)) ∧
      (∀ m₁ : σ, (store m₁).read (Dataset.lockPath d) = (store m).read (Dataset.lockPath d) →
        (Accepts x d implementations c m₁ ↔ Accepts x d implementations c m)) ∧
      (Accepts x d implementations c m →
        runOn (Dataset.load (Dataset.descriptorPath d)) m = (.ok x, m) →
        (∃ hash, runOn (Dataset.verify d) m = (.ok hash, m)) →
        ∃ embeddings axes, (store m).read (d.join x.embeddingsFile) = .ok embeddings ∧
          (store m).read (d.join x.axesFile) = .ok axes ∧
          Dataset.HasLength embeddings x.embeddingsShape ∧ Dataset.HasLength axes x.axesShape ∧
          Dataset.LockHolds (store m) d (Sha256.hex (embeddings ++ axes))) := by
  refine ⟨accepts_iff, fun hrefused => ?_, fun m₁ hlock => ?_, ?_⟩
  · rcases h : runOn (run x d implementations c) m with ⟨fault | o, m'⟩
    · exact ⟨fault, runOn_run_of_error h ▸ rfl⟩
    · exact absurd ⟨o, m', h⟩ hrefused
  · -- All that is read of the directory is the lock.
    have hholds : Dataset.LockHolds (store m₁) d x.hash ↔ Dataset.LockHolds (store m) d x.hash := by
      rw [Dataset.LockHolds, Dataset.LockHolds, hlock]
    exact accepts_iff.trans ((and_congr_right fun _ => hholds).trans accepts_iff.symm)
  · rintro hrun hload ⟨hash, hverify⟩
    exact pinned_of_verify hload hverify (accepts_iff.mp hrun).2

/-- A benchmark of a dataset that has just been generated runs on the content that its lock pins. -/
theorem generated_run_is_pinned : ∃ (x : Descriptor) (w : Workbench),
    runOn (Dataset.generate ⟨1, 1, 1, 0⟩ ⟨"data"⟩ false) (Workbench.ofStore (Store.ofCurrent [])) =
        (.ok x, w) ∧
      Accepts x ⟨"data"⟩ [⟨"python", "naive"⟩] .standard w ∧
      ∃ embeddings axes, w.store.read (Path.join ⟨"data"⟩ x.embeddingsFile) = .ok embeddings ∧
        w.store.read (Path.join ⟨"data"⟩ x.axesFile) = .ok axes ∧
        Dataset.LockHolds w.store ⟨"data"⟩ (Sha256.hex (embeddings ++ axes)) := by
  obtain ⟨x, w, h⟩ := Dataset.generates_in_empty
    (store_workbench (Workbench.ofStore (Store.ofCurrent [])))
  obtain ⟨s, b, hs, rfl, hholds, -⟩ := Dataset.holds_of_generate h
  obtain ⟨haccepts, -, -, hpinned⟩ := run_ok_iff
    (Descriptor.of ⟨1, 1, 1, 0⟩ s (Content.generate ⟨1, 1, 1, 0⟩ s)) ⟨"data"⟩
    [⟨"python", "naive"⟩] .standard w
  -- The lock was written with the digest of the descriptor.
  have hrun := haccepts.mpr ⟨rfl, Dataset.lockHolds_of_read hholds.read_lock⟩
  obtain ⟨embeddings, axes, hembeddings, haxes, -, -, hlock⟩ := hpinned hrun
    (Dataset.runOn_load_document hholds.read_descriptor)
    ⟨_, hholds.runOn_verify.trans (by rw [Dataset.verdict_generated hs])⟩
  exact ⟨_, w, h, hrun, embeddings, axes, hembeddings, haxes, hlock⟩

/-- A benchmark of a generated dataset, from which an array has been removed, is accepted. -/
theorem accepts_without_axes : ∃ (x : Descriptor) (s t : Store),
    runOn (Dataset.generate ⟨1, 1, 1, 0⟩ ⟨"data"⟩ false) (Store.ofCurrent []) = (.ok x, s) ∧
      s.remove ⟨"data/axes.f64"⟩ = .ok t ∧
      t.read (Path.join ⟨"data"⟩ x.axesFile) = .error .missing ∧
      Accepts x ⟨"data"⟩ [⟨"python", "naive"⟩] .standard (Workbench.ofStore t) := by
  obtain ⟨x, s, h⟩ := Dataset.generates_in_empty (store_self (Store.ofCurrent []))
  obtain ⟨sizes, b, -, rfl, hholds, -⟩ := Dataset.holds_of_generate h
  have haxes := hholds.route_eq (by decide : Descriptor.axesName ∈ Dataset.fileNames)
  -- The lock stands beside the array, so it is kept when the array is removed.
  have hlock := hholds.route_eq (by decide : Dataset.lockName ∈ Dataset.fileNames)
  obtain ⟨r, hr, hnode⟩ := Store.read_eq_ok.mp hholds.read_axes
  have hremove := Store.remove_eq_ok.mpr ⟨r, _, hr, hnode, rfl⟩
  have hkept := Store.read_of_remove_ne hremove haxes hlock
    (by simp [Descriptor.axesName, Dataset.lockName]) hholds.read_lock
  exact ⟨_, s, _, h, hremove, Store.read_of_remove hremove,
    accepts_iff.mpr ⟨rfl, Dataset.lockHolds_of_read hkept⟩⟩

/-- The lock alone does not pin the arrays: a benchmark may be run where they are missing. -/
theorem accepts_not_pinned :
    ¬∀ (w : Workbench) (x : Descriptor) (d : Path) (implementations : List Implementation)
        (c : Configuration), Accepts x d implementations c w →
      ∃ embeddings axes, w.store.read (d.join x.embeddingsFile) = .ok embeddings ∧
        w.store.read (d.join x.axesFile) = .ok axes ∧
        Dataset.LockHolds w.store d (Sha256.hex (embeddings ++ axes)) := by
  intro hclaim
  -- In the directory without axes there is nothing that could have the digest.
  obtain ⟨x, s, t, -, -, hmissing, haccepts⟩ := accepts_without_axes
  obtain ⟨embeddings, axes, -, haxes, -⟩ := hclaim _ x _ _ _ haccepts
  exact absurd (hmissing.symm.trans haxes) (by simp)

/-! ### Measuring on a workbench -/

theorem measure_snd (c : Configuration) (i : Implementation) (w : Workbench) :
    ((measure c i : StateM Workbench Measurement) w).2 = w := by
  rw [measure]
  split <;> rfl

/-- Measuring one implementation after the other leaves a workbench as it is. -/
theorem mapM_measure_snd (c : Configuration) (implementations : List Implementation)
    (w : Workbench) :
    ((implementations.mapM (measure c) : StateM Workbench Outcome) w).2 = w := by
  induction implementations generalizing w with
  | nil => rfl
  | cons i implementations ih =>
    rw [List.mapM_cons]
    change ((implementations.mapM (measure c) : StateM Workbench Outcome)
      ((measure c i : StateM Workbench Measurement) w).2).2 = w
    rw [measure_snd, ih]

/-- A benchmark that its lock pins leaves a workbench as it is. -/
theorem runOn_run_workbench {x : Descriptor} {d : Path} {c : Configuration} {w : Workbench}
    (implementations : List Implementation) (hvalid : c.validate = .ok ())
    (hlock : Dataset.LockHolds w.store d x.hash) :
    runOn (run x d implementations c) w =
      (.ok ((implementations.mapM (measure c) : StateM Workbench Outcome) w).1, w) := by
  rw [runOn_run_of_lock (m := w) hvalid hlock, mapM_measure_snd]

/-- An outcome of so many runs of implementations, in their order. -/
def Measures (implementations : List Implementation) (runs : UInt32) (o : Outcome) : Prop :=
  o.map (fun e => (e.implementation, e.durations)) =
    implementations.map fun i => (i, Workload.durations i.variant runs)

section Measures

variable {implementations : List Implementation} {runs : UInt32} {o : Outcome}

/-- The implementations of an outcome are those of the list. -/
theorem Measures.implementations_eq (h : Measures implementations runs o) :
    o.map (·.implementation) = implementations := by
  have hfirst := congrArg (List.map Prod.fst) h
  rw [List.map_map, List.map_map] at hfirst
  exact hfirst.trans (List.map_id implementations)

/-- The durations of a measurement are those of the variant that it names. -/
theorem Measures.durations_eq (h : Measures implementations runs o) {e : Measurement} (he : e ∈ o) :
    e.durations = Workload.durations e.implementation.variant runs := by
  have hmem : (e.implementation, e.durations) ∈
      implementations.map fun i => (i, Workload.durations i.variant runs) := by
    rw [← h]
    exact List.mem_map_of_mem he
  obtain ⟨i, -, hi⟩ := List.mem_map.mp hmem
  obtain ⟨rfl, hdurations⟩ := Prod.mk.inj hi
  exact hdurations.symm

end Measures

/-- Whether the use of resources is observed or not, a measurement has the implementation and its
durations. -/
theorem measure_fst (c : Configuration) (i : Implementation) (w : Workbench) :
    ((measure c i : StateM Workbench Measurement) w).1.implementation = i ∧
      ((measure c i : StateM Workbench Measurement) w).1.durations =
        Workload.durations i.variant c.runs := by
  rw [measure]
  split <;> exact ⟨rfl, rfl⟩

/-- **A benchmark on a workbench** measures the implementations that it is given, in their order. -/
theorem measures_of_run {x : Descriptor} {d : Path} {implementations : List Implementation}
    {c : Configuration} {o : Outcome} {w w' : Workbench}
    (h : runOn (run x d implementations c) w = (.ok o, w')) :
    Measures implementations c.runs o := by
  have hmeasured : List.Forall₂ (fun i e => (i, Workload.durations i.variant c.runs) =
      (e.implementation, e.durations)) implementations o := by
    refine forall₂_of_run ?_ h
    intro i w₁
    obtain ⟨himplementation, hdurations⟩ := measure_fst c i w₁
    rw [himplementation, hdurations]
  have hmaps := List.forall₂_map_right_iff.mpr (List.forall₂_map_left_iff.mpr hmeasured)
  rw [List.forall₂_eq_eq_eq] at hmaps
  exact hmaps.symm

end Bench

end PinnedBench
