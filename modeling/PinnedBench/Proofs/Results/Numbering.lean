import Mathlib.Data.List.Flatten
import PinnedBench.Proofs.Bench.Implementations
import PinnedBench.Proofs.Command.Sessions
import PinnedBench.Proofs.Results.Tables

/-!
# Numbers of runs in a results table

The runs of a measurement are numbered from zero. So a run is named by its implementation and its
number, and the durations of a measurement are those that the table has for its implementation, as
long as no other measurement is of the same implementation (`Outcome.Numbered`).

A list may name an implementation twice. Then the table has the runs of both measurements one behind
the other, the numbers begin again in between, and the durations of the implementation are those of
both. `Outcome.numbered_iff` says that this is the only way in which the numbers fail, and
`Outcome.rows_of_save` says it of the table that is saved for a list: the numbers fail exactly if an
entry of the list is repeated, provided that something was measured of every entry.
-/

namespace PinnedBench

/-! ### Runs of measurements -/

theorem Measurement.map_run_rows (e : Measurement) :
    e.rows.map (·.run) = List.range e.durations.length := by
  rw [rows, Table.rowsOf, List.map_map, List.range_eq_range']
  exact List.zipIdx_map_snd 0 e.durations

namespace Outcome

variable {o : Outcome}

/-- The runs that the table has for an implementation. -/
def runsOf (o : Outcome) (i : Implementation) : List Nat :=
  (o.table.rows.filter (Measurement.isRowOf i)).map (·.run)

/-- **Runs are named by their numbers**: no two rows have the same implementation, variant and
number, the runs of an implementation are numbered from zero without a gap, and the durations that
the table has for the implementation of a measurement are those of the measurement. -/
structure Numbered (o : Outcome) : Prop where
  /-- No row has the name of another one. -/
  keys_nodup : (o.table.rows.map fun r => (r.implementation, r.variant, r.run)).Nodup
  /-- The runs of an implementation are counted from zero. -/
  runs_eq : ∀ i, ∃ k, o.runsOf i = List.range k
  /-- Under the name of an implementation the table has its durations and no others. -/
  durations_eq : ∀ e ∈ o,
    o.table.durations e.implementation.name e.implementation.variant = e.durations

/-- The runs of an implementation are those of its measurements, one behind the other. -/
theorem runsOf_eq (o : Outcome) (i : Implementation) :
    o.runsOf i =
      (o.filter (·.implementation = i)).flatMap fun e => List.range e.durations.length := by
  unfold runsOf
  rw [filter_rows_table, List.map_flatMap]
  -- Every measurement of the implementation begins at zero again.
  simp only [Measurement.map_run_rows]

/-- Rows are told apart if they are within each implementation. -/
theorem keys_nodup_of_runsOf (h : ∀ i, (o.runsOf i).Nodup) :
    (o.table.rows.map fun r => (r.implementation, r.variant, r.run)).Nodup := by
  rw [List.nodup_iff_pairwise_ne, List.pairwise_map, List.pairwise_iff_forall_sublist]
  intro r r' hrows hkey
  rw [Prod.mk.injEq, Prod.mk.injEq] at hkey
  obtain ⟨himplementation, hvariant, hrun⟩ := hkey
  -- Both rows are of the same implementation, so both numbers are among its runs.
  have hruns : [r.run, r'.run].Sublist (o.runsOf ⟨r.implementation, r.variant⟩) := by
    have hfilter := (hrows.filter (Measurement.isRowOf ⟨r.implementation, r.variant⟩)).map (·.run)
    have hrow : Measurement.isRowOf ⟨r.implementation, r.variant⟩ r = true := by
      simp [Measurement.isRowOf]
    have hrow' : Measurement.isRowOf ⟨r.implementation, r.variant⟩ r' = true := by
      simp [Measurement.isRowOf, himplementation, hvariant]
    rwa [List.filter_cons_of_pos hrow, List.filter_cons_of_pos hrow'] at hfilter
  have hne := (h _).sublist hruns
  rw [hrun] at hne
  simp at hne

/-! ### Repeated implementations -/

/-- Of two measurements of one implementation, neither has anything in it. -/
def Unrepeated (o : Outcome) : Prop :=
  o.Pairwise fun e e' => e.implementation = e'.implementation → e.durations = [] ∧ e'.durations = []

/-- Where no two items both have something, all of it is that of one item. -/
theorem flatMap_eq_of_pairwise {γ : Type} {f : Measurement → List γ} {es : List Measurement}
    (h : es.Pairwise fun e e' => f e = [] ∧ f e' = []) {e : Measurement} (he : e ∈ es) :
    es.flatMap f = f e := by
  induction es with
  | nil => simp at he
  | cons e' es ih =>
    rw [List.pairwise_cons] at h
    rw [List.flatMap_cons]
    rcases List.mem_cons.mp he with rfl | he
    · -- Whatever stands behind the first one adds nothing.
      have hothers : es.flatMap f = [] :=
        List.flatMap_eq_nil_iff.mpr fun e' he' => (h.1 e' he').2
      rw [hothers, List.append_nil]
    · -- There is another one behind the first, so the first one adds nothing.
      rw [(h.1 e he).1, List.nil_append, ih h.2 he]

/-- In what is measured of an implementation, one measurement counts. -/
theorem Unrepeated.flatMap_filter (h : o.Unrepeated) {γ : Type} {f : Measurement → List γ}
    (hf : ∀ e, e.durations = [] → f e = []) {e : Measurement} (he : e ∈ o) :
    (o.filter (·.implementation = e.implementation)).flatMap f = f e := by
  apply flatMap_eq_of_pairwise
  · rw [List.pairwise_filter]
    apply List.Pairwise.imp _ h
    intro e₁ e₂ hboth h₁ h₂
    obtain ⟨hnone, hnone'⟩ := hboth ((of_decide_eq_true h₁).trans (of_decide_eq_true h₂).symm)
    exact ⟨hf e₁ hnone, hf e₂ hnone'⟩
  · exact List.mem_filter.mpr ⟨he, decide_eq_true rfl⟩

/-- Without repetitions the runs of an implementation are counted once. -/
theorem Unrepeated.exists_runsOf_eq (h : o.Unrepeated) (i : Implementation) :
    ∃ k, o.runsOf i = List.range k := by
  rw [runsOf_eq]
  by_cases hmeasured : ∃ e ∈ o, e.implementation = i
  · obtain ⟨e, he, rfl⟩ := hmeasured
    refine ⟨e.durations.length, ?_⟩
    apply h.flatMap_filter _ he
    intro e' he'
    rw [he']
    rfl
  · -- The implementation has not been measured.
    have hfilter : o.filter (·.implementation = i) = [] := by
      rw [List.filter_eq_nil_iff]
      intro e he hsame
      exact hmeasured ⟨e, he, of_decide_eq_true hsame⟩
    exact ⟨0, by rw [hfilter]; rfl⟩

/-- Without repetitions runs are named by their numbers. -/
theorem Unrepeated.numbered (h : o.Unrepeated) : o.Numbered := by
  refine ⟨?_, h.exists_runsOf_eq, ?_⟩
  · apply keys_nodup_of_runsOf
    intro i
    obtain ⟨k, hk⟩ := h.exists_runsOf_eq i
    rw [hk]
    exact List.nodup_range
  · intro e he
    rw [durations_table_eq]
    exact h.flatMap_filter (fun _ hnone => hnone) he

/-- The table has the durations of two measurements for the implementation that they share. -/
theorem append_sublist_durations {e e' : Measurement} (hsub : [e, e'].Sublist o)
    (hsame : e.implementation = e'.implementation) :
    (e.durations ++ e'.durations).Sublist
      (o.table.durations e.implementation.name e.implementation.variant) := by
  have hpair : [e, e'].filter (·.implementation = e.implementation) = [e, e'] := by
    simp [hsame.symm]
  have hfilter := (hsub.filter (·.implementation = e.implementation)).flatMap (·.durations)
  rw [hpair, ← durations_table_eq] at hfilter
  simpa using hfilter

/-- A repetition would put the durations of two measurements under one name. -/
theorem Numbered.unrepeated (h : o.Numbered) : o.Unrepeated := by
  unfold Unrepeated
  rw [List.pairwise_iff_forall_sublist]
  intro e e' hsub hsame
  have hfirst := h.durations_eq e (hsub.subset List.mem_cons_self)
  have hsecond := h.durations_eq e' (hsub.subset (List.mem_cons_of_mem _ List.mem_cons_self))
  rw [← hsame, hfirst] at hsecond
  -- What the table has for both is what it has for either of them, so there is no room for the
  -- other.
  have hlength := (append_sublist_durations hsub hsame).length_le
  rw [hfirst, List.length_append] at hlength
  have hnone : e'.durations = [] := List.length_eq_zero_iff.mp (by omega)
  exact ⟨hsecond.trans hnone, hnone⟩

/-- **The numbers of runs** name them exactly if no two measurements of one implementation have
anything in them. -/
theorem numbered_iff : o.Numbered ↔ o.Unrepeated := ⟨Numbered.unrepeated, Unrepeated.numbered⟩

/-- Where something was measured of every entry, nothing is repeated if no entry is. -/
theorem unrepeated_iff_nodup (h : ∀ e ∈ o, e.durations ≠ []) :
    o.Unrepeated ↔ (o.map (·.implementation)).Nodup := by
  unfold Unrepeated
  rw [List.nodup_iff_pairwise_ne, List.pairwise_map]
  apply List.Pairwise.iff_of_mem
  intro e e' he _
  constructor
  · intro hboth hsame
    exact h e he (hboth hsame).1
  · intro hne hsame
    exact absurd hsame hne

/-! ### Saved tables -/

variable {σ : Type} [Files (StateM σ)] [StoreMachine σ]
variable {text : List Char} {implementations : List Implementation} {directory : Path}
  {x : Descriptor} {c : Configuration} {paths : Path × Path} {m m' : σ}

/-- **What the numbers of runs name.** Let an outcome of a list of implementations be saved. For an
implementation, the table has the runs and the durations of all its measurements, one behind the
other, and the runs of each are numbered from zero. The numbers name the runs exactly if no two
measurements of one implementation have anything in them; if there is something in every
measurement, that is if no two entries of the list are the same, blanks apart. -/
theorem rows_of_save (hparse : Implementation.parseList text = .ok implementations)
    (ho : o.map (·.implementation) = implementations)
    (hsave : runOn (Bench.save o directory x c) m = (.ok paths, m')) :
    (store m').read paths.1 = .ok o.table.toCsv.toUTF8 ∧
      (∀ i, o.runsOf i =
        (o.filter (·.implementation = i)).flatMap fun e => List.range e.durations.length) ∧
      (∀ i : Implementation, o.table.durations i.name i.variant =
        (o.filter (·.implementation = i)).flatMap (·.durations)) ∧
      (o.Numbered ↔ o.Unrepeated) ∧
      ((∀ e ∈ o, e.durations ≠ []) →
        (o.Numbered ↔ ((Implementation.entries text).map trim).Nodup)) := by
  obtain ⟨rfl, htable, -⟩ := Bench.reads_of_save hsave
  refine ⟨htable, o.runsOf_eq, o.durations_table_eq, numbered_iff, ?_⟩
  intro hsome
  rw [numbered_iff, unrepeated_iff_nodup hsome, ho, Implementation.nodup_of_parseList hparse]

/-- Runs of two variants. -/
def twoVariants : Outcome :=
  [⟨⟨"a", "b"⟩, [⟨0x3ff0000000000000⟩, ⟨0x4000000000000000⟩], none⟩,
    ⟨⟨"a", "c"⟩, [⟨0x3ff0000000000000⟩], none⟩]

/-- The runs of two variants are named by their numbers. -/
theorem two_variants_are_numbered : ∃ (paths : Path × Path) (w : Workbench),
    runOn (Bench.save twoVariants ⟨"runner"⟩ (Descriptor.unmeasured "a") .standard)
        (Workbench.ofStore (.ofCurrent [])) = (.ok paths, w) ∧ twoVariants.Numbered := by
  have hparse : Implementation.parseList "a-b, a-c".toList =
      .ok [⟨"a", "b"⟩, ⟨"a", "c"⟩] := by decide
  obtain ⟨paths, w, hsave⟩ :=
    Bench.saves_in_empty twoVariants (Descriptor.unmeasured "a") .standard
  obtain ⟨-, -, -, -, hnumbered⟩ := rows_of_save hparse rfl hsave
  exact ⟨paths, w, hsave, (hnumbered (by decide)).mpr (by decide)⟩

/-- Runs of one variant, which has been measured twice. -/
def repeatedVariant : Outcome :=
  [⟨⟨"a", "b"⟩, [⟨0x3ff0000000000000⟩], none⟩, ⟨⟨"a", "b"⟩, [⟨0x4000000000000000⟩], none⟩]

/-- A list may have an entry twice, and then the runs are not named by their numbers. -/
theorem repeated_variant_is_not_numbered : ∃ (paths : Path × Path) (w : Workbench),
    Implementation.parseList "a-b, a-b".toList = .ok (repeatedVariant.map (·.implementation)) ∧
      runOn (Bench.save repeatedVariant ⟨"runner"⟩ (Descriptor.unmeasured "a") .standard)
        (Workbench.ofStore (.ofCurrent [])) = (.ok paths, w) ∧
      repeatedVariant.runsOf ⟨"a", "b"⟩ = [0, 0] ∧ ¬repeatedVariant.Numbered := by
  obtain ⟨paths, w, hsave⟩ :=
    Bench.saves_in_empty repeatedVariant (Descriptor.unmeasured "a") .standard
  refine ⟨paths, w, by decide, hsave, by decide, ?_⟩
  intro hnumbered
  exact absurd hnumbered.keys_nodup (by decide)

end Outcome

end PinnedBench
