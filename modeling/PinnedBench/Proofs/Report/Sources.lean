import PinnedBench.Conversion.Build
import PinnedBench.Impact.Configuration
import PinnedBench.Proofs.Json.Yields
import PinnedBench.Proofs.Report.Audit

/-!
# What reports are made of

Everything that a report is made of is read from documents, and every number that is read is finite:
in summaries of runs (`RunSummary.yields_ofText`) and in constants of the projection
(`Rates.yields_ofToml`). What is computed from finite numbers need not be finite, and evidence that
is as deep as a document may be is one level too deep inside a report.

So a report on runs is read again if what it computes is finite and its evidence leaves it a level
(`Report.readsWhen_build`). A report of collected figures makes up its samples and its profiles as
well (`Report.readsWhen_converted`).
-/

namespace PinnedBench

open Json

/-! ### Summaries of runs -/

/-- The figures of a summary of a profile. -/
theorem Summary.yields_decode (levels : Nat) (t : Tree) :
    Yields (decode levels t) fun s => ∀ x ∈ s.figures, x.isFinite = true := by
  have hnumber (f : Fields) (name : String) := f.yields_required name Decoder.yields_double
  unfold decode
  refine .skip fun f => ?_
  refine (hnumber f _).bind fun cpuAverage h₁ => ?_
  refine (hnumber f _).bind fun cpuPeak h₂ => ?_
  refine (hnumber f _).bind fun ramAverage h₃ => ?_
  refine (hnumber f _).bind fun ramPeak h₄ => ?_
  refine (hnumber f _).bind fun diskTotal h₅ => ?_
  refine (hnumber f _).bind fun gpuAverage h₆ => ?_
  refine (hnumber f _).bind fun duration h₇ => ?_
  refine .skip fun count => .ok ?_
  simp [figures, h₁, h₂, h₃, h₄, h₅, h₆, h₇]

/-- The figures of a curve. -/
theorem Curve.yields_decode (levels : Nat) (t : Tree) :
    Yields (decode levels t) fun c => ∀ x ∈ c.figures, x.isFinite = true := by
  have hnumbers (f : Fields) (name : String) :=
    f.yields_required name (Decoder.yields_list Decoder.yields_double)
  unfold decode
  refine .skip fun f => ?_
  refine (hnumbers f _).bind fun times h₁ => ?_
  refine (hnumbers f _).bind fun cpu h₂ => ?_
  refine (hnumbers f _).bind fun ram h₃ => ?_
  refine (hnumbers f _).bind fun disk h₄ => ?_
  refine (hnumbers f _).bind fun gpu h₅ => .ok ?_
  simp only [figures, List.forall_mem_append]
  exact ⟨⟨⟨⟨h₁, h₂⟩, h₃⟩, h₄⟩, h₅⟩

/-- The figures of a profile. -/
theorem Profile.yields_decode (levels : Nat) (t : Tree) :
    Yields (decode levels t) fun p => ∀ x ∈ p.figures, x.isFinite = true := by
  unfold decode
  refine .skip fun f => ?_
  refine (f.yields_required _ Summary.yields_decode).bind fun summary hsummary => ?_
  refine (f.yields_required _ Curve.yields_decode).bind fun curve hcurve => .ok ?_
  exact List.forall_mem_append.mpr ⟨hsummary, hcurve⟩

namespace RunSummary

/-- All numbers of a summary are finite, its free values apart. -/
structure Finite (s : RunSummary) : Prop where
  /-- The durations of the baseline are finite, -/
  baseline : ∀ x ∈ s.baseline, x.isFinite = true
  /-- those of the optimized side, -/
  optimized : ∀ x ∈ s.optimized, x.isFinite = true
  /-- the time that was waited, if it is known, -/
  waited : ∀ x ∈ s.waited, x.isFinite = true
  /-- and all numbers of the profiles. -/
  profiles : ∀ e ∈ s.profiles.entries, ∀ x ∈ e.2.figures, x.isFinite = true

/-- The fields of a summary, one after the other. -/
theorem yields_decode (levels : Nat) (t : Tree) : Yields (decode levels t) Finite := by
  have hnumbers := Decoder.yields_list Decoder.yields_double
  unfold decode
  -- Words, texts and free values are skipped; a field that is missing has no numbers.
  refine .skip fun f => ?_
  refine .skip fun dataset => .skip fun configuration => ?_
  refine (f.yields_defaulted _ (List.forall_mem_nil _) hnumbers).bind fun baseline hbaseline => ?_
  refine (f.yields_defaulted _ (List.forall_mem_nil _) hnumbers).bind fun optimized hoptimized => ?_
  refine .skip fun warmup => .skip fun runs => .skip fun repetitions => ?_
  refine .skip fun settles => .skip fun mode => ?_
  refine (f.yields_defaulted _ (by simp) (Decoder.yields_orNull Decoder.yields_double)).bind
    fun waited hwaited => ?_
  refine .skip fun processor => ?_
  refine (f.yields_defaulted _ (by simp) (Decoder.yields_keyed Profile.yields_decode)).bind
    fun profiles hprofiles => ?_
  exact .ok ⟨hbaseline, hoptimized, hwaited, hprofiles⟩

/-- **A summary** that is read has only finite numbers. -/
theorem yields_ofText (text : String) : Yields (ofText text) Finite :=
  (yields_decodeText yields_decode text).mapError

end RunSummary

/-! ### Constants of the projection -/

namespace Rates

/-- Constants that are not finite are refused. -/
theorem isFinite_of_validate {r : Rates Double} (h : r.validate = .ok ()) :
    ∀ x ∈ r.figures, x.isFinite = true := by
  unfold validate at h
  split at h
  next hnone =>
    intro x hx
    have hfigures : r.figures = r.named.map (·.2) := rfl
    rw [hfigures] at hx
    obtain ⟨e, he, rfl⟩ := List.mem_map.mp hx
    have hadmissible : admissible e.2 = true := by simpa using List.find?_eq_none.mp hnone e he
    exact (Bool.and_eq_true_iff.mp hadmissible).1
  next => cases h

/-- **Constants** that are read from a configuration file are finite. -/
theorem yields_ofToml (text : String) :
    Yields (ofToml text) fun r => ∀ x ∈ r.figures, x.isFinite = true := by
  unfold ofToml
  refine .skip fun members => .skip fun r => ?_
  -- The numbers of a configuration may be infinite, and the check is what refuses them.
  intro r' h
  obtain ⟨⟨⟩, hvalid, hr'⟩ := bind_eq_ok.mp h
  obtain rfl := Except.ok.inj hr'
  exact isFinite_of_validate (mapError_eq_ok.mp hvalid)

theorem isFinite_standard : ∀ x ∈ (standard : Rates Double).figures, x.isFinite = true := by
  decide +kernel

end Rates

/-! ### Reports -/

/-- What a report on runs is built from is loaded if all numbers are finite and the evidence is as a
value is held. -/
structure Inputs.Loaded (x : Inputs) : Prop where
  /-- The summary has been read from a text, which has finite numbers only. -/
  summary : x.summary.Finite
  /-- The evidence has been read from a text, too. -/
  evidence : ∀ j ∈ x.evidence, j.Proper
  /-- So have the rates. -/
  rates : ∀ y ∈ x.rates.figures, y.isFinite = true

namespace Report

/-- The numbers of a report that follow from its durations and constants. -/
def derived (r : Report) : List Double := r.finding.figures ++ r.impact.savings.figures

/-- The numbers of a report that are made up where no runs were measured. -/
def made (r : Report) : List Double :=
  r.baseline.durations ++ r.optimized.durations ++ r.profileFigures

/-- The numbers of a report: what was waited, the constants, what is made up, and what follows. -/
theorem forall_mem_figures {r : Report} {p : Double → Prop} :
    (∀ x ∈ r.figures, p x) ↔ p r.setup.settling.waited ∧ (∀ x ∈ r.impact.rates.figures, p x) ∧
      (∀ x ∈ r.made, p x) ∧ ∀ x ∈ r.derived, p x := by
  simp only [figures, made, derived, Impact.figures, List.forall_mem_cons, List.forall_mem_append]
  tauto

/-- **A report on runs** is read again exactly if what follows from its runs is finite and the
evidence leaves it a level. -/
theorem readsWhen_build {x : Inputs} (h : x.Loaded) (stamp : Stamp) :
    ReadsWhen ((∀ y ∈ (build x stamp).derived, y.isFinite = true) ∧
        (build x stamp).evidence.depth ≤ 126)
      (ofText (build x stamp).document) (build x stamp) := by
  have hevidence : (build x stamp).evidence.Proper := by
    change (x.evidence.getD noEvidence).Proper
    cases hsupplied : x.evidence with
    | none => exact proper_noEvidence
    | some j => exact h.evidence j hsupplied
  have hwaited : (build x stamp).setup.settling.waited.isFinite = true := by
    change (x.summary.waited.getD ((0 : Nat) : Double)).isFinite = true
    cases hwaited : x.summary.waited with
    | none => exact isFinite_zero
    | some y => exact h.summary.waited y hwaited
  have hprofiles : ∀ y ∈ (build x stamp).profileFigures, y.isFinite = true := by
    -- No profiles are reported where the summary has none.
    have hentries : ∀ y ∈ x.summary.profiles.entries.flatMap fun e => e.2.figures,
        y.isFinite = true := by
      simpa only [List.forall_mem_flatMap] using h.summary.profiles
    unfold build profileFigures
    simp only
    cases x.summary.profiles.isEmpty with
    | true => exact List.forall_mem_nil _
    | false => exact hentries
  have hmade : ∀ y ∈ (build x stamp).made, y.isFinite = true := by
    simp only [made, List.forall_mem_append]
    exact ⟨⟨h.summary.baseline, h.summary.optimized⟩, hprofiles⟩
  -- What was read is finite, so only what was computed may not be.
  refine (readsWhen_readable hevidence).congr ?_
  rw [readable_iff, forall_mem_figures]
  exact ⟨fun hr => ⟨hr.1.2.2.2, hr.2⟩, fun hr => ⟨⟨hwaited, h.rates, hmade, hr.1⟩, hr.2⟩⟩

/-- **A report of collected figures** is read again exactly if what it is made of is finite. -/
theorem readsWhen_converted {c : Collection} {baseline optimized : String}
    {dataset : Option DatasetIdentity} {stamp : Stamp} {r : Report}
    (h : c.report baseline optimized dataset stamp = .ok r) :
    ReadsWhen (∀ y ∈ r.made ++ r.derived, y.isFinite = true) (ofText r.document) r := by
  obtain ⟨b, o, -, -, hr⟩ := Collection.report_eq_ok h
  -- A conversion has no evidence, has not waited, and projects with the standard constants.
  have hevidence : r.evidence = noEvidence := by rw [hr]; rfl
  have hwaited : r.setup.settling.waited = ((0 : Nat) : Double) := by rw [hr]; rfl
  have hrates : r.impact.rates = .standard := by rw [hr]; rfl
  have hproper : r.evidence.Proper := hevidence ▸ proper_noEvidence
  refine (readsWhen_readable hproper).congr ?_
  rw [readable_iff, forall_mem_figures, List.forall_mem_append, hevidence, hwaited, hrates]
  exact ⟨fun hr => hr.1.2.2,
    fun hr => ⟨⟨isFinite_zero, Rates.isFinite_standard, hr⟩, by decide⟩⟩

end Report

end PinnedBench
