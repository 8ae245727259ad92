import PinnedBench.Conversion.Build
import PinnedBench.Proofs.Report.Readback

/-!
# Auditing reports

Whoever holds a report can check it without anything else: the comparison follows from the durations
that it lists, the savings follow from the comparison and the constants that it lists, and its
identifier follows from when and where it was made. `Report.Auditable` says so.

Reports are built from a summary of runs or from collected figures, and a report that was written
may be read again (`Report.Produced`). Collected figures go through the same construction, which
changes two parts of the report afterwards that nothing else follows from, and reading gives the
report that was written, but for its evidence. So every report is auditable, whoever made it
(`Report.Produced.auditable`).
-/

namespace PinnedBench

/-- Whose runs a record holds. -/
def RunRecord.side (x : RunRecord) : Implementation := ⟨x.implementation, x.variant⟩

/-- A record of runs that were all measured: one success for each duration, and no failures. -/
structure RunRecord.Flawless (x : RunRecord) : Prop where
  /-- Each duration is one of a success. -/
  status : x.status = List.replicate x.durations.length .success
  /-- Nothing is recorded as a failure. -/
  failures : x.failures = []

theorem RunRecord.flawless_measured (i : Implementation) (durations : List Double) :
    (RunRecord.measured i durations).Flawless :=
  ⟨rfl, rfl⟩

namespace Report

/-- **A report that can be checked** from its own content. -/
structure Auditable (r : Report) : Prop where
  /-- The comparison is that of the durations. -/
  comparison : r.finding.comparison = .of r.baseline.durations r.optimized.durations
  /-- The savings are those of the difference. -/
  savings : r.impact.savings = .project r.finding.comparison.delta r.impact.rates
  /-- The identifier is that of the time and the host. -/
  id : r.provenance.id = reportId r.provenance.generatedAt r.provenance.machine.hostName
  /-- The baseline did not fail. -/
  baseline : r.baseline.Flawless
  /-- The optimized side did not fail. -/
  optimized : r.optimized.Flawless
  /-- The implementations are those of the two sides. -/
  implementations : r.setup.implementations = [r.baseline.side, r.optimized.side]

/-- A report is auditable as it is built. -/
theorem auditable_build (x : Inputs) (stamp : Stamp) : (build x stamp).Auditable where
  comparison := rfl
  savings := rfl
  id := rfl
  baseline := RunRecord.flawless_measured x.baseline x.summary.baseline
  optimized := RunRecord.flawless_measured x.optimized x.summary.optimized
  implementations := rfl

/-- What nothing else follows from may be changed. -/
theorem Auditable.change {r : Report} (h : r.Auditable) (processor : UInt32) (evidence : Json)
    (profiles : Option (Keyed (Profile Double))) :
    Auditable { r with
      setup := { r.setup with processor := processor }
      evidence := evidence
      profiles := profiles } :=
  ⟨h.comparison, h.savings, h.id, h.baseline, h.optimized, h.implementations⟩

end Report

/-- A report of collected figures is built like any other, and then changed in two places. -/
theorem Collection.report_eq_ok {c : Collection} {baseline optimized : String}
    {dataset : Option DatasetIdentity} {stamp : Stamp} {r : Report}
    (h : c.report baseline optimized dataset stamp = .ok r) :
    ∃ b o, c.find baseline = .ok b ∧ c.find optimized = .ok o ∧
      r = { Report.build (c.inputs b o (dataset.getD placeholder)) stamp with
        setup := { Report.setupOf (c.inputs b o (dataset.getD placeholder)) with
          processor := b.cores.getD 1 }
        profiles := some c.profiles } := by
  unfold Collection.report at h
  obtain ⟨b, hb, h⟩ := bind_eq_ok.mp h
  obtain ⟨o, ho, h⟩ := bind_eq_ok.mp h
  exact ⟨b, o, hb, ho, (Except.ok.inj h).symm⟩

namespace Report

/-- **The reports that there are**: those that are built, those of collected figures, and those that
were written and read again. -/
inductive Produced : Report → Prop where
  /-- Reports on runs. -/
  | built (x : Inputs) (stamp : Stamp) : Produced (build x stamp)
  /-- Reports on collected figures. -/
  | converted {c : Collection} {baseline optimized : String} {dataset : Option DatasetIdentity}
      {stamp : Stamp} {r : Report} (h : c.report baseline optimized dataset stamp = .ok r) :
      Produced r
  /-- What is read of a report that was written. -/
  | reread {r r' : Report} (h : Produced r) (hread : ofText r.document = .ok r') : Produced r'

/-- **Every report** is auditable, and if it is readable, so is what is read of it. -/
theorem Produced.auditable {r : Report} (h : r.Produced) :
    r.Auditable ∧ (r.evidence.Proper → r.Readable →
      ∃ r', ofText r.document = .ok r' ∧ r'.Auditable) := by
  have haudit : r.Auditable := by
    -- The induction is on how the report has come about.
    induction h with
    | built x stamp => exact auditable_build x stamp
    | converted h =>
      obtain ⟨b, o, -, -, rfl⟩ := Collection.report_eq_ok h
      exact (auditable_build _ _).change _ _ _
    | reread _ hread ih =>
      -- Reading may change the evidence, but nothing follows from it.
      obtain ⟨evidence, rfl⟩ := eq_of_ofText_document hread
      exact ih.change _ _ _
  exact ⟨haudit, fun hevidence hreadable =>
    ⟨r, (readsWhen_readable hevidence).eq_ok hreadable, haudit⟩⟩

/-- A small report is auditable after it was written and read. -/
theorem small_report_is_auditable : ∃ r,
    ofText (build (.small ((0 : Nat) : Double)) .start).document = .ok r ∧ r.Auditable := by
  refine (Produced.built (.small ((0 : Nat) : Double)) .start).auditable.2 proper_noEvidence ?_
  exact ⟨by decide +kernel, by decide⟩

end Report

end PinnedBench
