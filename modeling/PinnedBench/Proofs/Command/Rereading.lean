import PinnedBench.Proofs.Command.Sessions
import PinnedBench.Proofs.Report.Sources

/-!
# Reports read again

Whatever the program has read is finite, but it also computes, and what it computes may leave the
range of numbers: a difference of two large durations does, or its projection onto a year. Such a
number is written as nothing. Evidence may be as deep as a document, and stands one level down in a
report. In both cases the command succeeds, and nothing reads its report again.

`Command.reread_of_execute` says when that happens: the report that a command has written is read
again exactly if what the command has computed for it is finite and its evidence leaves it a level.
-/

namespace PinnedBench

namespace Command

/-- The numbers of a report that its command has computed. -/
def computed : Command → Report → List Double
  | .convert _, r => r.made ++ r.derived
  | _, r => r.derived

/-- A report that its command can be sure of: what it has computed is finite, and the evidence
leaves the report a level. -/
structure Secures (c : Command) (r : Report) : Prop where
  /-- No number has overflowed, which would be written as `null`. -/
  finite : ∀ y ∈ c.computed r, y.isFinite = true
  /-- The reader has a level for the report and the rest for what it carries. -/
  shallow : r.evidence.depth ≤ 126

theorem secures_iff {c : Command} {r : Report} :
    c.Secures r ↔ (∀ y ∈ c.computed r, y.isFinite = true) ∧ r.evidence.depth ≤ 126 :=
  ⟨fun h => ⟨h.finite, h.shallow⟩, fun h => ⟨h.1, h.2⟩⟩

/-- What a report on runs is built from is loaded. -/
theorem loaded_inputs {a : ReportArguments} {s : RunSummary} {evidence : Json}
    {rates : Rates Double} {w : Workbench} (x : Descriptor)
    (hsummary : runOn (RunSummary.load a.summary) w = (.ok s, w))
    (hevidence : runOn (loadEvidence a.evidence) w = (.ok evidence, w))
    (hrates : a.RatesAre w rates) : (a.inputs s x evidence rates).Loaded where
  summary := by
    obtain ⟨⟨bytes, text, -, -, hs⟩, -⟩ := RunSummary.runOn_load_eq_ok.mp hsummary
    exact RunSummary.yields_ofText text s hs
  evidence := by
    intro j hj
    -- Evidence that is missing stands for a constant, and evidence that is read is a value of a
    -- document.
    obtain rfl := Option.some.inj hj
    obtain ⟨-, rfl | ⟨text, hread⟩⟩ := runOn_loadEvidence_of_ok hevidence
    · exact proper_noEvidence
    · exact (Json.yields_ofText text _ hread).1
  rates := by
    unfold ReportArguments.RatesAre at hrates
    split at hrates
    · obtain ⟨⟨bytes, text, -, -, hread⟩, -⟩ := runOn_readText_checked_eq_ok.mp hrates
      exact Rates.yields_ofToml text rates hread
    · exact hrates ▸ Rates.isFinite_standard

/-- A report is read again under the conditions of the command that has built it. -/
theorem Builds.reads {w : Workbench} {c : Command} {r : Report} (h : c.Builds w r) :
    ReadsWhen (c.Secures r) (Report.ofText r.document) r := by
  cases h with
  | @report a s x evidence rates hsummary _ hevidence hrates stamp =>
    have hloaded := loaded_inputs x hsummary hevidence hrates
    exact (Report.readsWhen_build hloaded stamp).congr (@secures_iff (.report a) _).symm
  | convert _ hreport =>
    refine (Report.readsWhen_converted hreport).congr ?_
    -- A conversion has no evidence, so only its numbers matter.
    obtain ⟨b, o, -, -, hr⟩ := Collection.report_eq_ok hreport
    have hevidence : r.evidence = noEvidence := by rw [hr]; rfl
    have hshallow : r.evidence.depth ≤ 126 := by rw [hevidence]; decide
    exact ⟨fun hfinite => ⟨hfinite, hshallow⟩, fun hsecures => hsecures.finite⟩

/-- **A report that a command has written** is read again exactly if the command can be sure of it.
In any other case it is refused as malformed, and never read as another report. -/
theorem reread_of_execute {c : Command} {target : Path} (hc : c.reportPath? = some target)
    {w w' : Workbench} (h : runOn c.execute w = (.ok (), w')) :
    ∃ r, c.Builds w r ∧ w'.store.read target = .ok r.document.toUTF8 ∧
      (Report.ofText r.document = .ok r ↔ c.Secures r) ∧
      (¬c.Secures r → ∃ reason, Report.ofText r.document = .error (.document "report" reason)) := by
  obtain ⟨r, hbuilds, hwritten⟩ := builds_of_execute hc h
  refine ⟨r, hbuilds, hwritten, hbuilds.reads.eq_ok_iff, fun hnot => ?_⟩
  -- What is not read again is refused, so it cannot be taken for another report.
  obtain ⟨e, he⟩ := hbuilds.reads.eq_error hnot
  obtain ⟨reason, rfl⟩ := Report.ofText_eq_error he
  exact ⟨reason, he⟩

end Command

/-! ### A report on a summary -/

/-- The smallest dataset, and a summary of runs on it. -/
def summaryStore (text : String) : Store where
  current := []
  nodes :=
    [(["metadata.json"], .file (Descriptor.unmeasured "a").document.toUTF8),
      (["summary.json"], .file text.toUTF8)]

/-- A report on that summary. -/
def plainReport : ReportArguments :=
  { ReportArguments.standard with
    summary := ⟨"summary.json"⟩
    descriptor := ⟨"metadata.json"⟩ }

theorem load_summaryStore {text : String} {s : RunSummary} (h : RunSummary.ofText text = .ok s) :
    runOn (RunSummary.load plainReport.summary) (Workbench.ofStore (summaryStore text)) =
      (.ok s, Workbench.ofStore (summaryStore text)) := by
  refine RunSummary.runOn_load_eq_ok.mpr ⟨⟨_, text, ?_, textOfBytes_toUTF8 _, h⟩, rfl⟩
  rfl

/-- A report is written whenever the summary can be read. -/
theorem plainReport_of_summary {text : String} {s : RunSummary}
    (h : RunSummary.ofText text = .ok s) :
    ∃ w', runOn (Command.report plainReport).execute (Workbench.ofStore (summaryStore text)) =
      (.ok (), w') := by
  have hload : runOn (Dataset.load plainReport.descriptor) (Workbench.ofStore (summaryStore text)) =
      (.ok (Descriptor.unmeasured "a"), Workbench.ofStore (summaryStore text)) :=
    Dataset.runOn_load_document (m := Workbench.ofStore (summaryStore text)) rfl
  refine ReportArguments.runOn_execute_of_ok (load_summaryStore h) hload rfl rfl fun report => ?_
  have hwritten : (summaryStore text).write plainReport.target report.document.toUTF8 =
      .ok ((summaryStore text).put ["report.json"] (.file report.document.toUTF8)) := rfl
  exact ⟨_, runOn_writeFile_eq_ok.mpr ⟨_, hwritten, rfl⟩⟩

/-- What such a report says follows from the samples of the summary. -/
theorem plainReport_builds {text : String} {s : RunSummary} {r : Report}
    (h : RunSummary.ofText text = .ok s)
    (hbuilds : (Command.report plainReport).Builds (Workbench.ofStore (summaryStore text)) r) :
    r.finding.comparison = .of s.baseline s.optimized ∧
      r.impact.savings = .project r.finding.comparison.delta .standard ∧
      r.evidence = noEvidence := by
  cases hbuilds with
  | @report _ s' x evidence rates hsummary _ hevidence hrates stamp =>
    -- What was loaded is what loading gives again.
    obtain rfl : s' = s :=
      Except.ok.inj (Prod.mk.inj (hsummary.symm.trans (load_summaryStore h))).1
    obtain rfl : evidence = noEvidence :=
      (Except.ok.inj (Prod.mk.inj hevidence).1).symm
    obtain rfl : rates = .standard := hrates
    exact ⟨rfl, rfl, rfl⟩

/-- The samples that a summary is read with. -/
def samplesOf (text : String) : Option (List Double × List Double) :=
  (RunSummary.ofText text).toOption.map fun s => (s.baseline, s.optimized)

/-- A text whose samples are known is the text of a summary. -/
theorem exists_summary {text : String} {baseline optimized : List Double}
    (h : samplesOf text = some (baseline, optimized)) :
    ∃ s, RunSummary.ofText text = .ok s ∧ s.baseline = baseline ∧ s.optimized = optimized := by
  unfold samplesOf at h
  cases hs : RunSummary.ofText text with
  | error e =>
    rw [hs] at h
    cases h
  | ok s =>
    rw [hs] at h
    obtain ⟨rfl, rfl⟩ := Prod.mk.inj (Option.some.inj h)
    exact ⟨s, rfl, rfl, rfl⟩

/-- A report with these numbers follows from a comparison. -/
def Comparison.derived (c : Comparison Double) : List Double :=
  (Finding.mk c "").figures ++ (Savings.project c.delta .standard).figures

/-- What is computed for such a report follows from the comparison of its samples. -/
theorem plainReport_secures {text : String} {s : RunSummary} {r : Report}
    (h : RunSummary.ofText text = .ok s)
    (hbuilds : (Command.report plainReport).Builds (Workbench.ofStore (summaryStore text)) r) :
    (Command.report plainReport).Secures r ↔
      ∀ y ∈ (Comparison.of s.baseline s.optimized).derived, y.isFinite = true := by
  obtain ⟨hcomparison, hsavings, hevidence⟩ := plainReport_builds h hbuilds
  have hderived : r.derived = (Comparison.of s.baseline s.optimized).derived := by
    rw [Report.derived, hsavings, ← hcomparison]
    rfl
  have hshallow : r.evidence.depth ≤ 126 := by rw [hevidence]; decide
  rw [Command.secures_iff, ← hderived]
  exact and_iff_left hshallow

/-- A summary with a sample on either side. -/
def smallSamples : String := "\x7b\"baseline_samples\": [2.0], \"optimized_samples\": [1.0]\x7d"

/-- A summary with a sample that is almost as large as numbers are. -/
def largeSample : String := "\x7b\"baseline_samples\": [1e308]\x7d"

/-- A report on two samples is read again. -/
theorem small_samples_are_reread : ∃ w' r,
    runOn (Command.report plainReport).execute (Workbench.ofStore (summaryStore smallSamples)) =
      (.ok (), w') ∧
    w'.store.read ⟨"report.json"⟩ = .ok (Report.document r).toUTF8 ∧
    Report.ofText r.document = .ok r := by
  have hsamples : samplesOf smallSamples =
      some ([⟨0x4000000000000000⟩], [⟨0x3ff0000000000000⟩]) := by decide +kernel
  obtain ⟨s, hs, hbaseline, hoptimized⟩ := exists_summary hsamples
  obtain ⟨w', hrun⟩ := plainReport_of_summary hs
  obtain ⟨r, hbuilds, hwritten, hreread, -⟩ :=
    Command.reread_of_execute (c := .report plainReport) rfl hrun
  refine ⟨w', r, hrun, hwritten, hreread.mpr ((plainReport_secures hs hbuilds).mpr ?_)⟩
  rw [hbaseline, hoptimized]
  decide +kernel

/-- A report on a sample of `1e308` milliseconds is written and not read again, although its summary
is accepted: the hours that are saved in a year are not finite. -/
theorem large_sample_is_refused : ∃ w' r reason,
    runOn (Command.report plainReport).execute (Workbench.ofStore (summaryStore largeSample)) =
      (.ok (), w') ∧
    w'.store.read ⟨"report.json"⟩ = .ok (Report.document r).toUTF8 ∧
    Report.ofText r.document = .error (.document "report" reason) := by
  have hsamples : samplesOf largeSample = some ([⟨0x7fe1ccf385ebc8a0⟩], []) := by decide +kernel
  obtain ⟨s, hs, hbaseline, hoptimized⟩ := exists_summary hsamples
  obtain ⟨w', hrun⟩ := plainReport_of_summary hs
  -- The command succeeds all the same and writes its report.
  obtain ⟨r, hbuilds, hwritten⟩ := Command.builds_of_execute (c := .report plainReport) rfl hrun
  -- The durations and their difference are finite, but not what the difference adds up to.
  have hinfinite : ¬(Command.report plainReport).Secures r := by
    rw [plainReport_secures hs hbuilds, hbaseline, hoptimized]
    decide +kernel
  obtain ⟨e, he⟩ := hbuilds.reads.eq_error hinfinite
  obtain ⟨reason, rfl⟩ := Report.ofText_eq_error he
  exact ⟨w', r, reason, hrun, hwritten, he⟩

end PinnedBench
