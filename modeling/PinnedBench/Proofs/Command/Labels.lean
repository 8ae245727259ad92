import PinnedBench.Proofs.Bench.Readback
import PinnedBench.Proofs.Command.Sessions
import PinnedBench.Proofs.Usage.Omissions

/-!
# Whose durations a report shows

A summary of runs keeps the durations of the first two implementations that were measured, and not
their names. A report takes the durations from the summary, and the names from its own command line.
`labels_of_run` follows both from a benchmark to any report on its summary:

* the durations of the two sides are those of the first two implementations of the benchmark;
* the names are those that the report is given, and the standard ones if it is given none.

So the names are right exactly if the report is given the right ones. A benchmark of two other
implementations and a report without names show that they may be wrong (`labels_of_others`).
-/

namespace PinnedBench

/-- The implementation that a record of runs names. -/
def RunRecord.label (x : RunRecord) : Implementation := ⟨x.implementation, x.variant⟩

/-- **A report on two implementations**, by the names in its records and in its setup. -/
structure Report.Labelled (r : Report) (baseline optimized : Implementation) : Prop where
  /-- The first record names the one, -/
  baseline_eq : r.baseline.label = baseline
  /-- the second record the other, -/
  optimized_eq : r.optimized.label = optimized
  /-- and the setup both in this order. -/
  implementations_eq : r.setup.implementations = [baseline, optimized]

namespace Report

variable {r : Report} {baseline optimized : Implementation}

/-- The names are those of two implementations exactly if these are the implementations. -/
theorem Labelled.iff (h : r.Labelled baseline optimized) {first second : Implementation} :
    r.Labelled first second ↔ baseline = first ∧ optimized = second := by
  constructor
  · intro h'
    exact ⟨h.baseline_eq.symm.trans h'.baseline_eq, h.optimized_eq.symm.trans h'.optimized_eq⟩
  · rintro ⟨rfl, rfl⟩
    exact h

/-- A report that is built names the implementations that it is given. -/
theorem labelled_build (inputs : Inputs) (stamp : Stamp) :
    (build inputs stamp).Labelled inputs.baseline inputs.optimized := ⟨rfl, rfl, rfl⟩

end Report

/-! ### Sessions -/

/-- A report on a summary shows its durations and the names that it is given. -/
theorem labelled_of_execute {r : ReportArguments} {w w' : Workbench}
    (h : runOn r.execute w = (.ok (), w')) :
    ∃ s report, runOn (RunSummary.load r.summary) w = (.ok s, w) ∧
      w'.store.read r.target = .ok (Report.document report).toUTF8 ∧
      report.Labelled r.baseline r.optimized ∧
      report.baseline.durations = s.baseline ∧ report.optimized.durations = s.optimized := by
  obtain ⟨report, hbuilds, hwritten⟩ := ReportArguments.builds_of_execute h
  cases hbuilds with
  | report hsummary hdataset hevidence hrates stamp =>
    exact ⟨_, _, hsummary, hwritten, Report.labelled_build _ stamp, rfl, rfl⟩

/-- The summary that a benchmark leaves is one of what it has measured. -/
theorem measures_of_execute {a : RunArguments} {w w' : Workbench}
    (h : runOn a.execute w = (.ok (), w')) :
    ∃ implementations o x c, Implementation.parseList a.implementations.toList =
        .ok implementations ∧
      Bench.Measures implementations a.configuration.runs o ∧
      w'.store.read (a.directory.join Bench.summaryName) =
        .ok (RunSummary.of o x c).document.toUTF8 := by
  obtain ⟨x, o, c, w₁, hmeasured, hconclude⟩ := conclude_of_execute h
  obtain ⟨implementations, waited, w₀, -, hparse, hc, hrun⟩ := run_of_measured hmeasured
  subst hc
  -- The summary is written once the runs are over, and only printing comes behind it.
  obtain ⟨paths, w₂, hsave, rfl⟩ := runOn_conclude_eq_ok.mp hconclude
  exact ⟨implementations, o, x, _, hparse, Bench.measures_of_run hrun,
    (Bench.reads_of_save hsave).2.2⟩

/-- **Whose durations a report shows.** A benchmark measures the implementations of its list, in
their order. Whatever report is built from its summary later, the durations of the two sides are
those of the first two implementations of the list, but the names are the ones that the report is
given, which are the standard ones if its command line leaves them out. So the names are those of
the implementations that were measured exactly if the report is given these. -/
theorem labels_of_run {a : RunArguments} {w₀ w₁ : Workbench}
    (h : runOn a.execute w₀ = (.ok (), w₁)) :
    ∃ (implementations : List Implementation) (o : Outcome) (document : ByteArray),
      Implementation.parseList a.implementations.toList = .ok implementations ∧
      o.map (·.implementation) = implementations ∧
      (∀ e ∈ o, e.durations =
        Workload.durations e.implementation.variant a.configuration.runs) ∧
      w₁.store.read (a.directory.join Bench.summaryName) = .ok document ∧
      ∀ (r : ReportArguments) (w₂ w₃ : Workbench), w₂.store.read r.summary = .ok document →
        runOn r.execute w₂ = (.ok (), w₃) →
        ∃ report, w₃.store.read r.target = .ok (Report.document report).toUTF8 ∧
          report.Labelled r.baseline r.optimized ∧
          (∀ words debug, Invocation.ofWords words = .ok ⟨.report r, debug⟩ →
            LeavesOut ReportArguments.labelNames words →
              report.Labelled ⟨"python", "naive"⟩ ⟨"python", "numpy"⟩) ∧
          ∀ first second rest, o = first :: second :: rest →
            report.baseline.durations = first.durations ∧
            report.optimized.durations = second.durations ∧
            (report.Labelled first.implementation second.implementation ↔
              r.baseline = first.implementation ∧ r.optimized = second.implementation) := by
  obtain ⟨implementations, o, x, c, hparse, hmeasures, hsummary⟩ := measures_of_execute h
  refine ⟨implementations, o, _, hparse, hmeasures.implementations_eq,
    fun e he => hmeasures.durations_eq he, hsummary, fun r w₂ w₃ hkept hreport => ?_⟩
  obtain ⟨s, report, hs, hwritten, hlabelled, hbaseline, hoptimized⟩ :=
    labelled_of_execute hreport
  refine ⟨report, hwritten, hlabelled, fun words debug hwords hleft => ?_, ?_⟩
  · -- A command line without the options has the standard names.
    obtain ⟨hstandard, hstandard'⟩ := ReportArguments.standard_of_leavesOut hwords hleft
    exact hlabelled.iff.mpr ⟨hstandard, hstandard'⟩
  · rintro first second rest rfl
    obtain ⟨⟨bytes, text, hread, htext, hs⟩, -⟩ := RunSummary.runOn_load_eq_ok.mp hs
    -- The summary that is read is the one that was written.
    obtain rfl := Except.ok.inj (hkept.symm.trans hread)
    obtain rfl := Except.ok.inj ((textOfBytes_toUTF8 _).symm.trans htext)
    obtain ⟨hfirst, hsecond⟩ := RunSummary.durations_of_ofText hs
    exact ⟨hbaseline.trans hfirst, hoptimized.trans hsecond, hlabelled.iff⟩

/-! ### A report without names -/

/-- A benchmark of two implementations on the dataset that is locked. -/
def lockedComparison : RunArguments := { lockedRun with implementations := "cpp-a,rust-b" }

theorem parseList_lockedComparison :
    Implementation.parseList lockedComparison.implementations.toList =
      .ok [⟨"cpp", "a"⟩, ⟨"rust", "b"⟩] := by decide

/-- The words of a report on the same dataset, without names. -/
def namelessWords : List String :=
  ["report", "--runner-summary", "runner/summary.json", "--metadata", "data/metadata.json"]

/-- What these words say. -/
def namelessReport : ReportArguments :=
  { ReportArguments.standard with
    summary := ⟨"runner/summary.json"⟩
    descriptor := ⟨"data/metadata.json"⟩ }

theorem ofWords_namelessWords :
    Invocation.ofWords namelessWords = .ok ⟨.report namelessReport, false⟩ := by decide +kernel

theorem leavesOut_namelessWords : LeavesOut ReportArguments.labelNames namelessWords := by
  decide +kernel

/-- A benchmark of two implementations is run, and a report without names shows their durations
under other names. -/
theorem lockedComparison_is_misnamed :
    ∃ (w : Workbench) (document : ByteArray) (first second : Measurement),
      runOn lockedComparison.execute (Workbench.ofStore twoDatasets) = (.ok (), w) ∧
      w.store.read ⟨"runner/summary.json"⟩ = .ok document ∧
      first.implementation = ⟨"cpp", "a"⟩ ∧ second.implementation = ⟨"rust", "b"⟩ ∧
      ∀ w₂ w₃ : Workbench, w₂.store.read namelessReport.summary = .ok document →
        runOn namelessReport.execute w₂ = (.ok (), w₃) →
        ∃ report, w₃.store.read namelessReport.target = .ok (Report.document report).toUTF8 ∧
          report.Labelled ⟨"python", "naive"⟩ ⟨"python", "numpy"⟩ ∧
          report.baseline.durations = first.durations ∧
          report.optimized.durations = second.durations ∧
          ¬report.Labelled first.implementation second.implementation := by
  have hload : runOn (Dataset.load lockedComparison.descriptor) (Workbench.ofStore twoDatasets) =
      (.ok (Descriptor.unmeasured "a"), Workbench.ofStore twoDatasets) :=
    Dataset.runOn_load_document (m := Workbench.ofStore twoDatasets) rfl
  obtain ⟨w, hrun⟩ := RunArguments.runOn_execute_of_ok hload parseList_lockedComparison rfl
    lockHolds_twoDatasets fun o c w' hw => ⟨_, _, save_twoDatasets o _ c hw⟩
  obtain ⟨implementations, o, document, hparse, himplementations, -, hsummary, hreports⟩ :=
    labels_of_run hrun
  obtain rfl := Except.ok.inj (parseList_lockedComparison.symm.trans hparse)
  -- The outcome has one measurement for each of the two implementations.
  obtain ⟨first, o, rfl, hfirst, ho⟩ := List.map_eq_cons_iff.mp himplementations
  obtain ⟨second, o, rfl, hsecond, ho⟩ := List.map_eq_cons_iff.mp ho
  obtain rfl := List.map_eq_nil_iff.mp ho
  refine ⟨w, document, first, second, hrun, hsummary, hfirst, hsecond, ?_⟩
  intro w₂ w₃ hkept hreport
  obtain ⟨report, hwritten, -, hnameless, hsides⟩ := hreports namelessReport w₂ w₃ hkept hreport
  obtain ⟨hbaseline, hoptimized, hlabelled⟩ := hsides first second [] rfl
  refine ⟨report, hwritten, hnameless _ _ ofWords_namelessWords leavesOut_namelessWords,
    hbaseline, hoptimized, ?_⟩
  rw [hlabelled, hfirst, hsecond]
  decide

/-- A report may name other implementations than those that were measured: two other ones are
measured, and a report is built from their summary without names. What is refuted is the claim about
all sessions of the program, whatever the noise of their runs may be; the session that refutes it
has none. -/
theorem labels_of_others :
    ¬∀ (noise : Nat → Double) (a : RunArguments) (first second : Implementation)
        (rest : List Implementation) (x : Descriptor) (o : Outcome) (words : List String)
        (debug : Bool) (r : ReportArguments) (report : Report) (w₀ w₁ w₂ : Workbench),
      Implementation.parseList a.implementations.toList = .ok (first :: second :: rest) →
      a.RunsWith noise x o w₀ w₁ → r.summary = a.directory.join Bench.summaryName →
      Invocation.ofWords words = .ok ⟨.report r, debug⟩ →
      LeavesOut ReportArguments.labelNames words →
      runOn r.execute w₁ = (.ok (), w₂) →
      w₂.store.read r.target = .ok report.document.toUTF8 →
      report.Labelled first second := by
  intro hclaim
  obtain ⟨o, o', t, w₁, hruns, ht, hstore⟩ :=
    runsWith_twoDatasets rfl rfl rfl parseList_lockedComparison
  obtain ⟨-, w₂, hreport⟩ := report_of_results (r := namelessReport)
    (y := Descriptor.unmeasured "a") ht hstore rfl rfl rfl rfl (by rw [hstore]; rfl)
  -- The report is labelled as its arguments say, which are the standard ones.
  obtain ⟨s, report, -, hwritten, hlabelled, -⟩ := labelled_of_execute hreport
  have hnames := hclaim _ _ _ _ _ _ _ namelessWords false namelessReport report _ _ _
    parseList_lockedComparison hruns rfl ofWords_namelessWords leavesOut_namelessWords hreport
    hwritten
  obtain ⟨hbaseline, -⟩ := hlabelled.iff.mp hnames
  exact absurd hbaseline (by decide)

end PinnedBench
