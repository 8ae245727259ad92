import PinnedBench.Proofs.Bench.Noise
import PinnedBench.Proofs.Command.Reports

/-!
# Sessions of commands

A session runs a benchmark, and builds a report from its summary later on, when the files may have
changed in any way. `report_of_run` says what becomes of the dataset on the way:

* the summary carries the descriptor that the benchmark was run with;
* the report takes its durations from the summary, and its dataset from the descriptor it is given.

Nothing compares the two, so a report may name a dataset on which nothing was measured. Two
descriptors of which only one is locked show that (`report_mixes_datasets`).

Whether a report can be built depends on the times that were measured: a time that is not finite is
written as `null`, and the summary is refused. So what is shown by a session down to its report is
shown with the noise of the runs left open (`RunArguments.RunsWith`).
-/

namespace PinnedBench

/-! ### Benchmarks -/

/-- **A benchmark that has been run** leaves a summary that carries the descriptor it has loaded. -/
theorem summary_of_run {a : RunArguments} {w w' : Workbench}
    (h : runOn a.execute w = (.ok (), w')) :
    ∃ x o c, runOn (Dataset.load a.descriptor) w = (.ok x, w) ∧
      w'.store.read (a.directory.join Bench.summaryName) =
        .ok (RunSummary.of o x c).document.toUTF8 := by
  obtain ⟨x, o, c, w₁, hmeasured, hconclude⟩ := conclude_of_execute h
  -- The summary is made with the descriptor that was loaded first.
  obtain ⟨-, -, -, hload, -⟩ := run_of_measured hmeasured
  obtain ⟨paths, w₂, hsave, rfl⟩ := runOn_conclude_eq_ok.mp hconclude
  -- What is printed in the end leaves the files as they are.
  exact ⟨x, o, c, hload, (Bench.reads_of_save hsave).2.2⟩

/-- A benchmark comes to a measurement for each implementation of its list when its arguments are in
order and its lock holds. It leaves the files as they are. -/
theorem RunArguments.runOn_measured_of_ok {a : RunArguments} {x : Descriptor}
    {implementations : List Implementation} {w : Workbench}
    (hload : runOn (Dataset.load a.descriptor) w = (.ok x, w))
    (hparse : Implementation.parseList a.implementations.toList = .ok implementations)
    (hvalid : a.configuration.validate = .ok ())
    (hlock : Dataset.LockHolds w.store (datasetDirectory a.descriptor) x.hash) :
    ∃ waited c, ∃ o : Outcome, ∃ w', c = { a.configuration with waited := waited } ∧
      (a.configuration.settles = false → waited = ((0 : Nat) : Double)) ∧
      o = ((implementations.mapM (Bench.measure c) : StateM Workbench Outcome) w').1 ∧
      runOn a.measured w = (.ok (x, c, o), w') ∧ w'.store = w.store := by
  obtain ⟨w₁, hsay₁, hstore₁⟩ := runOn_say
    (s!"Dataset: N={x.n}, M={x.m}, D={x.d} (" ++ digestStart x.hash ++ "...)") w
  obtain ⟨waited, hsettle, hzero⟩ := runOn_settle a.configuration (1000 * a.settleLimit.toNat) w₁
  obtain ⟨w₂, hsay₂, hstore₂⟩ := runOn_say
    s!"Benchmarking {implementations.length} implementations:" w₁
  obtain ⟨w₃, hsay₃, hstore₃⟩ := runOn_sayAll (implementations.map fun i => "  - " ++ i.key) w₂
  -- What is printed before the run leaves the lock as it is.
  have hlock₁ : Dataset.LockHolds w₁.store (datasetDirectory a.descriptor) x.hash := hstore₁ ▸ hlock
  have hverify : runOn (Dataset.verifyLock x (datasetDirectory a.descriptor)) w₁ = (.ok (), w₁) :=
    Dataset.runOn_verifyLock_eq_ok.mpr ⟨hlock₁, rfl⟩
  have hlock₃ : Dataset.LockHolds w₃.store (datasetDirectory a.descriptor) x.hash := by
    rwa [hstore₃, hstore₂]
  have hrun := Bench.runOn_run_workbench (c := { a.configuration with waited := waited })
    implementations hvalid hlock₃
  -- One step after the other succeeds.
  refine ⟨waited, _, _, w₃, rfl, hzero, rfl, ?_, by rw [hstore₃, hstore₂, hstore₁]⟩
  rw [RunArguments.measured]
  refine (runOn_bind_of_ok (runOn_during_eq_ok.mpr hload)).trans ?_
  refine (runOn_bind_of_ok hsay₁).trans ?_
  refine (runOn_bind_of_ok
    (runOn_plainly_eq_ok.mpr (runOn_checked_eq_ok.mpr ⟨hparse, rfl⟩))).trans ?_
  refine (runOn_bind_of_ok (runOn_during_eq_ok.mpr hverify)).trans ?_
  refine (runOn_bind_of_ok hsettle).trans ?_
  refine (runOn_bind_of_ok hsay₂).trans ?_
  refine (runOn_bind_of_ok hsay₃).trans ?_
  exact runOn_bind_of_ok (runOn_plainly_eq_ok.mpr hrun)

/-- A benchmark is run when its arguments are in order, its lock holds and its results can be
saved. -/
theorem RunArguments.runOn_execute_of_ok {a : RunArguments} {x : Descriptor}
    {implementations : List Implementation} {w : Workbench}
    (hload : runOn (Dataset.load a.descriptor) w = (.ok x, w))
    (hparse : Implementation.parseList a.implementations.toList = .ok implementations)
    (hvalid : a.configuration.validate = .ok ())
    (hlock : Dataset.LockHolds w.store (datasetDirectory a.descriptor) x.hash)
    (hsave : ∀ o c (w' : Workbench), w'.store = w.store →
      ∃ paths w'', runOn (Bench.save o a.directory x c) w' = (.ok paths, w'')) :
    ∃ w', runOn a.execute w = (.ok (), w') := by
  obtain ⟨-, c, o, w₁, -, -, -, hmeasured, hstore⟩ :=
    RunArguments.runOn_measured_of_ok hload hparse hvalid hlock
  obtain ⟨paths, w₂, hsaved⟩ := hsave o c w₁ hstore
  exact ⟨_, (runOn_bind_of_ok hmeasured).trans (runOn_conclude_eq_ok.mpr ⟨paths, w₂, hsaved, rfl⟩)⟩

/-- **A session that runs a benchmark**, with the noise of its runs left open: everything is done as
the program does it, but what is kept are the times with the given noise. -/
def RunArguments.RunsWith (a : RunArguments) (noise : Nat → Double) (x : Descriptor) (o : Outcome)
    (w w' : Workbench) : Prop :=
  ∃ c w₁, runOn a.measured w = (.ok (x, c, o), w₁) ∧
    runOn (a.conclude x c (o.withNoise noise)) w₁ = (.ok (), w')

/-- With the noise of the program these are the sessions of the program. -/
theorem RunArguments.exists_runsWith_noise {a : RunArguments} {w w' : Workbench} :
    (∃ x o, a.RunsWith Workload.noise x o w w') ↔ runOn a.execute w = (.ok (), w') := by
  constructor
  · rintro ⟨x, o, c, w₁, hmeasured, hconclude⟩
    obtain ⟨implementations, waited, w₀, -, -, -, hrun⟩ := run_of_measured hmeasured
    -- What a benchmark measures has the noise of the program already.
    rw [Bench.withNoise_of_run hrun] at hconclude
    exact (runOn_bind_of_ok hmeasured).trans hconclude
  · intro h
    obtain ⟨x, o, c, w₁, hmeasured, hconclude⟩ := conclude_of_execute h
    obtain ⟨implementations, waited, w₀, -, -, -, hrun⟩ := run_of_measured hmeasured
    exact ⟨x, o, c, w₁, hmeasured, (Bench.withNoise_of_run hrun).symm ▸ hconclude⟩

/-! ### Reports -/

/-- **A report that has been built** names the descriptor that it has loaded, and takes the
durations from the summary that it has loaded. -/
theorem report_of_execute {r : ReportArguments} {w w' : Workbench}
    (h : runOn r.execute w = (.ok (), w')) :
    ∃ s x report, runOn (RunSummary.load r.summary) w = (.ok s, w) ∧
      runOn (Dataset.load r.descriptor) w = (.ok x, w) ∧
      w'.store.read r.target = .ok (Report.document report).toUTF8 ∧
      report.provenance.dataset = x.identity ∧
      report.baseline.durations = s.baseline ∧ report.optimized.durations = s.optimized := by
  obtain ⟨report, hbuilds, hwritten⟩ := ReportArguments.builds_of_execute h
  cases hbuilds with
  | report hsummary hload hevidence hrates stamp =>
    exact ⟨_, _, _, hsummary, hload, hwritten, rfl, rfl, rfl⟩

/-- A report without evidence and rates of its own is built whenever its files can be loaded and it
can be written. -/
theorem ReportArguments.runOn_execute_of_ok {r : ReportArguments} {s : RunSummary}
    {x : Descriptor} {w : Workbench}
    (hsummary : runOn (RunSummary.load r.summary) w = (.ok s, w))
    (hload : runOn (Dataset.load r.descriptor) w = (.ok x, w)) (hevidence : r.evidence = none)
    (hrates : r.rates = none)
    (hwrite : ∀ report : Report, ∃ w', runOn (report.write r.target) w = (.ok (), w')) :
    ∃ w', runOn r.execute w = (.ok (), w') := by
  have hloadEvidence : runOn (loadEvidence r.evidence) w = (.ok noEvidence, w) := by
    rw [hevidence]
    rfl
  -- Whatever it is built from, the report can be written, and so it can be delivered.
  have hdeliver (inputs : Inputs) :
      ∃ w', runOn (ExceptT.lift Host.stamp >>= fun stamp =>
        (Report.build inputs stamp).deliver r.target) w = (.ok (), w') := by
    have hstamp : runOn (ExceptT.lift Host.stamp : ExceptT Failure (StateM Workbench) Stamp) w =
        (.ok w.stamp, w) := rfl
    rw [runOn_bind_of_ok hstamp]
    obtain ⟨w₁, hwritten⟩ := hwrite (Report.build inputs w.stamp)
    exact runOn_deliver_of_ok hwritten
  obtain ⟨w', hdelivered⟩ := hdeliver
    { Inputs.of s x.identity r.baseline r.optimized with
      evidence := some noEvidence
      commandLine := r.commandLine
      rates := .standard }
  refine ⟨w', ?_⟩
  rw [ReportArguments.execute]
  refine (runOn_bind_of_ok (runOn_during_eq_ok.mpr hsummary)).trans ?_
  refine (runOn_bind_of_ok (runOn_during_eq_ok.mpr hload)).trans ?_
  refine (runOn_bind_of_ok (runOn_during_eq_ok.mpr hloadEvidence)).trans ?_
  rw [hrates]
  refine (runOn_bind_of_ok (runOn_pure Rates.standard w)).trans ?_
  exact hdelivered

/-! ### Two datasets and one lock -/

/-- A descriptor of the smallest dataset, with a digest that is not one of any arrays. -/
def Descriptor.unmeasured (hash : String) : Descriptor where
  hash := hash
  n := 1
  m := 1
  d := 1
  seed := 0
  embeddingsFile := Descriptor.embeddingsName
  axesFile := Descriptor.axesName
  embeddingsShape := (1, 1)
  axesShape := (1, 1)
  elementType := "float64"
  sizes := ⟨8, 8, 16⟩

/-- The files of a dataset that is locked, and the descriptor of another one. -/
def twoDatasets : Store where
  current := []
  nodes :=
    [(["data"], .directory),
      (["data", "metadata.json"], .file (Descriptor.unmeasured "a").document.toUTF8),
      (["data", "dataset.lock"], .file "a".toUTF8),
      (["other.json"], .file (Descriptor.unmeasured "b").document.toUTF8)]

theorem lockHolds_twoDatasets : Dataset.LockHolds twoDatasets ⟨"data"⟩ "a" :=
  ⟨_, _, rfl, textOfBytes_toUTF8 "a", by decide⟩

/-- The two datasets with the results of a benchmark. -/
def withResults (table summary : ByteArray) : Store where
  current := []
  nodes :=
    (["runner", "summary.json"], .file summary) :: (["runner", "results.csv"], .file table) ::
      (["runner"], .directory) :: twoDatasets.nodes

/-- Results can be saved beside the two datasets. -/
theorem save_twoDatasets (o : Outcome) (x : Descriptor) (c : Configuration) {w : Workbench}
    (hw : w.store = twoDatasets) :
    runOn (Bench.save o ⟨"runner"⟩ x c) w =
      (.ok (⟨"runner/results.csv"⟩, ⟨"runner/summary.json"⟩),
        withStore w
          (withResults o.table.toCsv.toUTF8 (RunSummary.of o x c).document.toUTF8)) := by
  have hmake : (store w).makeDirectories ⟨"runner"⟩ =
      .ok (twoDatasets.put ["runner"] .directory) := by
    rw [store_workbench, hw]
    rfl
  exact Bench.runOn_save_of_ok hmake rfl rfl

/-! ### The dataset of a report -/

/-- The digest that the document of a report names. -/
def Report.namedHash (r : Report) : Option Json :=
  ((r.toJson.member? "meta").bind (Json.member? "dataset")).bind (Json.member? "hash_sha256")

theorem Report.namedHash_eq (r : Report) :
    r.namedHash = some (.string r.provenance.dataset.hash) := rfl

/-- **What a report says about its dataset.** A benchmark that has been run leaves a summary that
carries the digest of the descriptor it was run with. Whenever a report is built from that summary
later, in whatever state the files are then, its durations are those of the summary, but the dataset
it names is that of the descriptor it is given. So the digest of the report is the recorded one
exactly when the two descriptors have the same digest. -/
theorem report_of_run {a : RunArguments} {w₀ w₁ : Workbench}
    (h : runOn a.execute w₀ = (.ok (), w₁)) :
    ∃ x document, runOn (Dataset.load a.descriptor) w₀ = (.ok x, w₀) ∧
      w₁.store.read (a.directory.join Bench.summaryName) = .ok document ∧
      ∀ (r : ReportArguments) (w₂ w₃ : Workbench), w₂.store.read r.summary = .ok document →
        runOn r.execute w₂ = (.ok (), w₃) →
        ∃ y s report, runOn (Dataset.load r.descriptor) w₂ = (.ok y, w₂) ∧
          runOn (RunSummary.load r.summary) w₂ = (.ok s, w₂) ∧
          s.dataset.bind Descriptor.recordedHash = some (.string x.hash) ∧
          w₃.store.read r.target = .ok (Report.document report).toUTF8 ∧
          report.provenance.dataset = y.identity ∧
          report.baseline.durations = s.baseline ∧ report.optimized.durations = s.optimized ∧
          (report.namedHash = s.dataset.bind Descriptor.recordedHash ↔ y.hash = x.hash) := by
  obtain ⟨x, o, c, hload, hsummary⟩ := summary_of_run h
  refine ⟨x, _, hload, hsummary, fun r w₂ w₃ hkept hreport => ?_⟩
  obtain ⟨s, y, report, hs, hy, hwritten, hdataset, hbaseline, hoptimized⟩ :=
    report_of_execute hreport
  have hrecorded : s.dataset.bind Descriptor.recordedHash = some (.string x.hash) := by
    obtain ⟨⟨bytes, text, hread, htext, hs⟩, -⟩ := RunSummary.runOn_load_eq_ok.mp hs
    -- The summary that is read is the one that was written.
    obtain rfl := Except.ok.inj (hkept.symm.trans hread)
    obtain rfl := Except.ok.inj ((textOfBytes_toUTF8 _).symm.trans htext)
    rw [RunSummary.dataset_of_ofText hs]
    exact x.recordedHash_sorted
  refine ⟨y, s, report, hy, hs, hrecorded, hwritten, hdataset, hbaseline, hoptimized, ?_⟩
  have hnamed : report.provenance.dataset.hash = y.hash := congrArg DatasetIdentity.hash hdataset
  rw [hrecorded, Report.namedHash_eq, hnamed, Option.some.injEq, Json.string.injEq]

/-- A benchmark of the dataset that is locked. -/
def lockedRun : RunArguments :=
  { RunArguments.standard with
    descriptor := ⟨"data/metadata.json"⟩
    implementations := "python-naive" }

/-- A benchmark of a locked dataset is run, and leaves the digest of that dataset to its reports. -/
theorem lockedRun_leaves_digest : ∃ (w : Workbench) (document : ByteArray),
    runOn lockedRun.execute (Workbench.ofStore twoDatasets) = (.ok (), w) ∧
      w.store.read ⟨"runner/summary.json"⟩ = .ok document ∧
      ∀ (r : ReportArguments) (w₂ w₃ : Workbench), w₂.store.read r.summary = .ok document →
        runOn r.execute w₂ = (.ok (), w₃) →
        ∃ s, runOn (RunSummary.load r.summary) w₂ = (.ok s, w₂) ∧
          s.dataset.bind Descriptor.recordedHash = some (.string "a") := by
  have hload : runOn (Dataset.load lockedRun.descriptor) (Workbench.ofStore twoDatasets) =
      (.ok (Descriptor.unmeasured "a"), Workbench.ofStore twoDatasets) :=
    Dataset.runOn_load_document (m := Workbench.ofStore twoDatasets) rfl
  have hparse : Implementation.parseList lockedRun.implementations.toList =
      .ok [⟨"python", "naive"⟩] := by decide
  obtain ⟨w, hrun⟩ := RunArguments.runOn_execute_of_ok hload hparse rfl lockHolds_twoDatasets
    fun o c w' hw => ⟨_, _, save_twoDatasets o _ c hw⟩
  obtain ⟨x, document, hx, hsummary, hreports⟩ := report_of_run hrun
  obtain rfl : x = Descriptor.unmeasured "a" :=
    Except.ok.inj (Prod.mk.inj (hx.symm.trans hload)).1
  refine ⟨w, document, hrun, hsummary, fun r w₂ w₃ hkept hreport => ?_⟩
  obtain ⟨y, s, report, -, hs, hrecorded, -⟩ := hreports r w₂ w₃ hkept hreport
  exact ⟨s, hs, hrecorded⟩

/-- A report on the other dataset, from the results of the benchmark. -/
def mixedReport : ReportArguments :=
  { ReportArguments.standard with
    summary := ⟨"runner/summary.json"⟩
    descriptor := ⟨"other.json"⟩ }

/-- A report without evidence and rates of its own is built beside any results that can be read. -/
theorem report_of_results {r : ReportArguments} {o : Outcome} {x y : Descriptor} {c : Configuration}
    {t : RunSummary} {w : Workbench} (ht : RunSummary.ofText (RunSummary.of o x c).document = .ok t)
    (hw : w.store = withResults o.table.toCsv.toUTF8 (RunSummary.of o x c).document.toUTF8)
    (hsummary : r.summary = ⟨"runner/summary.json"⟩) (htarget : r.target = ⟨"report.json"⟩)
    (hevidence : r.evidence = none) (hrates : r.rates = none)
    (hdescriptor : w.store.read r.descriptor = .ok y.document.toUTF8) :
    runOn (Dataset.load r.descriptor) w = (.ok y, w) ∧
      ∃ w', runOn r.execute w = (.ok (), w') := by
  have hloaded : runOn (RunSummary.load r.summary) w = (.ok t, w) := by
    refine RunSummary.runOn_load_eq_ok.mpr ⟨⟨_, _, ?_, textOfBytes_toUTF8 _, ht⟩, rfl⟩
    rw [hsummary, store_workbench, hw]
    rfl
  have hload : runOn (Dataset.load r.descriptor) w = (.ok y, w) :=
    Dataset.runOn_load_document hdescriptor
  -- Nothing is in the way of the report in the directory above it.
  have hwrite (report : Report) : ∃ w', runOn (report.write r.target) w = (.ok (), w') := by
    have hwritten : (store w).write ⟨"report.json"⟩ report.document.toUTF8 =
        .ok (w.store.put ["report.json"] (.file report.document.toUTF8)) := by
      rw [store_workbench, hw]
      rfl
    rw [htarget]
    exact ⟨_, runOn_writeFile_eq_ok.mpr ⟨_, hwritten, rfl⟩⟩
  exact ⟨hload, ReportArguments.runOn_execute_of_ok hloaded hload hevidence hrates hwrite⟩

/-- A report on the other dataset is built beside any results that can be read. -/
theorem mixedReport_of_results {o : Outcome} {x : Descriptor} {c : Configuration} {t : RunSummary}
    {w : Workbench} (ht : RunSummary.ofText (RunSummary.of o x c).document = .ok t)
    (hw : w.store = withResults o.table.toCsv.toUTF8 (RunSummary.of o x c).document.toUTF8) :
    runOn (Dataset.load mixedReport.descriptor) w = (.ok (Descriptor.unmeasured "b"), w) ∧
      ∃ w', runOn mixedReport.execute w = (.ok (), w') := by
  refine report_of_results ht hw rfl rfl rfl rfl ?_
  rw [hw]
  rfl

/-- Beside the two datasets any benchmark of the one that is locked is run, and without noise its
summary can be read. -/
theorem runsWith_twoDatasets {a : RunArguments} {implementations : List Implementation}
    (hdescriptor : a.descriptor = ⟨"data/metadata.json"⟩) (hdirectory : a.directory = ⟨"runner"⟩)
    (hconfiguration : a.configuration = .standard)
    (hparse : Implementation.parseList a.implementations.toList = .ok implementations) :
    ∃ o o' t w, a.RunsWith calm (Descriptor.unmeasured "a") o (Workbench.ofStore twoDatasets) w ∧
      RunSummary.ofText (RunSummary.of o' (Descriptor.unmeasured "a") .standard).document = .ok t ∧
      w.store = withResults o'.table.toCsv.toUTF8
        (RunSummary.of o' (Descriptor.unmeasured "a") .standard).document.toUTF8 := by
  have hload : runOn (Dataset.load a.descriptor) (Workbench.ofStore twoDatasets) =
      (.ok (Descriptor.unmeasured "a"), Workbench.ofStore twoDatasets) := by
    rw [hdescriptor]
    exact Dataset.runOn_load_document (m := Workbench.ofStore twoDatasets) rfl
  obtain ⟨waited, c, o, w₁, hc, hwaited, ho, hmeasured, hstore⟩ :=
    RunArguments.runOn_measured_of_ok hload hparse (by rw [hconfiguration]; rfl)
      (by rw [hdescriptor]; exact lockHolds_twoDatasets)
  -- Nothing is waited for, so the configuration is the standard one.
  obtain rfl : c = .standard := by
    rw [hc, hwaited (by rw [hconfiguration]; rfl), hconfiguration]
    rfl
  have hfigures := Bench.isFinite_figures_calm (o := o)
    (ho ▸ Bench.profile_eq_none rfl implementations w₁)
  have hzero : Configuration.standard.waited.isFinite = true := by decide +kernel
  have hsave := save_twoDatasets (o.withNoise calm) (Descriptor.unmeasured "a") .standard hstore
  rw [← hdirectory] at hsave
  have hread := RunSummary.ofText_of (fun y hy => ⟨hfigures y hy, y.readsBack⟩)
    ⟨hzero, Double.readsBack _⟩ (Descriptor.unmeasured "a")
  refine ⟨o, o.withNoise calm, _, _,
    ⟨.standard, w₁, hmeasured, runOn_conclude_eq_ok.mpr ⟨_, _, hsave, rfl⟩⟩, hread, ?_⟩
  -- What is printed at the end does not touch the files.
  exact StoreMachine.store_withStore w₁ _

/-- A report may name another dataset than the one that was run: a benchmark of the locked dataset
is run, and a report is built from its summary with the descriptor of the other one. What is refuted
is the claim about all sessions of the program, whatever the noise of their runs may be; the session
that refutes it has none. -/
theorem report_mixes_datasets :
    ¬∀ (noise : Nat → Double) (a : RunArguments) (x : Descriptor) (o : Outcome)
        (r : ReportArguments) (report : Report) (w₀ w₁ w₂ : Workbench),
      a.RunsWith noise x o w₀ w₁ → r.summary = a.directory.join Bench.summaryName →
      runOn r.execute w₁ = (.ok (), w₂) →
      w₂.store.read r.target = .ok report.document.toUTF8 →
      report.namedHash = some (.string x.hash) := by
  intro hclaim
  have hparse : Implementation.parseList lockedRun.implementations.toList =
      .ok [⟨"python", "naive"⟩] := by decide
  obtain ⟨o, o', t, w₁, hruns, ht, hstore⟩ := runsWith_twoDatasets rfl rfl rfl hparse
  -- The summary can be read, so the report is built, on the descriptor of the other dataset.
  obtain ⟨hload, w₂, hreport⟩ := mixedReport_of_results ht hstore
  obtain ⟨s, y, report, -, hy, hwritten, hdataset, -⟩ := report_of_execute hreport
  obtain rfl : y = Descriptor.unmeasured "b" :=
    Except.ok.inj (Prod.mk.inj (hy.symm.trans hload)).1
  have hnamed := hclaim _ _ _ _ mixedReport report _ _ _ hruns rfl hreport hwritten
  rw [Report.namedHash_eq, hdataset] at hnamed
  have hdigests : "b" = "a" := Json.string.inj (Option.some.inj hnamed)
  exact absurd hdigests (by decide)

end PinnedBench
