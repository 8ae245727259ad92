import PinnedBench.Proofs.Command.Steps

/-!
# Commands that write reports

Two commands write reports: one builds them from a benchmark, the other from collected figures. When
such a command has succeeded, its file holds the document of the report that it has built
(`Command.builds_of_execute`), and the report is built from what the command has loaded
(`Command.Builds`). Loading leaves the files as they are, so all of it is loaded from the same
files.
-/

namespace PinnedBench

/-! ### Evidence and constants -/

/-- Evidence that has been loaded is none, or is read from a text. -/
theorem runOn_loadEvidence_of_ok {path : Option Path} {j : Json} {w w' : Workbench}
    (h : runOn (loadEvidence path) w = (.ok j, w')) :
    w' = w ∧ (j = noEvidence ∨ ∃ text, Json.ofText text = .ok j) := by
  cases path with
  | none =>
    obtain ⟨hj, rfl⟩ := Prod.mk.inj h
    exact ⟨rfl, .inl (Except.ok.inj hj).symm⟩
  | some path =>
    obtain ⟨present, w₁, hpresent, h₁⟩ := runOn_bind_eq_ok.mp h
    obtain ⟨-, rfl⟩ := Prod.mk.inj hpresent
    -- A file that is not there counts as no evidence.
    cases present with
    | true =>
      obtain ⟨⟨bytes, text, -, -, hread⟩, rfl⟩ := runOn_readText_checked_eq_ok.mp h₁
      exact ⟨rfl, .inr ⟨text, hread⟩⟩
    | false =>
      obtain ⟨hj, rfl⟩ := Prod.mk.inj h₁
      exact ⟨rfl, .inl (Except.ok.inj hj).symm⟩

/-- The constants that a report is told of, or the standard ones. -/
def ReportArguments.RatesAre (a : ReportArguments) (w : Workbench) (rates : Rates Double) : Prop :=
  match a.rates with
  | some path => runOn (Rates.load path) w = (.ok rates, w)
  | none => rates = .standard

/-- What a report on runs is built from, once all of it is loaded. -/
def ReportArguments.inputs (a : ReportArguments) (s : RunSummary) (x : Descriptor) (evidence : Json)
    (rates : Rates Double) : Inputs :=
  { Inputs.of s x.identity a.baseline a.optimized with
    evidence := some evidence
    commandLine := a.commandLine
    rates := rates }

/-! ### Reports that are written -/

/-- The path of the report that a command writes. -/
def Command.reportPath? : Command → Option Path
  | .report a => some a.target
  | .convert a => some a.target
  | _ => none

/-- **The reports that a command builds** from what it loads. -/
inductive Command.Builds (w : Workbench) : Command → Report → Prop where
  /-- A report on runs is built from a summary, a descriptor, the evidence and the rates. -/
  | report {a : ReportArguments} {s : RunSummary} {x : Descriptor} {evidence : Json}
      {rates : Rates Double} (hsummary : runOn (RunSummary.load a.summary) w = (.ok s, w))
      (hdataset : runOn (Dataset.load a.descriptor) w = (.ok x, w))
      (hevidence : runOn (loadEvidence a.evidence) w = (.ok evidence, w))
      (hrates : a.RatesAre w rates) (stamp : Stamp) :
      Builds w (.report a) (Report.build (a.inputs s x evidence rates) stamp)
  /-- A report on collected figures is built from two entries of a collection. -/
  | convert {a : ConvertArguments} {c : Collection} {dataset : Option DatasetIdentity}
      {stamp : Stamp} {r : Report} (hsource : runOn (Collection.load a.source) w = (.ok c, w))
      (hreport : c.report a.baseline a.optimized dataset stamp = .ok r) :
      Builds w (.convert a) r

/-- A report on runs that has been written has been built from what was loaded for it. -/
theorem ReportArguments.builds_of_execute {a : ReportArguments} {w w' : Workbench}
    (h : runOn a.execute w = (.ok (), w')) :
    ∃ r, (Command.report a).Builds w r ∧ w'.store.read a.target = .ok r.document.toUTF8 := by
  rw [ReportArguments.execute] at h
  obtain ⟨s, w₁, hsummary, h₁⟩ := runOn_bind_eq_ok.mp h
  rw [runOn_during_eq_ok] at hsummary
  obtain ⟨-, rfl⟩ := RunSummary.runOn_load_eq_ok.mp hsummary
  obtain ⟨x, w₂, hdataset, h₂⟩ := runOn_bind_eq_ok.mp h₁
  rw [runOn_during_eq_ok] at hdataset
  obtain ⟨-, rfl⟩ := Dataset.runOn_load_eq_ok.mp hdataset
  obtain ⟨evidence, w₃, hevidence, h₃⟩ := runOn_bind_eq_ok.mp h₂
  rw [runOn_during_eq_ok] at hevidence
  obtain ⟨rfl, -⟩ := runOn_loadEvidence_of_ok hevidence
  -- With constants of its own or without, the report is built in the same way.
  obtain ⟨rates, hrates, h₄⟩ : ∃ rates, a.RatesAre w₃ rates ∧
      runOn (ExceptT.lift Host.stamp >>= fun stamp =>
        (Report.build (a.inputs s x evidence rates) stamp).deliver a.target) w₃ =
          (.ok (), w') := by
    unfold ReportArguments.RatesAre ReportArguments.inputs
    cases hpath : a.rates with
    | some path =>
      rw [hpath] at h₃
      obtain ⟨rates, w₄, hrates, h₄⟩ := runOn_bind_eq_ok.mp h₃
      rw [runOn_during_eq_ok] at hrates
      obtain ⟨-, rfl⟩ := runOn_readText_checked_eq_ok.mp hrates
      exact ⟨rates, hrates, h₄⟩
    | none =>
      rw [hpath] at h₃
      obtain ⟨rates, w₄, hpure, h₄⟩ := runOn_bind_eq_ok.mp h₃
      obtain ⟨hrates, rfl⟩ := Prod.mk.inj hpure
      exact ⟨rates, (Except.ok.inj hrates).symm, h₄⟩
  obtain ⟨stamp, w₅, hstamp, h₅⟩ := runOn_bind_eq_ok.mp h₄
  exact ⟨_, .report hsummary hdataset hevidence hrates stamp, read_of_deliver h₅⟩

/-- So has a report on collected figures. -/
theorem ConvertArguments.builds_of_execute {a : ConvertArguments} {w w' : Workbench}
    (h : runOn a.execute w = (.ok (), w')) :
    ∃ r, (Command.convert a).Builds w r ∧ w'.store.read a.target = .ok r.document.toUTF8 := by
  rw [ConvertArguments.execute] at h
  obtain ⟨c, w₁, hsource, h₁⟩ := runOn_bind_eq_ok.mp h
  rw [runOn_during_eq_ok] at hsource
  obtain ⟨-, rfl⟩ := runOn_readText_checked_eq_ok.mp hsource
  -- What dataset is named does not matter here.
  obtain ⟨dataset, w₂, -, h₂⟩ := runOn_bind_eq_ok.mp h₁
  obtain ⟨stamp, w₃, -, h₃⟩ := runOn_bind_eq_ok.mp h₂
  obtain ⟨r, w₄, hreport, h₄⟩ := runOn_bind_eq_ok.mp h₃
  rw [runOn_plainly_eq_ok] at hreport
  obtain ⟨hreport, -⟩ := runOn_checked_eq_ok.mp hreport
  exact ⟨r, .convert hsource hreport, read_of_deliver h₄⟩

/-- **A command that has written a report** has built it from what it has loaded. -/
theorem Command.builds_of_execute {c : Command} {target : Path} (hc : c.reportPath? = some target)
    {w w' : Workbench} (h : runOn c.execute w = (.ok (), w')) :
    ∃ r, c.Builds w r ∧ w'.store.read target = .ok r.document.toUTF8 := by
  -- Only two commands have a path for a report.
  cases c with
  | report a =>
    obtain rfl := Option.some.inj hc
    exact ReportArguments.builds_of_execute h
  | convert a =>
    obtain rfl := Option.some.inj hc
    exact ConvertArguments.builds_of_execute h
  | generate a => cases hc
  | verify a => cases hc
  | run a => cases hc

end PinnedBench
