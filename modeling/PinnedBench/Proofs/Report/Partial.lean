import Mathlib
import PinnedBench.Proofs.Json.Records
import PinnedBench.Report.Build

/-!
# Reports of partial summaries

Any members may be left out of the document of a summary, and others that are no fields may be put
among the rest in any order (`Json.Remade`). It is still read: the fields that are left out have
their defaults and all others what they had (`RunSummary.decode_remade`).

A report takes its own defaults for what a summary leaves out. So what becomes of a report is said
by `Report.without`: the parts for the fields that are left out have their defaults, what is
computed from durations is computed again, and all else stays (`Report.build_without`).
-/

namespace PinnedBench

/-! ### Summaries -/

namespace RunSummary

/-- **A summary without the fields of some names**, which have their defaults. -/
def without (s : RunSummary) (names : List String) : RunSummary where
  dataset := if "metadata" ∈ names then none else s.dataset
  configuration := if "config" ∈ names then none else s.configuration
  baseline := if "baseline_samples" ∈ names then [] else s.baseline
  optimized := if "optimized_samples" ∈ names then [] else s.optimized
  warmup := if "warmup" ∈ names then none else s.warmup
  runs := if "runs" ∈ names then none else s.runs
  repetitions := if "repeat" ∈ names then none else s.repetitions
  settles := if "stability_enabled" ∈ names then none else s.settles
  mode := if "stability_mode" ∈ names then none else s.mode
  waited := if "waited_seconds" ∈ names then none else s.waited
  processor := if "cpu_affinity" ∈ names then none else s.processor
  profiles := if "resource_profiles" ∈ names then .empty else s.profiles

/-- A summary is read from an object with members left out. -/
theorem decode_remade {members deleted added members' : List (Option String × Json.Tree)}
    (h : Json.Remade fieldNames members deleted added members') {levels : Nat} {s : RunSummary}
    (hs : decode (levels + 1) (.object members) = .ok s) :
    decode (levels + 1) (.object members') = .ok (s.without (Json.memberNames deleted)) := by
  obtain ⟨f, hf, hs⟩ := bind_eq_ok.mp hs
  obtain ⟨f', hf', hdefaulted⟩ := h.exists_fields hf
  obtain ⟨dataset, hdataset, hs⟩ := bind_eq_ok.mp hs
  obtain ⟨configuration, hconfiguration, hs⟩ := bind_eq_ok.mp hs
  obtain ⟨baseline, hbaseline, hs⟩ := bind_eq_ok.mp hs
  obtain ⟨optimized, hoptimized, hs⟩ := bind_eq_ok.mp hs
  obtain ⟨warmup, hwarmup, hs⟩ := bind_eq_ok.mp hs
  obtain ⟨runs, hruns, hs⟩ := bind_eq_ok.mp hs
  obtain ⟨repetitions, hrepetitions, hs⟩ := bind_eq_ok.mp hs
  obtain ⟨settles, hsettles, hs⟩ := bind_eq_ok.mp hs
  obtain ⟨mode, hmode, hs⟩ := bind_eq_ok.mp hs
  obtain ⟨waited, hwaited, hs⟩ := bind_eq_ok.mp hs
  obtain ⟨processor, hprocessor, hs⟩ := bind_eq_ok.mp hs
  obtain ⟨profiles, hprofiles, hs⟩ := bind_eq_ok.mp hs
  obtain rfl := Except.ok.inj hs
  -- Each field is read as before, or has its default.
  rw [decode, hf']
  simp only [bind, Except.bind, hdefaulted _ (by decide) hdataset,
    hdefaulted _ (by decide) hconfiguration, hdefaulted _ (by decide) hbaseline,
    hdefaulted _ (by decide) hoptimized, hdefaulted _ (by decide) hwarmup,
    hdefaulted _ (by decide) hruns, hdefaulted _ (by decide) hrepetitions,
    hdefaulted _ (by decide) hsettles, hdefaulted _ (by decide) hmode,
    hdefaulted _ (by decide) hwaited, hdefaulted _ (by decide) hprocessor,
    hdefaulted _ (by decide) hprofiles]
  rfl

/-- A summary is read from a text that gives an object with members left out. -/
theorem ofText_remade {text text' : String}
    {members deleted added members' : List (Option String × Json.Tree)}
    (htext : Json.Tree.ofText text = .ok (.object members))
    (htext' : Json.Tree.ofText text' = .ok (.object members'))
    (h : Json.Remade fieldNames members deleted added members') {s : RunSummary}
    (hs : ofText text = .ok s) : ofText text' = .ok (s.without (Json.memberNames deleted)) := by
  have hdecode : decode (126 + 1) (.object members) = .ok s := by
    rw [ofText, Json.decodeText, htext] at hs
    exact mapError_eq_ok.mp hs
  rw [ofText, Json.decodeText, htext']
  exact mapError_eq_ok.mpr (decode_remade h hdecode)

end RunSummary

/-! ### Reports -/

/-- The runs of a side without their durations. -/
def RunRecord.cleared (r : RunRecord) : RunRecord :=
  { r with durations := [], status := [], failures := [] }

/-- A setup without the fields of some names in the summary. -/
def Setup.without (s : Setup) (names : List String) : Setup :=
  { s with
    warmup := if "warmup" ∈ names then 5 else s.warmup
    runs := if "runs" ∈ names then 30 else s.runs
    repetitions := if "repeat" ∈ names then 50 else s.repetitions
    settling :=
      { enabled := if "stability_enabled" ∈ names then true else s.settling.enabled
        mode := if "stability_mode" ∈ names then "wait" else s.settling.mode
        waited := if "waited_seconds" ∈ names then ((0 : Nat) : Double) else s.settling.waited }
    processor := if "cpu_affinity" ∈ names then 2 else s.processor }

namespace Report

attribute [ext] Report

/-- **A report without the fields of some names** in the summary that it is built from. -/
def without (r : Report) (names : List String) : Report :=
  let baseline := if "baseline_samples" ∈ names then r.baseline.cleared else r.baseline
  let optimized := if "optimized_samples" ∈ names then r.optimized.cleared else r.optimized
  let comparison := Comparison.of baseline.durations optimized.durations
  { r with
    setup := r.setup.without names
    baseline := baseline
    optimized := optimized
    finding := { r.finding with comparison := comparison }
    impact := { r.impact with savings := .project comparison.delta r.impact.rates }
    profiles := if "resource_profiles" ∈ names then none else r.profiles }

/-- A setup takes its defaults for what the summary does not have. -/
theorem setupOf_without (x : Inputs) (names : List String) :
    setupOf { x with summary := x.summary.without names } = (setupOf x).without names := by
  have hdefault {α : Type} (o : Option α) (a : α) (name : String) :
      (if name ∈ names then none else o).getD a = if name ∈ names then a else o.getD a := by
    split <;> rfl
  have hprocessor : (if "cpu_affinity" ∈ names then none else x.summary.processor).filter (· ≠ 0) =
      if "cpu_affinity" ∈ names then none else x.summary.processor.filter (· ≠ 0) := by
    split <;> rfl
  simp only [setupOf, settlingOf, Setup.without, RunSummary.without, hprocessor, hdefault,
    standardProcessor]

/-- A side whose durations are left out has no runs. -/
theorem measured_without (i : Implementation) (durations : List Double) (name : String)
    (names : List String) :
    RunRecord.measured i (if name ∈ names then [] else durations) =
      if name ∈ names then (RunRecord.measured i durations).cleared
      else RunRecord.measured i durations := by
  split <;> rfl

/-- **A report** of a summary without some of its fields is the report without them. -/
theorem build_without (x : Inputs) (stamp : Stamp) (names : List String) :
    build { x with summary := x.summary.without names } stamp = (build x stamp).without names := by
  have hbaseline := measured_without x.baseline x.summary.baseline "baseline_samples" names
  have hoptimized := measured_without x.optimized x.summary.optimized "optimized_samples" names
  -- The comparison is computed from the durations that are left.
  have hcomparison :
      (build { x with summary := x.summary.without names } stamp).finding.comparison =
      ((build x stamp).without names).finding.comparison :=
    congrArg₂ Comparison.of (congrArg RunRecord.durations hbaseline)
      (congrArg RunRecord.durations hoptimized)
  have hprofiles : (build { x with summary := x.summary.without names } stamp).profiles =
      ((build x stamp).without names).profiles := by
    simp only [build, without, RunSummary.without]
    split <;> rfl
  refine Report.ext rfl rfl (setupOf_without x names) hbaseline hoptimized ?finding rfl ?impact rfl
    hprofiles
  case finding => exact congrArg (Finding.mk · _) hcomparison
  case impact =>
    exact congrArg (fun c : Comparison Double => Impact.mk x.rates (.project c.delta x.rates))
      hcomparison

/-- The statistics of a side are those of its durations, and all that is computed of both sides
stays if both stay. -/
theorem computed_without (x : Inputs) (stamp : Stamp) (names : List String) :
    let r := build x stamp
    let r' := r.without names
    ("baseline_samples" ∉ names →
        r'.finding.comparison.baseline = r.finding.comparison.baseline) ∧
      ("optimized_samples" ∉ names →
        r'.finding.comparison.optimized = r.finding.comparison.optimized) ∧
      ("baseline_samples" ∉ names → "optimized_samples" ∉ names →
        r'.finding = r.finding ∧ r'.impact = r.impact) := by
  refine ⟨fun hbaseline => ?_, fun hoptimized => ?_, fun hbaseline hoptimized => ?_⟩
  · simp only [without, hbaseline, if_false]
    rfl
  · simp only [without, hoptimized, if_false]
    rfl
  · simp only [without, hbaseline, hoptimized, if_false]
    exact ⟨rfl, rfl⟩

end Report

/-- **A partial summary** makes a report. From the object of a summary that is read, any members may
be left out, and others that are no fields may be put among the rest in any order: a text of such an
object is read as well, and what is left out has its defaults both in the summary and in the report.
All else stays as it was, except for what is computed from durations that are left out. -/
theorem report_of_partial {text text' : String}
    {members deleted added members' : List (Option String × Json.Tree)} {s : RunSummary}
    (htext : Json.Tree.ofText text = .ok (.object members)) (hs : RunSummary.ofText text = .ok s)
    (htext' : Json.Tree.ofText text' = .ok (.object members'))
    (h : Json.Remade RunSummary.fieldNames members deleted added members') :
    ∃ s', RunSummary.ofText text' = .ok s' ∧ s' = s.without (Json.memberNames deleted) ∧
      ∀ (x : Inputs) (stamp : Stamp), x.summary = s →
        let r := Report.build x stamp
        let r' := Report.build { x with summary := s' } stamp
        r' = r.without (Json.memberNames deleted) ∧
          ("baseline_samples" ∉ Json.memberNames deleted →
            r'.finding.comparison.baseline = r.finding.comparison.baseline) ∧
          ("optimized_samples" ∉ Json.memberNames deleted →
            r'.finding.comparison.optimized = r.finding.comparison.optimized) ∧
          ("baseline_samples" ∉ Json.memberNames deleted →
            "optimized_samples" ∉ Json.memberNames deleted →
              r'.finding = r.finding ∧ r'.impact = r.impact) := by
  refine ⟨_, RunSummary.ofText_remade htext htext' h hs, rfl, ?_⟩
  rintro x stamp rfl
  -- The text does not matter any more: building is about the summary with its defaults.
  rw [Report.build_without]
  exact ⟨rfl, Report.computed_without x stamp (Json.memberNames deleted)⟩

/-- A summary with a member that is no field. -/
def notedText : String :=
  "\x7b\"warmup\":3,\"baseline_samples\":[2.5],\"runs\":7,\"note\":null\x7d"

/-- The same summary without its runs and its note, with another member in front. -/
def shortText : String := "\x7b\"host\":[], \"baseline_samples\":[2.5], \"warmup\":3\x7d"

/-- The members that both texts have. -/
def keptMembers : List (Option String × Json.Tree) :=
  [(some "warmup", .number ⟨false, 3, 0, true⟩),
    (some "baseline_samples", .array [.number ⟨false, 25, -1, false⟩])]

/-- The members that only the first text has. -/
def deletedMembers : List (Option String × Json.Tree) :=
  [(some "runs", .number ⟨false, 7, 0, true⟩), (some "note", .null)]

/-- The member that only the second text has. -/
def addedMember : Option String × Json.Tree := (some "host", .array [])

/-- A summary with its runs left out, and a member put in: the report has the default. -/
theorem runs_are_left_out : ∃ s s', RunSummary.ofText notedText = .ok s ∧
    RunSummary.ofText shortText = .ok s' ∧ (s.runs, s'.runs, s'.warmup) = (some 7, none, some 3) ∧
      ∀ (x : Inputs) (stamp : Stamp), x.summary = s →
        let r := Report.build x stamp
        let r' := Report.build { x with summary := s' } stamp
        r.setup.runs = 7 ∧ r'.setup = { r.setup with runs := 30 } ∧ r'.finding = r.finding := by
  have htext : Json.Tree.ofText notedText = .ok (.object (keptMembers ++ deletedMembers)) := by cbv
  have htext' : Json.Tree.ofText shortText =
      .ok (.object (keptMembers ++ [addedMember]).reverse) := by cbv
  have hs : RunSummary.ofText notedText = .ok { RunSummary.empty with
      warmup := some 3, runs := some 7, baseline := [⟨0x4004000000000000⟩] } := by
    rw [RunSummary.ofText, Json.decodeText, htext]
    rfl
  have hremade : Json.Remade RunSummary.fieldNames (keptMembers ++ deletedMembers) deletedMembers
      [addedMember] (keptMembers ++ [addedMember]).reverse :=
    { exists_kept := ⟨keptMembers, .refl _, List.reverse_perm _⟩
      unknown := List.forall_mem_singleton.mpr ⟨"host", rfl, by decide⟩ }
  -- The two texts are read as their objects, and the rest is the general statement.
  obtain ⟨s', hs', rfl, hreport⟩ := report_of_partial htext hs htext' hremade
  refine ⟨_, _, hs, hs', rfl, fun x stamp hx => ?_⟩
  obtain ⟨hwithout, -, -, hfinding⟩ := hreport x stamp hx
  have hruns : (Report.build x stamp).setup.runs = 7 :=
    congrArg (fun s : RunSummary => s.runs.getD 30) hx
  exact ⟨hruns, congrArg Report.setup hwithout, (hfinding (by decide) (by decide)).1⟩

end PinnedBench
