import PinnedBench.Bench.Outcome
import PinnedBench.Report.Encoding

/-!
# Building reports

`Report.build` puts a report together from a summary of runs and the rest of its `Inputs`, with a
stamp. What the summary leaves out has a standard value; a processor of number zero counts as left
out.
-/

namespace PinnedBench

/-- What a report is built from, beside the time and the place. -/
structure Inputs where
  /-- The summary of the runs. -/
  summary : RunSummary
  /-- The evidence of a telemetry agent. -/
  evidence : Option Json
  /-- The dataset. -/
  dataset : DatasetIdentity
  /-- The command line. -/
  commandLine : String
  /-- The baseline. -/
  baseline : Implementation
  /-- The optimized side. -/
  optimized : Implementation
  /-- The constants of the projection. -/
  rates : Rates Double
  /-- Where other files are. -/
  artifacts : Artifacts
  /-- A note in place of the standard one. -/
  notes : Option String

namespace Inputs

/-- Inputs with no evidence and standard constants, artifacts and note. -/
def of (summary : RunSummary) (dataset : DatasetIdentity) (baseline optimized : Implementation) :
    Inputs where
  summary := summary
  evidence := none
  dataset := dataset
  commandLine := ""
  baseline := baseline
  optimized := optimized
  rates := .standard
  artifacts := .standard
  notes := none

end Inputs

namespace Report

/-- The standard note. -/
def standardNotes : String := "Gain measured at environment constant (same machine)."

/-- The processor used when the summary names none, or the one of number zero. -/
def standardProcessor : UInt32 := 2

/-- How the machine settled, by a summary. -/
def settlingOf (s : RunSummary) : Settling where
  enabled := s.settles.getD true
  mode := s.mode.getD "wait"
  waited := s.waited.getD ((0 : Nat) : Double)

/-- How the implementations were run. -/
def setupOf (x : Inputs) : Setup :=
  let s := x.summary
  { commandLine := x.commandLine
    warmup := s.warmup.getD 5
    runs := s.runs.getD 30
    repetitions := s.repetitions.getD 50
    settling := settlingOf s
    environment := numericEnvironment
    processor := (s.processor.filter (· ≠ 0)).getD standardProcessor
    implementations := [x.baseline, x.optimized] }

/-- When, where and of what a report is made. -/
def provenanceOf (x : Inputs) (stamp : Stamp) : Provenance :=
  let generatedAt := stamp.moment.text
  { id := reportId generatedAt stamp.machine.hostName
    generatedAt := generatedAt
    version := formatVersion
    commit := stamp.commit
    machine := stamp.machine
    dataset := x.dataset }

/-- **The report** of inputs with a stamp. -/
def build (x : Inputs) (stamp : Stamp) : Report :=
  let s := x.summary
  let comparison := Comparison.of s.baseline s.optimized
  { schema := formatVersion
    provenance := provenanceOf x stamp
    setup := setupOf x
    baseline := .measured x.baseline s.baseline
    optimized := .measured x.optimized s.optimized
    finding := ⟨comparison, x.notes.getD standardNotes⟩
    evidence := x.evidence.getD noEvidence
    impact := ⟨x.rates, .project comparison.delta x.rates⟩
    artifacts := x.artifacts
    profiles := if s.profiles.isEmpty then none else some s.profiles }

end Report

end PinnedBench
