import PinnedBench.Bench.Implementation
import PinnedBench.Dataset.Descriptor
import PinnedBench.Decimal.Fixed
import PinnedBench.Impact.Projection
import PinnedBench.Machine.Stamp
import PinnedBench.Profile.Series
import PinnedBench.Stats.Comparison

/-!
# Reports

A report says everything about a comparison that is needed to check it again: when and where it was
made and of which dataset, how the implementations were run, every measured duration, the comparison
of the two sides, what a telemetry agent has to say, the projected impact with its constants, and
where other files are.

`Report.headline` is its summary in a few lines.
-/

namespace PinnedBench

/-- When, where and of what a report is made. -/
structure Provenance where
  /-- The identifier of the report. -/
  id : String
  /-- When it was made. -/
  generatedAt : String
  /-- The version of the program. -/
  version : String
  /-- The commit of the working directory. -/
  commit : Option String
  /-- Where it was made. -/
  machine : Machine
  /-- The dataset. -/
  dataset : DatasetIdentity
  deriving DecidableEq, Repr

/-- How the machine settled before measuring. -/
structure Settling where
  /-- Whether it did. -/
  enabled : Bool
  /-- How. -/
  mode : String
  /-- The seconds that it was left alone. -/
  waited : Double
  deriving DecidableEq, Repr

/-- How the implementations were run. -/
structure Setup where
  /-- The command line. -/
  commandLine : String
  /-- The number of runs that were not measured. -/
  warmup : UInt32
  /-- The number of measured runs. -/
  runs : UInt32
  /-- The repetitions within a run. -/
  repetitions : UInt32
  /-- How the machine settled. -/
  settling : Settling
  /-- The environment that keeps libraries to one thread. -/
  environment : Keyed String
  /-- The processor that the runs were pinned to. -/
  processor : UInt32
  /-- The two implementations. -/
  implementations : List Implementation

/-- How a run ended. -/
inductive RunStatus where
  /-- It was measured. -/
  | success
  /-- It failed. -/
  | failure
  deriving DecidableEq, Repr

/-- Why a run failed. -/
structure RunFailure where
  /-- The index of the run. -/
  run : UInt64
  /-- The cause. -/
  cause : String
  deriving DecidableEq, Repr

/-- The runs of one side. -/
structure RunRecord where
  /-- The language or tool. -/
  implementation : String
  /-- The variant within it. -/
  variant : String
  /-- The durations, in milliseconds. -/
  durations : List Double
  /-- How each run ended. -/
  status : List RunStatus
  /-- Why runs failed. -/
  failures : List RunFailure
  deriving DecidableEq, Repr

/-- The record of runs that were all measured. -/
def RunRecord.measured (i : Implementation) (durations : List Double) : RunRecord where
  implementation := i.name
  variant := i.variant
  durations := durations
  status := List.replicate durations.length .success
  failures := []

/-- The comparison of the two sides, with a note. -/
structure Finding where
  /-- The comparison. -/
  comparison : Comparison Double
  /-- The note. -/
  notes : String
  deriving DecidableEq, Repr

/-- A projected impact. -/
structure Impact where
  /-- The constants of the projection. -/
  rates : Rates Double
  /-- Its outcome. -/
  savings : Savings Double
  deriving DecidableEq, Repr

/-- Where other files of a session are. -/
structure Artifacts where
  /-- The results table. -/
  results : String
  /-- The summary of the runs. -/
  summary : String
  /-- The address of the metrics. -/
  metrics : String
  /-- The address of the dashboards. -/
  dashboards : String
  deriving DecidableEq, Repr

/-- The artifacts of a session run with the standard options. -/
def Artifacts.standard : Artifacts where
  results := "runner/results.csv"
  summary := "runner/summary.json"
  metrics := "http://localhost:9091"
  dashboards := "http://localhost:3000"

/-- A report. -/
structure Report where
  /-- The version of the format. -/
  schema : String
  /-- When, where and of what it is made. -/
  provenance : Provenance
  /-- How the implementations were run. -/
  setup : Setup
  /-- The runs of the baseline. -/
  baseline : RunRecord
  /-- The runs of the optimized side. -/
  optimized : RunRecord
  /-- The comparison. -/
  finding : Finding
  /-- What a telemetry agent has to say. -/
  evidence : Json
  /-- The projected impact. -/
  impact : Impact
  /-- Where other files are. -/
  artifacts : Artifacts
  /-- The use of resources, under the keys of the implementations. -/
  profiles : Option (Keyed (Profile Double))

/-- The version of the format and of the program. -/
def formatVersion : String := "1.0.0"

/-- The evidence when no agent has supplied any. -/
def noEvidence : Json := .object [("available", .boolean false)]

namespace Report

/-- Whether a telemetry agent has supplied evidence. -/
def hasEvidence (r : Report) : Bool :=
  match r.evidence.member? "available" with
  | some (.boolean b) => b
  | _ => false

/-- A side as a line of the headline. -/
def sideText (median : Double) (side : RunRecord) : String :=
  median.fixed 1 ++ s!" ms ({side.implementation}/{side.variant})\n"

/-- **The report in a few lines.** -/
def headline (r : Report) : String :=
  let c := r.finding.comparison
  "  - Baseline: " ++ sideText c.baseline.median r.baseline ++
    "  - Optimized: " ++ sideText c.optimized.median r.optimized ++
    "  - Gain: " ++ c.gain.fixed 1 ++ "%\n" ++
    "  - Verdict: " ++ c.verdict.word ++ "\n" ++
    "  - Evidence: " ++ (if r.hasEvidence then "available" else "not available") ++ "\n" ++
    match r.profiles with
    | some profiles => s!"  - Resource profiles: {profiles.size} implementations\n"
    | none => ""

end Report

end PinnedBench
