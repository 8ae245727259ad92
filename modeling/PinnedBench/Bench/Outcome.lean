import PinnedBench.Bench.Configuration
import PinnedBench.Bench.Implementation
import PinnedBench.Dataset.Descriptor
import PinnedBench.Profile.Encoding
import PinnedBench.Results.Table

/-!
# Outcomes of a benchmark

An `Outcome` holds a `Measurement` per implementation, in the order in which they were given. The
first is the baseline and the second the optimized side; with one implementation the optimized side
is the baseline again.

A `RunSummary` is what is kept of an outcome as a JSON document, and what a report is built from.
The descriptor of the dataset and the configuration go into it as free JSON values. Reading takes a
summary with any of its fields left out.
-/

namespace PinnedBench

/-- What was measured of one implementation. -/
structure Measurement where
  /-- The implementation. -/
  implementation : Implementation
  /-- The durations of its runs, in milliseconds. -/
  durations : List Double
  /-- Its use of resources, if that was observed. -/
  profile : Option (Profile Double)
  deriving DecidableEq, Repr

/-- What was measured, in the order of the implementations. -/
abbrev Outcome := List Measurement

namespace Outcome

/-- The first measurement. -/
def baseline (o : Outcome) : Option Measurement := o.head?

/-- The second measurement, or the first if there is no other. -/
def optimized (o : Outcome) : Option Measurement := o[1]?.or o.head?

/-- The measured runs as a table. -/
def table (o : Outcome) : Table :=
  o.foldl (fun t e => t.append e.implementation.name e.implementation.variant e.durations) .empty

end Outcome

/-- What is kept of an outcome. -/
structure RunSummary where
  /-- The descriptor of the dataset. -/
  dataset : Option Json
  /-- The configuration. -/
  configuration : Option Json
  /-- The durations of the baseline. -/
  baseline : List Double
  /-- The durations of the optimized side. -/
  optimized : List Double
  /-- The number of runs that were not measured. -/
  warmup : Option UInt32
  /-- The number of measured runs. -/
  runs : Option UInt32
  /-- The repetitions within a run. -/
  repetitions : Option UInt32
  /-- Whether the machine settled before. -/
  settles : Option Bool
  /-- How it settled. -/
  mode : Option String
  /-- The seconds that it was left alone. -/
  waited : Option Double
  /-- The processor that the runs were pinned to. -/
  processor : Option UInt32
  /-- The use of resources, under the keys of the implementations. -/
  profiles : Keyed (Profile Double)

namespace RunSummary

/-- The summary with no field given. -/
def empty : RunSummary :=
  ⟨none, none, [], [], none, none, none, none, none, none, none, .empty⟩

/-- The durations of a measurement, none if there is none. -/
def durationsOf (e : Option Measurement) : List Double := (e.map (·.durations)).getD []

/-- The profiles of an outcome under the keys of the implementations, the last one under a key. -/
def profilesOf (o : Outcome) : Keyed (Profile Double) :=
  .ofList (o.filterMap fun e => e.profile.map fun p => (e.implementation.key, p))

/-- **The summary of an outcome.** -/
def of (o : Outcome) (x : Descriptor) (c : Configuration) : RunSummary where
  dataset := some x.toJson.sorted
  configuration := some c.toJson.sorted
  baseline := durationsOf o.baseline
  optimized := durationsOf o.optimized
  warmup := some c.warmup
  runs := some c.runs
  repetitions := some c.repetitions
  settles := some c.settles
  mode := some c.mode.word
  waited := some c.waited
  processor := c.processor
  profiles := profilesOf o

/-- The names of the fields. -/
def fieldNames : List String :=
  ["metadata", "config", "baseline_samples", "optimized_samples", "warmup", "runs", "repeat",
    "stability_enabled", "stability_mode", "waited_seconds", "cpu_affinity", "resource_profiles"]

/-- The summary as a JSON value; profiles are left out if there are none. -/
def toJson (s : RunSummary) : Json :=
  .object ([("metadata", .ofOption id s.dataset), ("config", .ofOption id s.configuration),
    ("baseline_samples", .ofDoubles s.baseline), ("optimized_samples", .ofDoubles s.optimized),
    ("warmup", .ofOption .ofHalfWord s.warmup), ("runs", .ofOption .ofHalfWord s.runs),
    ("repeat", .ofOption .ofHalfWord s.repetitions),
    ("stability_enabled", .ofOption .boolean s.settles),
    ("stability_mode", .ofOption .string s.mode), ("waited_seconds", .ofOption .ofDouble s.waited),
    ("cpu_affinity", .ofOption .ofHalfWord s.processor)] ++
    (if s.profiles.isEmpty then []
      else [("resource_profiles", .ofKeyed Profile.toJson s.profiles)]))

/-- Reads a summary. -/
def decode : Json.Decoder RunSummary := fun levels t => do
  let f ← Json.Tree.fields fieldNames levels t
  .ok { dataset := ← f.defaulted "metadata" none (.orNull .any)
        configuration := ← f.defaulted "config" none (.orNull .any)
        baseline := ← f.defaulted "baseline_samples" [] (.list .double)
        optimized := ← f.defaulted "optimized_samples" [] (.list .double)
        warmup := ← f.defaulted "warmup" none (.orNull .halfWord)
        runs := ← f.defaulted "runs" none (.orNull .halfWord)
        repetitions := ← f.defaulted "repeat" none (.orNull .halfWord)
        settles := ← f.defaulted "stability_enabled" none (.orNull .boolean)
        mode := ← f.defaulted "stability_mode" none (.orNull .string)
        waited := ← f.defaulted "waited_seconds" none (.orNull .double)
        processor := ← f.defaulted "cpu_affinity" none (.orNull .halfWord)
        profiles := ← f.defaulted "resource_profiles" .empty (.keyed Profile.decode) }

/-- The document of a summary. -/
def document (s : RunSummary) : String := s.toJson.pretty

/-- **Reads a summary** from a JSON document. -/
def ofText (text : String) : Except Fault RunSummary :=
  (Json.decodeText decode text).mapError fun e => .document "runner summary" e.message

end RunSummary

end PinnedBench
