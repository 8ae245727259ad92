import PinnedBench.Conversion.Synthesis
import PinnedBench.Report.Build

/-!
# Reports from collected figures

`Collection.report` builds a report from two entries of a collection. Both sides take their samples
from generators with the same seed, so that their noise is the same. Every entry has a made profile,
whose generator is seeded by the name of its implementation.

The number of processor cores of the baseline is reported as it is, and one if it is not known.
-/

namespace PinnedBench

/-- The word that the lowest eight bytes make, the lowest one first. -/
def wordOfBytes (bytes : List UInt8) : UInt64 :=
  (bytes.take 8).foldr (fun b w => (w <<< 8) ||| b.toUInt64) 0

/-- The seed of an implementation: the start of the digest of its name. -/
def nameSeed (name : String) : UInt64 := wordOfBytes (Sha256.digest name.toUTF8)

namespace Collection

/-- The seed of the samples of both sides. -/
def sampleSeed : UInt64 := 42

/-- The number of samples of a side. -/
def sampleCount : Nat := 30

/-- The samples made of a time. -/
def samplesOf (time : Double) : List Double :=
  noisyTimes .seeded time sampleCount (.ofSeed sampleSeed)

/-- The identity of the dataset when none is given. -/
def placeholder : DatasetIdentity :=
  ⟨Sha256.hex "mock_dataset".toUTF8, 2000, 15, 96, 42⟩

/-- The summary of runs that stand for two entries. -/
def summaryOf (baseline optimized : Entry Double) : RunSummary :=
  { RunSummary.empty with
    baseline := samplesOf baseline.time
    optimized := samplesOf optimized.time
    warmup := some 5
    runs := some sampleCount.toUInt32
    repetitions := some 50
    settles := some true
    mode := some "wait"
    waited := some ((0 : Nat) : Double) }

/-- Where the figures come from, as far as it is known. -/
def sourceName (x : Collection) : String := x.source.getD "unknown"

/-- What the report of two entries is built from. -/
def inputs (x : Collection) (baseline optimized : Entry Double) (dataset : DatasetIdentity) :
    Inputs :=
  { Inputs.of (summaryOf baseline optimized) dataset
      ⟨baseline.language, baseline.implementation⟩
      ⟨optimized.language, optimized.implementation⟩ with
    commandLine := "Converted from " ++ x.sourceName
    artifacts :=
      { Artifacts.standard with
        results := "converted/results.csv"
        summary := x.sourceName }
    notes := some ("Converted from custom format. Speedup vs baseline: " ++
      optimized.speedup.fixed 2 ++ "x") }

/-- The profile of an entry. -/
def profileOf (e : Entry Double) : Profile Double :=
  .made Noise.seeded e (.ofSeed (nameSeed e.implementation))

/-- The profiles of all entries under their keys, the last one under a key. -/
def profiles (x : Collection) : Keyed (Profile Double) :=
  .ofList (x.entries.map fun e => (e.key, profileOf e))

/-- **The report** that compares two implementations of a collection, the baseline being looked for
first. -/
def report (x : Collection) (baseline optimized : String) (dataset : Option DatasetIdentity)
    (stamp : Stamp) : Except Fault Report := do
  let b ← x.find baseline
  let o ← x.find optimized
  let built := Report.build (x.inputs b o (dataset.getD placeholder)) stamp
  .ok { built with
    setup := { built.setup with processor := b.cores.getD 1 }
    profiles := some x.profiles }

end Collection

end PinnedBench
