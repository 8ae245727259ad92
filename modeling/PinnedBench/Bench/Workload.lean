import PinnedBench.Bench.Implementation
import PinnedBench.Random.Noise

/-!
# The built-in workload

The built-in workload stands in for the implementations under test: a run takes a base time, longer
for the variant called naive than for all others, and some normal noise. Every run has a generator
of its own, seeded by its index, so the first runs take the same time however many follow.
-/

namespace PinnedBench.Workload

/-- The seed of the first run. -/
def firstSeed : Nat := 42

/-- The milliseconds of a run without its noise. -/
def baseTime (variant : String) : Double :=
  if variant = "naive" then ((1520 : Nat) : Double) else ((1212 : Nat) : Double)

/-- The milliseconds of noise for one standard deviation. -/
def noiseTime : Double := ((6 : Nat) : Double)

/-- The noise of a run: the first normal draw of its generator. -/
def noise (run : Nat) : Double := (Generator.ofSeed (firstSeed + run).toUInt64).normal.1

/-- The milliseconds that a run takes. -/
def runTime (variant : String) (run : Nat) : Double := baseTime variant + noiseTime * noise run

/-- **The milliseconds that the runs of a variant take.** -/
def durations (variant : String) (runs : UInt32) : List Double :=
  (List.range runs.toNat).map (runTime variant)

end PinnedBench.Workload
