import PinnedBench.Conversion.Entry
import PinnedBench.Profile.Series
import PinnedBench.Random.Noise

/-!
# Samples and profiles made from figures

An entry has one time and one figure per resource. Samples are made from the time by normal noise of
one half of a percent, and no sample is below a tenth of a millisecond. A profile is made from the
load and the memory by normal noise, and from draws for the disk traffic.

The definitions read any source of noise. The draws of a profile come in the order load, memory,
disk.
-/

namespace PinnedBench

variable {α σ : Type} [Add α] [Mul α] [NatCast α] [OfScientific α] [LT α] [DecidableLT α]
  [Analysis α]

/-! ### Samples -/

/-- The sample that a draw makes of a time. -/
def noisyTime (time draw : α) : α := larger 0.1 (time + time * 0.005 * draw)

/-- **So many samples of a time.** -/
def noisyTimes (noise : Noise σ α) (time : α) (count : Nat) (s : σ) : List α :=
  (draws noise.normal count s).1.map (noisyTime time)

/-! ### Profiles -/

/-- A load kept between 0 and 100. -/
def clampLoad (x : α) : α :=
  if x < ((0 : Nat) : α) then ((0 : Nat) : α)
  else if ((100 : Nat) : α) < x then ((100 : Nat) : α)
  else x

/-- The load that a draw makes of an average. -/
def noisyLoad (average draw : α) : α := clampLoad (average + ((2 : Nat) : α) * draw)

/-- The memory that a draw makes of an average. -/
def noisyMemory (average draw : α) : α :=
  larger ((0 : Nat) : α) (average + average * 0.05 * draw)

/-- The number of points of a made profile. -/
def Profile.madePoints : Nat := 50

/-- The curve made of an entry. -/
def Curve.made (noise : Noise σ α) (e : Entry α) (s : σ) : Curve α :=
  let n := Profile.madePoints
  let (cpu, s) := draws noise.normal n s
  let (ram, s) := draws noise.normal n s
  let (disk, _) := draws noise.toTen n s
  { times := (List.range n).map fun i => ((2 * i : Nat) : α)
    cpu := cpu.map (noisyLoad e.load)
    ram := ram.map (noisyMemory e.memory)
    disk := disk
    gpu := List.replicate n ((0 : Nat) : α) }

/-- **The profile made of an entry.** Its averages are the figures of the entry. -/
def Profile.made (noise : Noise σ α) (e : Entry α) (s : σ) : Profile α :=
  let curve := Curve.made noise e s
  { summary :=
      { cpuAverage := e.load
        cpuPeak := peak curve.cpu
        ramAverage := e.memory
        ramPeak := peak curve.ram
        diskTotal := sumFrom curve.disk
        gpuAverage := ((0 : Nat) : α)
        duration := e.time
        count := Profile.madePoints.toUInt64 }
    curve := curve }

end PinnedBench
