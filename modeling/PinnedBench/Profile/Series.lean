import PinnedBench.Arithmetic

/-!
# Resource profiles

While an implementation runs, the machine is sampled: processor load, memory in use, disk traffic
since the machine was started, and graphics load. `Summary.of` reduces a series of samples to
averages and peaks, `Curve.of` picks at most a given number of samples for a plot, and a `Profile`
is the two together.

* Averages are sums divided by the count; peaks start from a number below all finite ones, so that
  what is no number never becomes a peak.
* Disk traffic is a difference of two running totals and never negative.
* A curve takes every `n`-th sample, where `n` is the number of samples per point, rounded down. Its
  times run from 0 to 100.
-/

namespace PinnedBench

/-- What a probe tells about the machine. -/
structure Reading (α : Type) where
  /-- The processor load in percent. -/
  cpu : α
  /-- The memory in use, in megabytes. -/
  ram : α
  /-- The megabytes read from disks since the machine was started. -/
  diskRead : α
  /-- The megabytes written to disks since the machine was started. -/
  diskWritten : α
  /-- The graphics load in percent. -/
  gpu : α
  deriving DecidableEq, Repr

/-- A reading and when it was taken. -/
structure Sample (α : Type) where
  /-- The milliseconds since sampling began. -/
  elapsed : α
  /-- What the probe told. -/
  reading : Reading α
  deriving DecidableEq, Repr

/-- The averages and peaks of a series. -/
structure Summary (α : Type) where
  /-- The average processor load. -/
  cpuAverage : α
  /-- The highest processor load. -/
  cpuPeak : α
  /-- The average memory in use. -/
  ramAverage : α
  /-- The most memory in use. -/
  ramPeak : α
  /-- The megabytes moved to and from disks. -/
  diskTotal : α
  /-- The average graphics load. -/
  gpuAverage : α
  /-- The milliseconds that the series spans. -/
  duration : α
  /-- The number of samples. -/
  count : UInt64
  deriving DecidableEq, Repr

/-- The points of a plot. -/
structure Curve (α : Type) where
  /-- When the points were taken, from 0 to 100. -/
  times : List α
  /-- The processor load at the points. -/
  cpu : List α
  /-- The memory in use at the points. -/
  ram : List α
  /-- The disk traffic up to the points. -/
  disk : List α
  /-- The graphics load at the points. -/
  gpu : List α
  deriving DecidableEq, Repr

/-- A summary and a curve. -/
structure Profile (α : Type) where
  /-- The averages and peaks. -/
  summary : Summary α
  /-- The points for a plot. -/
  curve : Curve α
  deriving DecidableEq, Repr

variable {α : Type} [Add α] [Sub α] [Mul α] [Div α] [NatCast α] [LT α] [DecidableLT α] [Analysis α]

/-! ### Averages and peaks -/

/-- The sum of a list, from the first item on; nothing sums up to zero. -/
def sumFrom : List α → α
  | [] => ((0 : Nat) : α)
  | x :: xs => xs.foldl (· + ·) x

/-- The average of a list that is not empty. -/
def average (xs : List α) : α := sumFrom xs / (xs.length : α)

/-- The largest of a list. -/
def peak (xs : List α) : α := xs.foldl larger Analysis.lowest

/-- The disk traffic between two readings, never negative. -/
def trafficBetween (first last : Reading α) : α :=
  larger ((0 : Nat) : α)
    ((last.diskRead - first.diskRead) + (last.diskWritten - first.diskWritten))

namespace Summary

/-- The summary of the empty series. -/
def zero : Summary α :=
  let z : α := ((0 : Nat) : α)
  ⟨z, z, z, z, z, z, z, 0⟩

/-- **The summary of a series.** A single sample moves nothing. -/
def of (samples : List (Sample α)) : Summary α :=
  match samples, samples.getLast? with
  | first :: rest, some last =>
    let readings := samples.map (·.reading)
    { cpuAverage := average (readings.map (·.cpu))
      cpuPeak := peak (readings.map (·.cpu))
      ramAverage := average (readings.map (·.ram))
      ramPeak := peak (readings.map (·.ram))
      diskTotal :=
        if rest.isEmpty then ((0 : Nat) : α) else trafficBetween first.reading last.reading
      gpuAverage := average (readings.map (·.gpu))
      duration := last.elapsed
      count := samples.length.toUInt64 }
  | _, _ => zero

end Summary

/-! ### Curves -/

/-- The distance between the samples that are picked for so many points. -/
def stride (points count : Nat) : Nat := if points < count then count / points else 1

/-- The samples picked for at most so many points. -/
def picked (points : Nat) (samples : List (Sample α)) : List (Sample α) :=
  (List.range (min points samples.length)).filterMap fun i =>
    samples[i * stride points samples.length]?

/-- The times of picked samples, scaled to run from 0 to 100; samples that are not taken one after
the other are all placed at 0. -/
def scaledTimes (chosen : List (Sample α)) : List α :=
  match chosen.head?, chosen.getLast? with
  | some first, some last =>
    let start := first.elapsed
    let span := if start < last.elapsed then last.elapsed - start else ((1 : Nat) : α)
    chosen.map fun s => (s.elapsed - start) / span * ((100 : Nat) : α)
  | _, _ => []

/-- **The curve of a series** with at most so many points. -/
def Curve.of (points : Nat) (samples : List (Sample α)) : Curve α :=
  let chosen := picked points samples
  let readings := chosen.map (·.reading)
  { times := scaledTimes chosen
    cpu := readings.map (·.cpu)
    ram := readings.map (·.ram)
    disk := readings.map fun r => r.diskRead + r.diskWritten
    gpu := readings.map (·.gpu) }

/-- The curve without points. -/
def Curve.empty : Curve α := ⟨[], [], [], [], []⟩

namespace Profile

/-- The number of points that the curve of a profile has at most. -/
def points : Nat := 50

/-- **The profile of a series.** -/
def of (samples : List (Sample α)) : Profile α := ⟨.of samples, .of points samples⟩

/-- The profile of the empty series. -/
def empty : Profile α := ⟨.zero, .empty⟩

end Profile

end PinnedBench
