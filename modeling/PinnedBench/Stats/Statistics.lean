import PinnedBench.Arithmetic

/-!
# Statistics of a sample set

`Statistics.of` reduces the durations of one implementation to six figures: median, mean, standard
deviation, coefficient of variation, and the tenth and ninetieth percentiles.

* The median and the percentiles are taken from a sorted copy, in the total order `precedes`; a
  percentile is one of the samples, without interpolation.
* The mean and the deviation are compensated sums (`stableSum`), so that the order of the samples
  hardly matters to rounding. When a sum leaves the range of numbers it is taken again in units of
  the largest magnitude.
* The empty set has six zeros; a single sample has no deviation.
-/

namespace PinnedBench

/-- The six figures of a sample set. -/
structure Statistics (α : Type) where
  /-- The middle of the sorted samples, or half the way between the two middle ones. -/
  median : α
  /-- The arithmetic mean. -/
  mean : α
  /-- The sample standard deviation, with one degree of freedom less than samples. -/
  deviation : α
  /-- The deviation in percent of the mean, zero unless the mean is positive. -/
  variation : α
  /-- The tenth percentile. -/
  p10 : α
  /-- The ninetieth percentile. -/
  p90 : α
  deriving DecidableEq, Repr

variable {α : Type} [Add α] [Sub α] [Mul α] [Div α] [NatCast α] [OfScientific α]
  [LT α] [DecidableLT α] [LE α] [DecidableLE α] [Analysis α]

/-! ### Compensated sums -/

/-- A running sum and the rounding errors it has left out so far. -/
structure Compensated (α : Type) where
  /-- The sum of the terms, rounded after every step. -/
  sum : α
  /-- What the rounding steps lost, summed up. -/
  lost : α

/-- One more term: the loss is found from the larger of the sum and the term. -/
def Compensated.add (s : Compensated α) (v : α) : Compensated α :=
  let t := s.sum + v
  -- The digits that `t` has lost are those of the smaller one of the two.
  if magnitude v ≤ magnitude s.sum then ⟨t, s.lost + ((s.sum - t) + v)⟩
  else ⟨t, s.lost + ((v - t) + s.sum)⟩

/-- The sum of the terms with the lost parts added back at the end. -/
def stableSum (terms : List α) : α :=
  let s := terms.foldl Compensated.add ⟨((0 : Nat) : α), ((0 : Nat) : α)⟩
  s.sum + s.lost

/-- The largest magnitude among the samples. -/
def largestMagnitude (samples : List α) : α :=
  samples.foldl (fun m x => larger m (magnitude x)) ((0 : Nat) : α)

/-! ### Order statistics -/

/-- The samples in the total order. -/
def sortSamples (samples : List α) : List α := samples.mergeSort precedes

/-- The sample at a position of the sorted copy. -/
def sampleAt (sorted : List α) (i : Nat) : α := sorted.getD i ((0 : Nat) : α)

/-- The median of sorted samples: halves are added, so that the sum of two large ones stays in
range. -/
def sortedMedian (sorted : List α) : α :=
  let middle := sorted.length / 2
  if sorted.length % 2 = 0 then
    sampleAt sorted (middle - 1) / ((2 : Nat) : α) + sampleAt sorted middle / ((2 : Nat) : α)
  else sampleAt sorted middle

/-- The sample at the rank of a fraction of the count, counted from zero and kept inside. -/
def nearestRank (sorted : List α) (fraction : α) : α :=
  let rank := wholePart ((sorted.length : α) * fraction)
  sampleAt sorted (min rank (sorted.length - 1))

/-! ### Mean and deviation -/

/-- The mean of the samples as one quotient. -/
def plainMean (samples : List α) : α := stableSum samples / (samples.length : α)

/-- The mean computed in units of the largest magnitude. -/
def scaledMean (samples : List α) : α :=
  let unit := largestMagnitude samples
  stableSum (samples.map (· / unit)) / (samples.length : α) * unit

/-- The mean: in units of the largest magnitude only when the plain sum leaves the range. -/
def sampleMean (samples : List α) : α :=
  let mean := plainMean samples
  if finite mean then mean else scaledMean samples

/-- The square of a number. -/
def square (x : α) : α := x * x

/-- The sum of the squared deviations from a mean. -/
def squaredDeviations (mean : α) (samples : List α) : α :=
  stableSum (samples.map fun x => square (x - mean))

/-- The degrees of freedom of a deviation. -/
def freedom (samples : List α) : α := ((samples.length - 1 : Nat) : α)

/-- The deviation computed in units of the largest magnitude. -/
def scaledDeviation (mean : α) (samples : List α) : α :=
  let unit := largestMagnitude samples
  let scaled := squaredDeviations (mean / unit) (samples.map (· / unit))
  squareRoot (scaled / freedom samples) * unit

/-- The sample standard deviation from a mean: in units of the largest magnitude only when the
squared deviations leave the range, and zero unless there are two samples. -/
def sampleDeviation (mean : α) (samples : List α) : α :=
  if 1 < samples.length then
    let squares := squaredDeviations mean samples
    if finite squares then squareRoot (squares / freedom samples)
    else scaledDeviation mean samples
  else ((0 : Nat) : α)

/-- The deviation in percent of the mean. -/
def variationOf (mean deviation : α) : α :=
  if ((0 : Nat) : α) < mean then deviation / mean * ((100 : Nat) : α) else ((0 : Nat) : α)

namespace Statistics

/-- The figures of the empty sample set. -/
def zero : Statistics α :=
  let z : α := ((0 : Nat) : α)
  ⟨z, z, z, z, z, z⟩

/-- **The statistics of a sample set.** -/
def of (samples : List α) : Statistics α :=
  if samples.isEmpty then zero
  else
    let sorted := sortSamples samples
    let mean := sampleMean samples
    let deviation := sampleDeviation mean samples
    { median := sortedMedian sorted
      mean := mean
      deviation := deviation
      variation := variationOf mean deviation
      p10 := nearestRank sorted 0.1
      p90 := nearestRank sorted 0.9 }

@[simp]
theorem of_nil : of ([] : List α) = zero := rfl

end Statistics

end PinnedBench
