import Mathlib
import PinnedBench.Proofs.Stats.Sorting
import PinnedBench.Stats.Comparison

/-!
# Statistics in other units

In exact arithmetic a compensated sum is the sum, and what is computed again in units of the largest
magnitude is what it would have been without: the mean is given by `sampleMean_eq` and the deviation
by `sampleDeviation_eq`, whatever the test for finite numbers answers.

So the statistics of samples that are given in another unit are the statistics in that unit, and the
coefficient of variation is the same (`Statistics.of_map_mul`).
-/

namespace PinnedBench

variable {K : Type} [Field K]

/-! ### Samples in units -/

/-- The degrees of freedom depend on the count alone. -/
@[simp]
theorem freedom_map (f : K → K) (samples : List K) : freedom (samples.map f) = freedom samples := by
  rw [freedom, freedom, List.length_map]

/-- A sum in units is the sum of the terms in units. -/
theorem sum_map_div (samples : List K) (unit : K) :
    (samples.map (· / unit)).sum = samples.sum / unit := by
  simp only [div_eq_mul_inv, List.sum_map_mul_right, List.map_id']

variable [LinearOrder K]

/-- A coefficient of variation is a quotient, from which the unit cancels. -/
theorem variationOf_mul [IsStrictOrderedRing K] {c : K} (hc : 0 < c) (mean deviation : K) :
    variationOf (c * mean) (c * deviation) = variationOf mean deviation := by
  rw [variationOf, variationOf, mul_div_mul_left _ _ hc.ne']
  simp only [Nat.cast_zero, mul_pos_iff_of_pos_left hc]

variable [Analysis K]

/-! ### Sums -/

/-- Exact addition loses nothing, so nothing has to be made up for. -/
theorem Compensated.add_eq (s : Compensated K) (v : K) : s.add v = ⟨s.sum + v, s.lost⟩ := by
  -- Whichever of the two is larger, the sum has lost none of its digits.
  rw [Compensated.add]
  split
  · have hlost : s.lost + ((s.sum - (s.sum + v)) + v) = s.lost := by ring
    rw [hlost]
  · have hlost : s.lost + ((v - (s.sum + v)) + s.sum) = s.lost := by ring
    rw [hlost]

/-- Adding terms one after the other adds their sum. -/
theorem foldl_add_eq (terms : List K) (s : Compensated K) :
    terms.foldl Compensated.add s = ⟨s.sum + terms.sum, s.lost⟩ := by
  -- What was lost before stays as it is on the way.
  induction terms generalizing s with
  | nil => simp
  | cons v terms ih => rw [List.foldl_cons, ih, Compensated.add_eq, List.sum_cons, add_assoc]

/-- **A compensated sum** is the sum. -/
@[simp]
theorem stableSum_eq (terms : List K) : stableSum terms = terms.sum := by
  rw [stableSum, foldl_add_eq]
  simp

/-- The squared deviations are an ordinary sum of squares. -/
theorem squaredDeviations_eq (mean : K) (samples : List K) :
    squaredDeviations mean samples = (samples.map fun x => (x - mean) * (x - mean)).sum := by
  rw [squaredDeviations, stableSum_eq]
  rfl

/-- In other units the squares are in the square of the unit. -/
theorem squaredDeviations_map_mul (c mean : K) (samples : List K) :
    squaredDeviations (c * mean) (samples.map (c * ·)) =
      c * c * squaredDeviations mean samples := by
  rw [squaredDeviations_eq, squaredDeviations_eq, List.map_map, ← List.sum_map_mul_left]
  congr 1
  apply List.map_congr_left
  intro x _
  -- Each square for itself has the unit as a factor twice.
  show (c * x - c * mean) * (c * x - c * mean) = c * c * ((x - mean) * (x - mean))
  ring

variable [ExactAnalysis K]

/-! ### The sorted copy -/

/-- The samples are sorted by their size. -/
theorem sortSamples_eq (samples : List K) :
    sortSamples samples = samples.insertionSort (· ≤ ·) := by
  -- As tests the two orders answer alike, so both algorithms are given one test.
  have horder : (precedes : K → K → Bool) = fun x y => decide (x ≤ y) := by
    funext x y
    rw [Bool.eq_iff_iff, ExactAnalysis.precedes_iff, decide_eq_true_iff]
  rw [sortSamples, horder]
  exact List.mergeSort_eq_insertionSort (· ≤ ·) samples

/-- A map that keeps the order of numbers may be applied before sorting or after it. -/
theorem sortSamples_map_of_monotone {f : K → K} (hf : Monotone f) (samples : List K) :
    sortSamples (samples.map f) = (sortSamples samples).map f := by
  apply sortSamples_map
  intro x y
  rw [ExactAnalysis.precedes_iff, ExactAnalysis.precedes_iff]
  exact fun hle => hf hle

variable [IsStrictOrderedRing K]

/-! ### The largest magnitude as a unit -/

/-- The largest magnitude is the largest of the magnitudes and zero. -/
theorem largestMagnitude_eq (samples : List K) :
    largestMagnitude samples = (samples.map (|·|)).foldl larger 0 := by
  simp [largestMagnitude, List.foldl_map]

/-- It is not negative, even without samples. -/
theorem largestMagnitude_nonneg (samples : List K) : 0 ≤ largestMagnitude samples := by
  rw [largestMagnitude_eq, le_foldl_larger_iff]
  exact .inl le_rfl

/-- Only zeros have no magnitude that could be a unit. -/
theorem eq_replicate_of_largestMagnitude {samples : List K} (h : largestMagnitude samples = 0) :
    samples = List.replicate samples.length 0 := by
  rw [largestMagnitude_eq] at h
  obtain ⟨-, hle⟩ := foldl_larger_le_iff.mp h.le
  refine List.eq_replicate_iff.mpr ⟨rfl, ?_⟩
  intro x hx
  exact abs_nonpos_iff.mp (hle |x| (List.mem_map_of_mem hx))

/-- The mean that is taken in units of the largest magnitude is the mean. -/
theorem scaledMean_eq (samples : List K) : scaledMean samples = samples.sum / samples.length := by
  rw [scaledMean, stableSum_eq, sum_map_div]
  -- Without a unit all samples are zero, and there is nothing to divide.
  by_cases hunit : largestMagnitude samples = 0
  · rw [eq_replicate_of_largestMagnitude hunit]
    simp
  · show samples.sum / largestMagnitude samples / samples.length * largestMagnitude samples = _
    rw [div_right_comm, div_mul_cancel₀ _ hunit]

/-- **The mean** is the sum by the count, on either branch. -/
theorem sampleMean_eq (samples : List K) : sampleMean samples = samples.sum / samples.length := by
  rw [sampleMean]
  split
  · rw [plainMean, stableSum_eq]
  · exact scaledMean_eq samples

/-- The deviation that is taken in units of the largest magnitude is the deviation. -/
theorem scaledDeviation_eq (samples : List K) :
    scaledDeviation (sampleMean samples) samples =
      squareRoot (squaredDeviations (sampleMean samples) samples / freedom samples) := by
  rw [scaledDeviation, sampleMean_eq]
  by_cases hunit : largestMagnitude samples = 0
  · -- All samples are zero, and so are their mean and their deviations from it.
    have hsquares : squaredDeviations (samples.sum / samples.length) samples = 0 := by
      rw [squaredDeviations_eq, eq_replicate_of_largestMagnitude hunit]
      simp
    rw [hunit, mul_zero, hsquares, zero_div, squareRoot_zero]
  · have hpos := lt_of_le_of_ne (largestMagnitude_nonneg samples) (Ne.symm hunit)
    generalize largestMagnitude samples = unit at hunit hpos
    generalize samples.sum / samples.length = mean
    -- The samples are those in units of the largest magnitude, times that unit.
    have hsamples : (samples.map (· / unit)).map (unit * ·) = samples := by
      rw [List.map_map]
      exact List.map_id'' (fun x => mul_div_cancel₀ x hunit) samples
    have hsquares := squaredDeviations_map_mul unit (mean / unit) (samples.map (· / unit))
    rw [hsamples, mul_div_cancel₀ mean hunit] at hsquares
    rw [hsquares, mul_div_assoc, ExactAnalysis.squareRoot_mul _ _ hpos, mul_comm]

/-- **The deviation** is the root of the squared deviations by the degrees of freedom, on either
branch. -/
theorem sampleDeviation_eq (samples : List K) :
    sampleDeviation (sampleMean samples) samples =
      if 1 < samples.length then
        squareRoot (squaredDeviations (sampleMean samples) samples / freedom samples)
      else 0 := by
  rw [sampleDeviation]
  -- One sample has no degree of freedom and gets no deviation on either side.
  by_cases hmany : 1 < samples.length
  · rw [if_pos hmany, if_pos hmany]
    show ite _ _ _ = _
    split
    · rfl
    · exact scaledDeviation_eq samples
  · rw [if_neg hmany, if_neg hmany, Nat.cast_zero]

/-! ### Other units -/

/-- The mean in other units. -/
theorem sampleMean_map_mul (c : K) (samples : List K) :
    sampleMean (samples.map (c * ·)) = c * sampleMean samples := by
  rw [sampleMean_eq, sampleMean_eq, List.sum_map_mul_left, List.map_id', List.length_map,
    mul_div_assoc]

/-- The deviation in other units, where the unit comes out of the root. -/
theorem sampleDeviation_map_mul {c : K} (hc : 0 < c) (samples : List K) :
    sampleDeviation (c * sampleMean samples) (samples.map (c * ·)) =
      c * sampleDeviation (sampleMean samples) samples := by
  rw [← sampleMean_map_mul, sampleDeviation_eq, sampleDeviation_eq, sampleMean_map_mul,
    squaredDeviations_map_mul, freedom_map, List.length_map, mul_div_assoc,
    ExactAnalysis.squareRoot_mul _ _ hc, mul_ite, mul_zero]

/-- The same statistics when one unit is so many of the new ones. -/
def Statistics.scale (c : K) (s : Statistics K) : Statistics K where
  median := c * s.median
  mean := c * s.mean
  deviation := c * s.deviation
  variation := s.variation
  p10 := c * s.p10
  p90 := c * s.p90

/-- **Statistics in other units.** -/
theorem Statistics.of_map_mul {c : K} (hc : 0 < c) (samples : List K) :
    Statistics.of (samples.map (c * ·)) = (Statistics.of samples).scale c := by
  -- No samples have the same figures in every unit, all of them zero.
  rcases eq_or_ne samples [] with rfl | h
  · simp [zero, scale]
  · have hmap : samples.map (c * ·) ≠ [] := by simpa using h
    have hne := sortSamples_ne_nil h
    -- The unit is positive, so the sorted copy in the new units is the old one in them.
    have hsort := sortSamples_map_of_monotone (monotone_mul_left_of_nonneg hc.le) samples
    have hmedian : sortedMedian ((sortSamples samples).map (c * ·)) =
        c * sortedMedian (sortSamples samples) := sortedMedian_map (fun x y => by ring) hne
    rw [of_eq h, of_eq hmap, sampleMean_map_mul, sampleDeviation_map_mul hc, variationOf_mul hc,
      hsort, hmedian, nearestRank_map _ hne, nearestRank_map _ hne]
    rfl

end PinnedBench
