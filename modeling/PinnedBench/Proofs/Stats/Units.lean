import Mathlib
import PinnedBench.Proofs.Stats.Scaling
import PinnedBench.Stats.Comparison

/-!
# Comparisons in other units

A unit of time that is so many of another multiplies every sample, and so it multiplies every figure
that is a duration (`Statistics.of_map_mul`). The coefficient of variation is a quotient of two of
them, and the gain another, whose guards ask for the sign of a duration and are answered as before.
So the verdict and the gain are the same in every unit (`Comparison.of_map_mul`).

A duration that is added to every sample is added to the median, the mean and the percentiles, and
deviations from the mean are as before (`Statistics.of_map_add`). The empty sample set is left out
here: its figures are zeros.
-/

namespace PinnedBench

variable {K : Type} [Field K] [LinearOrder K] [IsStrictOrderedRing K] [Analysis K] [ExactAnalysis K]

/-! ### Another unit -/

/-- The same comparison when one unit is so many of the new ones. -/
def Comparison.scale (c : K) (s : Comparison K) : Comparison K where
  baseline := s.baseline.scale c
  optimized := s.optimized.scale c
  delta := c * s.delta
  gain := s.gain
  verdict := s.verdict

omit [Analysis K] [ExactAnalysis K] in
/-- The gain is to the median what the coefficient of variation is to the mean. -/
theorem gainPercent_mul {c : K} (hc : 0 < c) (delta median : K) :
    gainPercent (c * delta) (c * median) = gainPercent delta median :=
  variationOf_mul hc median delta

/-- **Comparisons in other units.** -/
theorem Comparison.of_map_mul {c : K} (hc : 0 < c) (xs ys : List K) :
    Comparison.of (xs.map (c * ·)) (ys.map (c * ·)) = (Comparison.of xs ys).scale c := by
  -- The difference is the one figure that is not a statistic, and it has the unit of the medians.
  have hdelta : c * (Statistics.of xs).median - c * (Statistics.of ys).median =
      c * ((Statistics.of xs).median - (Statistics.of ys).median) := (mul_sub _ _ _).symm
  rw [Comparison.of, Comparison.of, Statistics.of_map_mul hc, Statistics.of_map_mul hc, scale]
  simp only [Statistics.scale, hdelta, gainPercent_mul hc]

/-! ### A duration added to every sample -/

/-- The same statistics when every sample is longer by a duration. -/
def Statistics.shift (t : K) (s : Statistics K) : Statistics K where
  median := s.median + t
  mean := s.mean + t
  deviation := s.deviation
  variation := variationOf (s.mean + t) s.deviation
  p10 := s.p10 + t
  p90 := s.p90 + t

variable {samples : List K}

/-- A duration that is added to every sample is added to the mean. -/
theorem sampleMean_map_add (t : K) (h : samples ≠ []) :
    sampleMean (samples.map (· + t)) = sampleMean samples + t := by
  have hcount : (samples.length : K) ≠ 0 :=
    Nat.cast_ne_zero.mpr (List.length_pos_iff.mpr h).ne'
  have hsum : (samples.map (· + t)).sum = samples.sum + samples.length * t := by
    rw [List.sum_map_add, List.map_id', List.map_const', List.sum_replicate, nsmul_eq_mul]
  rw [sampleMean_eq, sampleMean_eq, hsum, List.length_map, add_div, mul_div_cancel_left₀ t hcount]

/-- A duration that is added to every sample does not change the deviation. -/
theorem sampleDeviation_map_add (t : K) (h : samples ≠ []) :
    sampleDeviation (sampleMean samples + t) (samples.map (· + t)) =
      sampleDeviation (sampleMean samples) samples := by
  -- The mean moves with the samples, so each of them is as far from it as before.
  have hsquares : squaredDeviations (sampleMean samples + t) (samples.map (· + t)) =
      squaredDeviations (sampleMean samples) samples := by
    rw [squaredDeviations_eq, squaredDeviations_eq, List.map_map]
    congr 1
    apply List.map_congr_left
    intro x _
    show (x + t - (sampleMean samples + t)) * (x + t - (sampleMean samples + t)) = _
    rw [add_sub_add_right_eq_sub]
  rw [← sampleMean_map_add t h, sampleDeviation_eq, sampleDeviation_eq, sampleMean_map_add t h,
    hsquares, freedom_map, List.length_map]

/-- **Statistics of longer samples.** -/
theorem Statistics.of_map_add (t : K) (h : samples ≠ []) :
    Statistics.of (samples.map (· + t)) = (Statistics.of samples).shift t := by
  have hmap : samples.map (· + t) ≠ [] := by simpa using h
  have hne := sortSamples_ne_nil h
  -- Adding a duration keeps the order, so the sorted copy moves as a whole.
  have hsort := sortSamples_map_of_monotone (add_left_mono (a := t)) samples
  have hmedian : sortedMedian ((sortSamples samples).map (· + t)) =
      sortedMedian (sortSamples samples) + t := by
    refine sortedMedian_map (fun x y => ?_) hne
    -- Half the duration comes with each of the two middle samples.
    rw [Nat.cast_ofNat]
    ring
  rw [of_eq h, of_eq hmap, sampleMean_map_add t h, sampleDeviation_map_add t h, hsort, hmedian,
    nearestRank_map _ hne, nearestRank_map _ hne]
  rfl

/-! ### Both changes -/

/-- **The unit of time does not matter** to a verdict, to a gain and to a coefficient of variation:
in exact arithmetic the durations of a comparison are given in the new unit, and the rest is as it
was, with an empty side as well. A duration added to every sample is added to the median, the mean
and the percentiles, and the deviation is as it was. -/
theorem comparison_in_other_units {c : K} (hc : 0 < c) :
    (∀ samples : List K,
      Statistics.of (samples.map (c * ·)) = (Statistics.of samples).scale c) ∧
    (∀ xs ys : List K,
      Comparison.of (xs.map (c * ·)) (ys.map (c * ·)) = (Comparison.of xs ys).scale c) ∧
    ∀ (t : K) (samples : List K), samples ≠ [] →
      Statistics.of (samples.map (· + t)) = (Statistics.of samples).shift t :=
  ⟨Statistics.of_map_mul hc, Comparison.of_map_mul hc, fun t _ h => Statistics.of_map_add t h⟩

/-- Durations in seconds given in milliseconds, compared with none; and with a start of two seconds.
-/
theorem comparison_in_milliseconds :
    (0 : ℝ) < 1000 ∧
      Comparison.of ([0.5, 0.25].map (1000 * ·)) (List.map (1000 * ·) []) =
        (Comparison.of [0.5, 0.25] [] : Comparison ℝ).scale 1000 ∧
      Statistics.of ([0.5, 0.25].map (· + 2)) =
        (Statistics.of [0.5, 0.25] : Statistics ℝ).shift 2 := by
  have hpos : (0 : ℝ) < 1000 := by norm_num
  obtain ⟨-, hcomparison, hlonger⟩ := comparison_in_other_units hpos
  exact ⟨hpos, hcomparison [0.5, 0.25] [], hlonger 2 [0.5, 0.25] (List.cons_ne_nil _ _)⟩

end PinnedBench
