import Mathlib
import PinnedBench.Proofs.Stats.Positions
import PinnedBench.Proofs.Stats.Spread

/-!
# The order of the figures

The percentiles are samples, the tenth percentile is at most the median, and the median is at most
the ninetieth (`PercentilesInOrder`). Of this it matters only which positions of the sorted copy
they are taken from, so it holds in exact arithmetic and also of the figures as they are stored, if
the ranks are exact and the halves of samples can be stored.

In exact arithmetic the mean lies between the least and the greatest sample, and the deviation is
not negative and vanishes exactly if all samples are equal (`Statistics.InOrder`). Of the square
root only its sign is asked. The rounding of a stored mean can move it past all samples, even if
these are equal (`stored_mean_above_samples`). But the deviation and the coefficient of variation of
finite samples are not below zero as they are stored either (`Statistics.zero_le_spread`).
-/

namespace PinnedBench

open Double (values)

/-- **Percentiles in order**, between the least and the greatest sample. -/
structure PercentilesInOrder {K : Type} [LinearOrder K] (samples : List K) (h : samples ≠ [])
    (p10 median p90 : K) : Prop where
  /-- The tenth percentile is a sample. -/
  p10_mem : p10 ∈ samples
  /-- The ninetieth percentile is a sample. -/
  p90_mem : p90 ∈ samples
  /-- The tenth percentile is at least the least sample. -/
  least_le_p10 : samples.min h ≤ p10
  /-- The median is not below the tenth percentile. -/
  p10_le_median : p10 ≤ median
  /-- The median is not above the ninetieth percentile. -/
  median_le_p90 : median ≤ p90
  /-- The ninetieth percentile is at most the greatest sample. -/
  p90_le_greatest : p90 ≤ samples.max h

/-- **Figures in order**, between the least and the greatest sample. -/
structure Statistics.InOrder {K : Type} [Zero K] [LinearOrder K] (samples : List K)
    (h : samples ≠ []) (s : Statistics K) : Prop
    extends PercentilesInOrder samples h s.p10 s.median s.p90 where
  /-- The mean is at least the least sample. -/
  least_le_mean : samples.min h ≤ s.mean
  /-- The mean is at most the greatest sample. -/
  mean_le_greatest : s.mean ≤ samples.max h
  /-- The deviation is not negative. -/
  deviation_nonneg : 0 ≤ s.deviation
  /-- The coefficient of variation is not negative, whatever the sign of the mean is. -/
  variation_nonneg : 0 ≤ s.variation
  /-- The deviation vanishes exactly if any two samples are equal. -/
  deviation_eq_zero_iff : s.deviation = 0 ↔ ∀ x ∈ samples, ∀ y ∈ samples, x = y

/-- Positions that a statistic reads in a sorted copy: none is outside, so that no rank is cut off
and no missing sample is replaced. -/
structure PositionsInside {α : Type} [Mul α] [NatCast α] [OfScientific α] [Analysis α]
    (sorted : List α) : Prop where
  /-- The rank of the tenth percentile. -/
  tenth : wholePart ((sorted.length : α) * 0.1) < sorted.length
  /-- The rank of the ninetieth percentile. -/
  nine_tenths : wholePart ((sorted.length : α) * 0.9) < sorted.length
  /-- The middle, which is always read. -/
  middle : sorted.length / 2 < sorted.length
  /-- The neighbour below the middle, which is read if the count is even. -/
  before_middle : sorted.length % 2 = 0 → 0 < sorted.length / 2

/-- Exact ranks of a sorted copy are inside of it. -/
theorem PositionsInside.of_exact {α : Type} [Mul α] [NatCast α] [OfScientific α] [Analysis α]
    {sorted : List α} (hne : sorted ≠ []) (hranks : ExactRanks α sorted.length) :
    PositionsInside sorted := by
  have hpos := List.length_pos_iff.mpr hne
  -- With exact ranks it is about whole numbers.
  obtain ⟨htenth, hnine⟩ := hranks
  constructor
  · omega
  · omega
  · omega
  · omega

/-- **A number between the two middle samples** is in order with the percentiles. -/
theorem PercentilesInOrder.of_between {K : Type} [NatCast K] [LinearOrder K]
    {samples sorted : List K}
    (h : samples ≠ []) (hperm : sorted.Perm samples) (hsorted : sorted.Pairwise (· ≤ ·)) {m : K}
    (hlower : sampleAt sorted ((sorted.length - 1) / 2) ≤ m)
    (hupper : m ≤ sampleAt sorted (sorted.length / 2)) :
    PercentilesInOrder samples h (sampleAt sorted (sorted.length / 10)) m
      (sampleAt sorted (9 * sorted.length / 10)) := by
  have hpos : 0 < sorted.length := hperm.length_eq ▸ List.length_pos_iff.mpr h
  -- The positions are ordered as `n / 10`, `(n - 1) / 2`, `n / 2` and `9 * n / 10`, all of them
  -- inside.
  have hmem : ∀ i, i < sorted.length → sampleAt sorted i ∈ samples :=
    fun i hi => hperm.mem_iff.mp (sampleAt_mem hi)
  have hfirst := hmem (sorted.length / 10) (by omega)
  have hlast := hmem (9 * sorted.length / 10) (by omega)
  constructor
  · exact hfirst
  · exact hlast
  · exact List.min_le_of_mem hfirst
  · exact (sampleAt_mono hsorted (by omega) (by omega)).trans hlower
  · exact hupper.trans (sampleAt_mono hsorted (by omega) (by omega))
  · exact List.le_max_of_mem hlast

variable {K : Type} [Field K] [LinearOrder K] [IsStrictOrderedRing K]

/-! ### Stored percentiles -/

/-- The stored percentiles are samples, bit for bit, whatever the rounded ranks are. -/
theorem Statistics.stored_percentiles_mem {samples : List Double} (h : samples ≠ []) :
    (Statistics.of samples).p10 ∈ samples ∧ (Statistics.of samples).p90 ∈ samples := by
  have hne := sortSamples_ne_nil h
  rw [of_eq h]
  exact ⟨mem_sortSamples.mp (nearestRank_mem hne _), mem_sortSamples.mp (nearestRank_mem hne _)⟩

/-- **Stored percentiles** are in order, with the median as it is stored. -/
theorem Statistics.stored_percentiles_inOrder {samples : List Double} (h : samples ≠ [])
    (hfinite : ∀ x ∈ samples, x.isFinite = true) (hranks : ExactRanks Double samples.length)
    (hhalves : samples.length % 2 = 1 ∨ ∀ x ∈ samples, x.HalvesExactly) :
    PercentilesInOrder (values K samples) (Double.values_ne_nil h)
      ((Statistics.of samples).p10.value : K) ((Statistics.of samples).median.value : K)
      ((Statistics.of samples).p90.value : K) := by
  have hne := sortSamples_ne_nil h
  have hpos := List.length_pos_iff.mpr hne
  obtain ⟨hlower, hupper⟩ := values_sortedMedian_between (K := K) h hfinite hhalves
  obtain ⟨hp10, hp90⟩ := nearestRank_tenths hne (by rwa [length_sortSamples])
  -- The values of the sorted patterns are a sorted copy of the values.
  have hbetween := PercentilesInOrder.of_between (Double.values_ne_nil h)
    (Double.values_sortSamples_perm samples) (values_pairwise_le samples) hlower hupper
  rw [Double.length_values, sampleAt_values (by omega), sampleAt_values (by omega)] at hbetween
  rw [of_eq h, hp10, hp90]
  exact hbetween

/-- A coefficient of variation has the sign of the deviation, or it is zero. -/
theorem variationOf_nonneg {mean deviation : K} (h : 0 ≤ deviation) :
    0 ≤ variationOf mean deviation := by
  rw [variationOf, Nat.cast_zero]
  split
  next hmean => exact mul_nonneg (div_nonneg h hmean.le) (Nat.cast_nonneg 100)
  next => exact le_rfl

variable [Analysis K]

/-! ### The mean -/

section Mean

variable [ExactAnalysis K] {samples : List K} {bound : K}

/-- The mean is not below what is below all samples. -/
theorem le_sampleMean (h : samples ≠ []) (hle : ∀ x ∈ samples, bound ≤ x) :
    bound ≤ sampleMean samples := by
  have hcount : (0 : K) < samples.length := Nat.cast_pos.mpr (List.length_pos_iff.mpr h)
  rw [sampleMean_eq, le_div_iff₀ hcount, mul_comm, ← nsmul_eq_mul]
  exact List.card_nsmul_le_sum samples bound hle

/-- The mean is not above what is above all samples. -/
theorem sampleMean_le (h : samples ≠ []) (hle : ∀ x ∈ samples, x ≤ bound) :
    sampleMean samples ≤ bound := by
  have hcount : (0 : K) < samples.length := Nat.cast_pos.mpr (List.length_pos_iff.mpr h)
  rw [sampleMean_eq, div_le_iff₀ hcount, mul_comm, ← nsmul_eq_mul]
  exact List.sum_le_card_nsmul samples bound hle

end Mean

/-! ### The deviation -/

/-- A sum of squares is not negative. -/
theorem squaredDeviations_nonneg (mean : K) (samples : List K) :
    0 ≤ squaredDeviations mean samples := by
  rw [squaredDeviations_eq]
  apply List.sum_nonneg
  intro y hy
  obtain ⟨x, -, rfl⟩ := List.mem_map.mp hy
  exact mul_self_nonneg (x - mean)

/-- **Squared deviations vanish** only if there are none. -/
theorem squaredDeviations_eq_zero_iff {mean : K} {samples : List K} :
    squaredDeviations mean samples = 0 ↔ ∀ x ∈ samples, x = mean := by
  rw [squaredDeviations_eq]
  constructor
  · intro hsum x hx
    -- A sum of terms that are not negative vanishes only if every term does.
    have hzero : (x - mean) * (x - mean) = 0 := by
      refine List.all_zero_of_le_zero_le_of_sum_eq_zero ?_ hsum (List.mem_map_of_mem hx)
      intro y hy
      obtain ⟨z, -, rfl⟩ := List.mem_map.mp hy
      exact mul_self_nonneg (z - mean)
    exact sub_eq_zero.mp (mul_self_eq_zero.mp hzero)
  · intro hall
    apply List.sum_eq_zero
    intro y hy
    obtain ⟨x, hx, rfl⟩ := List.mem_map.mp hy
    rw [hall x hx, sub_self, mul_zero]

variable [ExactAnalysis K]

/-- Samples are equal to their mean exactly if they are equal to one another. -/
theorem forall_eq_sampleMean_iff {samples : List K} :
    (∀ x ∈ samples, x = sampleMean samples) ↔ ∀ x ∈ samples, ∀ y ∈ samples, x = y := by
  constructor
  · intro hall x hx y hy
    rw [hall x hx, hall y hy]
  · intro hall x hx
    have hne : samples ≠ [] := List.ne_nil_of_mem hx
    -- The sample is a bound from both sides, and so it is one of the mean.
    apply le_antisymm
    · exact le_sampleMean hne fun y hy => (hall x hx y hy).le
    · exact sampleMean_le hne fun y hy => (hall y hy x hx).le

section Root

variable (hroot : ∀ v : K, 0 < v → 0 < squareRoot v)
include hroot

theorem squareRoot_nonneg {v : K} (hv : 0 ≤ v) : 0 ≤ squareRoot v := by
  rcases hv.eq_or_lt with rfl | hpos
  · exact squareRoot_zero.ge
  · exact (hroot v hpos).le

/-- Only zero has the square root zero. -/
theorem squareRoot_eq_zero_iff {v : K} (hv : 0 ≤ v) : squareRoot v = 0 ↔ v = 0 := by
  constructor
  · intro hzero
    by_contra hne
    exact (hroot v (lt_of_le_of_ne hv (Ne.symm hne))).ne' hzero
  · rintro rfl
    exact squareRoot_zero

/-- The deviation is not negative. -/
theorem sampleDeviation_nonneg (samples : List K) :
    0 ≤ sampleDeviation (sampleMean samples) samples := by
  rw [sampleDeviation_eq]
  split
  · exact squareRoot_nonneg hroot
      (div_nonneg (squaredDeviations_nonneg _ _) (Nat.cast_nonneg _))
  · exact le_rfl

/-- **The deviation vanishes** exactly if all samples are equal. -/
theorem sampleDeviation_eq_zero_iff {samples : List K} :
    sampleDeviation (sampleMean samples) samples = 0 ↔ ∀ x ∈ samples, ∀ y ∈ samples, x = y := by
  rw [sampleDeviation_eq]
  split
  next hmany =>
    -- With two samples or more the divisor is positive, so the deviation vanishes with the squares.
    have hfreedom : (0 : K) < freedom samples := Nat.cast_pos.mpr (by omega)
    rw [squareRoot_eq_zero_iff hroot (div_nonneg (squaredDeviations_nonneg _ _) hfreedom.le),
      div_eq_zero_iff, or_iff_left hfreedom.ne', squaredDeviations_eq_zero_iff,
      forall_eq_sampleMean_iff]
  next hfew =>
    -- A single sample is equal to itself.
    refine iff_of_true rfl fun x hx y hy => ?_
    obtain ⟨i, hi, rfl⟩ := List.mem_iff_getElem.mp hx
    obtain ⟨j, hj, rfl⟩ := List.mem_iff_getElem.mp hy
    congr 1
    omega

end Root

/-! ### All figures -/

/-- In exact arithmetic no rank is outside of the sorted copy. -/
theorem positionsInside_sortSamples {samples : List K} (h : samples ≠ []) :
    PositionsInside (sortSamples samples) :=
  .of_exact (sortSamples_ne_nil h) (exactRanks _)

/-- In exact arithmetic the percentiles and the median are in order. -/
theorem Statistics.percentilesInOrder {samples : List K} (h : samples ≠ []) :
    PercentilesInOrder samples h (Statistics.of samples).p10 (Statistics.of samples).median
      (Statistics.of samples).p90 := by
  have hne := sortSamples_ne_nil h
  have hsorted := sortSamples_pairwise_le samples
  obtain ⟨hlower, hupper⟩ := sortedMedian_between hsorted hne
  obtain ⟨hp10, hp90⟩ := nearestRank_tenths hne (exactRanks _)
  rw [of_eq h, hp10, hp90]
  exact .of_between h (sortSamples_perm samples) hsorted hlower hupper

/-- **The figures of a sample set** are in order. -/
theorem Statistics.inOrder (hroot : ∀ v : K, 0 < v → 0 < squareRoot v) {samples : List K}
    (h : samples ≠ []) : (Statistics.of samples).InOrder samples h where
  toPercentilesInOrder := percentilesInOrder h
  least_le_mean := by
    rw [of_eq h]
    exact le_sampleMean h fun x hx => List.min_le_of_mem hx
  mean_le_greatest := by
    rw [of_eq h]
    exact sampleMean_le h fun x hx => List.le_max_of_mem hx
  deviation_nonneg := by
    rw [of_eq h]
    exact sampleDeviation_nonneg hroot samples
  variation_nonneg := by
    rw [of_eq h]
    exact variationOf_nonneg (sampleDeviation_nonneg hroot samples)
  deviation_eq_zero_iff := by
    rw [of_eq h]
    exact sampleDeviation_eq_zero_iff hroot

/-- **Figures are in order.** In exact arithmetic no position that a statistic reads is outside of
the sorted copy, and all figures of any samples are in order. Of stored samples the percentiles are
some of them, bit for bit. If the stored samples are finite, their deviation and their coefficient
of variation are not below zero as they are stored; and if the ranks are exact too, with an odd
count or halves that can be stored, then no position is outside and the percentiles and the median
are in order as they are stored. -/
theorem figures_in_order {K : Type} [Field K] [LinearOrder K] [IsStrictOrderedRing K] [Analysis K]
    [ExactAnalysis K] (hroot : ∀ v : K, 0 < v → 0 < squareRoot v) :
    (∀ (samples : List K) (h : samples ≠ []),
      PositionsInside (sortSamples samples) ∧ (Statistics.of samples).InOrder samples h) ∧
    ∀ (samples : List Double) (h : samples ≠ []),
      ((Statistics.of samples).p10 ∈ samples ∧ (Statistics.of samples).p90 ∈ samples) ∧
      ((∀ x ∈ samples, x.isFinite = true) →
        (((0 : Nat) : Double) ≤ (Statistics.of samples).deviation ∧
          ((0 : Nat) : Double) ≤ (Statistics.of samples).variation) ∧
        (ExactRanks Double samples.length →
          (samples.length % 2 = 1 ∨ ∀ x ∈ samples, x.HalvesExactly) →
          PositionsInside (sortSamples samples) ∧
            PercentilesInOrder (values K samples) (Double.values_ne_nil h)
              ((Statistics.of samples).p10.value : K) ((Statistics.of samples).median.value : K)
              ((Statistics.of samples).p90.value : K))) := by
  constructor
  · intro samples h
    exact ⟨positionsInside_sortSamples h, Statistics.inOrder hroot h⟩
  · intro samples h
    refine ⟨Statistics.stored_percentiles_mem h, ?_⟩
    intro hfinite
    refine ⟨Statistics.zero_le_spread h hfinite, ?_⟩
    intro hranks hhalves
    constructor
    · -- Exact ranks are those of exact arithmetic, and the sorted copy is as long as the samples.
      exact .of_exact (sortSamples_ne_nil h) (by rwa [length_sortSamples])
    · exact Statistics.stored_percentiles_inOrder h hfinite hranks hhalves

/-- Three real durations, and two stored ones whose halves can be stored. -/
theorem figures_in_order_of_few :
    (∀ v : ℝ, 0 < v → 0 < squareRoot v) ∧
    (PositionsInside (sortSamples [3, 1, (2 : ℝ)]) ∧
      (Statistics.of [3, 1, (2 : ℝ)]).InOrder [3, 1, 2] (List.cons_ne_nil _ _)) ∧
    (∀ x ∈ [3.0, (1.0 : Double)], x.isFinite = true) ∧
    (((0 : Nat) : Double) ≤ (Statistics.of [3.0, (1.0 : Double)]).deviation ∧
      ((0 : Nat) : Double) ≤ (Statistics.of [3.0, (1.0 : Double)]).variation) ∧
    ExactRanks Double 2 ∧
    (∀ x ∈ [3.0, (1.0 : Double)], x.HalvesExactly) ∧
    PercentilesInOrder (values ℝ [3.0, 1.0]) (List.cons_ne_nil _ _)
      (Statistics.of [3.0, (1.0 : Double)]).p10.value
      (Statistics.of [3.0, (1.0 : Double)]).median.value
      (Statistics.of [3.0, (1.0 : Double)]).p90.value := by
  have hroot : ∀ v : ℝ, 0 < v → 0 < squareRoot v := fun v hv => Real.sqrt_pos.mpr hv
  have hfinite : ∀ x ∈ [3.0, (1.0 : Double)], x.isFinite = true := by decide +kernel
  -- The rank of either percentile of two samples is computed in stored numbers.
  have hranks : ExactRanks Double 2 := ⟨by decide +kernel, by decide +kernel⟩
  have hhalves : ∀ x ∈ [3.0, (1.0 : Double)], x.HalvesExactly := by
    unfold Double.HalvesExactly
    decide +kernel
  obtain ⟨hexact, hstored⟩ := figures_in_order hroot
  obtain ⟨-, hstored⟩ := hstored [3.0, 1.0] (List.cons_ne_nil _ _)
  obtain ⟨hspread, hstored⟩ := hstored hfinite
  obtain ⟨-, hinOrder⟩ := hstored hranks (.inr hhalves)
  exact ⟨hroot, hexact _ _, hfinite, hspread, hranks, hhalves, hinOrder⟩

/-- **The mean of equal samples** may be stored as a number above all of them, and then they deviate
from it: three tenths are rounded up, and so is a third of them. -/
theorem stored_mean_above_samples :
    let samples : List Double := [0.1, 0.1, 0.1]
    (∀ x ∈ samples, x.isFinite = true) ∧ ExactRanks Double samples.length ∧
      samples.length % 2 = 1 ∧ (∀ x ∈ samples, x = 0.1) ∧
      0.1 < (Statistics.of samples).mean ∧
      ((0 : Nat) : Double) < (Statistics.of samples).deviation := by
  intro samples
  have hne : samples ≠ [] := List.cons_ne_nil _ _
  rw [Statistics.of_eq hne]
  refine ⟨?_, ⟨?_, ?_⟩, ?_, ?_, ?_, ?_⟩
  all_goals decide +kernel

end PinnedBench
