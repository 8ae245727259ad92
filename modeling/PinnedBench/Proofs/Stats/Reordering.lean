import Mathlib
import PinnedBench.Proofs.Stats.Scaling

/-!
# Samples measured in another order

Rearranged samples have one sorted copy, since the sorting order takes no two numbers for one. So
the median and the percentiles, which are read off the copy, do not depend on the order of
measurement (`Statistics.sameOrderFigures`). This holds of stored numbers bit for bit, those that
stand for no number included, and then also of the difference and of the gain of a comparison, which
are made from medians alone (`Comparison.delta_of_perm`, `Comparison.gain_of_perm`).

The mean and the deviation are sums over the samples as they were measured, whose rounding depends
on the order. In exact arithmetic it does not matter either, and so neither does it to a verdict
(`Statistics.of_perm`, `Comparison.of_perm`).
-/

namespace PinnedBench

/-! ### Figures of the sorted copy -/

section Sorted

variable {α : Type} [Add α] [Sub α] [Mul α] [Div α] [NatCast α] [OfScientific α] [LT α]
  [DecidableLT α] [LE α] [DecidableLE α] [Analysis α] {xs ys : List α}

/-- **The same order figures**: those that are read off a sorted copy. -/
structure Statistics.SameOrderFigures (s t : Statistics α) : Prop where
  /-- The medians are the same, -/
  median_eq : s.median = t.median
  /-- and so are the tenth -/
  p10_eq : s.p10 = t.p10
  /-- and the ninetieth percentile. -/
  p90_eq : s.p90 = t.p90

variable [SortingOrder α]

/-- **Rearranged samples** have the same median and percentiles. -/
theorem Statistics.sameOrderFigures (h : xs.Perm ys) :
    SameOrderFigures (Statistics.of xs) (Statistics.of ys) := by
  rcases eq_or_ne xs [] with rfl | hxs
  · rw [List.nil_perm.mp h]
    exact ⟨rfl, rfl, rfl⟩
  · have hys : ys ≠ [] := fun hnil => hxs (List.perm_nil.mp (hnil ▸ h))
    -- The three figures are read off the sorted copy, of which there is one for both.
    rw [of_eq hxs, of_eq hys, sortSamples_of_perm h]
    exact ⟨rfl, rfl, rfl⟩

variable {xs' ys' : List α}

/-- The difference of a comparison is that of two medians, which stay the same. -/
theorem Comparison.delta_of_perm (hxs : xs.Perm xs') (hys : ys.Perm ys') :
    (Comparison.of xs ys).delta = (Comparison.of xs' ys').delta := by
  -- The mean and the deviation, which rounding may change, are not read.
  show (Statistics.of xs).median - (Statistics.of ys).median =
    (Statistics.of xs').median - (Statistics.of ys').median
  rw [(Statistics.sameOrderFigures hxs).median_eq, (Statistics.sameOrderFigures hys).median_eq]

/-- So is the gain, as a part of the median of the baseline. -/
theorem Comparison.gain_of_perm (hxs : xs.Perm xs') (hys : ys.Perm ys') :
    (Comparison.of xs ys).gain = (Comparison.of xs' ys').gain := by
  show gainPercent (Comparison.of xs ys).delta (Statistics.of xs).median =
    gainPercent (Comparison.of xs' ys').delta (Statistics.of xs').median
  rw [delta_of_perm hxs hys, (Statistics.sameOrderFigures hxs).median_eq]

end Sorted

/-! ### Sums in exact arithmetic -/

section Sums

variable {K : Type} [Field K] [LinearOrder K] [IsStrictOrderedRing K] [Analysis K] [ExactAnalysis K]
  {xs ys : List K}

/-- In exact arithmetic the mean is a sum by a count, and neither depends on the order. -/
theorem sampleMean_of_perm (h : xs.Perm ys) : sampleMean xs = sampleMean ys := by
  rw [sampleMean_eq, sampleMean_eq, h.sum_eq, h.length_eq]

/-- In exact arithmetic the deviation is made of the mean and a sum of squares. -/
theorem sampleDeviation_of_perm (h : xs.Perm ys) :
    sampleDeviation (sampleMean xs) xs = sampleDeviation (sampleMean ys) ys := by
  -- The squares are rearranged as the samples are, around the same mean.
  have hsquares : squaredDeviations (sampleMean ys) xs = squaredDeviations (sampleMean ys) ys := by
    rw [squaredDeviations_eq, squaredDeviations_eq]
    exact (h.map _).sum_eq
  have hfreedom : freedom xs = freedom ys := by rw [freedom, freedom, h.length_eq]
  rw [sampleDeviation_eq, sampleDeviation_eq, sampleMean_of_perm h, hsquares, hfreedom, h.length_eq]

/-- **Statistics** do not depend on the order of measurement. -/
theorem Statistics.of_perm (h : xs.Perm ys) : Statistics.of xs = Statistics.of ys := by
  rcases eq_or_ne xs [] with rfl | hxs
  · rw [List.nil_perm.mp h]
  · have hys : ys ≠ [] := fun hnil => hxs (List.perm_nil.mp (hnil ▸ h))
    rw [of_eq hxs, of_eq hys, sortSamples_of_perm h, sampleDeviation_of_perm h,
      sampleMean_of_perm h]

/-- **Comparisons** do not depend on the order of measurement of either side. -/
theorem Comparison.of_perm {xs' ys' : List K} (hxs : xs.Perm xs') (hys : ys.Perm ys') :
    Comparison.of xs ys = Comparison.of xs' ys' := by
  rw [Comparison.of, Comparison.of, Statistics.of_perm hxs, Statistics.of_perm hys]

end Sums

/-! ### All figures -/

/-- **The order of measurement does not matter.** Whatever patterns are stored, their sorted copy is
a rearrangement in rank order and is the same for all their rearrangements, so that the median and
the percentiles have the same bits, and with both sides of a comparison rearranged the difference
and the gain have them too. In exact arithmetic all figures are the same, and so are the verdicts.
-/
theorem figures_of_reordered {K : Type} [Field K] [LinearOrder K] [IsStrictOrderedRing K]
    [Analysis K] [ExactAnalysis K] :
    (∀ xs ys : List Double, xs.Perm ys →
      ((sortSamples xs).Perm xs ∧ (sortSamples xs).Pairwise fun x y => x.rank ≤ y.rank) ∧
      sortSamples xs = sortSamples ys ∧
      Statistics.SameOrderFigures (Statistics.of xs) (Statistics.of ys)) ∧
    (∀ xs xs' ys ys' : List Double, xs.Perm xs' → ys.Perm ys' →
      (Comparison.of xs ys).delta = (Comparison.of xs' ys').delta ∧
      (Comparison.of xs ys).gain = (Comparison.of xs' ys').gain) ∧
    (∀ xs ys : List K, xs.Perm ys → Statistics.of xs = Statistics.of ys) ∧
    ∀ xs xs' ys ys' : List K, xs.Perm xs' → ys.Perm ys' →
      Comparison.of xs ys = Comparison.of xs' ys' := by
  refine ⟨?_, ?_, ?_, ?_⟩
  · -- Stored numbers: the copy is found again whatever the patterns stand for.
    intro xs ys h
    have hsorted := (sortSamples_pairwise xs).imp fun {x y} => (Double.precedes_iff x y).mp
    exact ⟨⟨sortSamples_perm xs, hsorted⟩, sortSamples_of_perm h, Statistics.sameOrderFigures h⟩
  · -- Both sides of a comparison may be rearranged at once.
    intro xs xs' ys ys' hxs hys
    exact ⟨Comparison.delta_of_perm hxs hys, Comparison.gain_of_perm hxs hys⟩
  · exact fun xs ys h => Statistics.of_perm h
  · exact fun xs xs' ys ys' hxs hys => Comparison.of_perm hxs hys

/-- Both zeros and two patterns that stand for no number, in two orders; and three durations
compared with two, both in two orders. -/
theorem figures_of_reversed :
    (let xs : List Double :=
      [⟨0x7ff8000000000001⟩, ⟨0⟩, ⟨0x8000000000000000⟩, ⟨0xfff8000000000000⟩]
     sortSamples xs.reverse = sortSamples xs ∧
      Statistics.SameOrderFigures (Statistics.of xs.reverse) (Statistics.of xs)) ∧
    (Comparison.of [3, 1, 2] [1, 4] : Comparison ℝ) = Comparison.of [2, 1, 3] [4, 1] := by
  -- Two patterns of no number and both zeros are where an order on values would leave a choice.
  obtain ⟨hstored, -, -, hexact⟩ := figures_of_reordered (K := ℝ)
  constructor
  · exact (hstored _ _ (List.reverse_perm _)).2
  · exact hexact _ _ _ _ (List.reverse_perm [2, 1, 3]) (List.reverse_perm [4, 1])

end PinnedBench
