import Mathlib
import PinnedBench.Proofs.Double.Sums
import PinnedBench.Proofs.Stats.Ordering

/-!
# Positions in the sorted copy

The median of `n` samples lies between the sorted samples at `(n - 1) / 2` and `n / 2`, which are
one sample if `n` is odd and two neighbours otherwise: in exact arithmetic (`sortedMedian_between`),
and also as it is stored, if the halves of samples can be stored (`value_sortedMedian_between`).

A number between these two splits the sample (`Splits.of_between`): the samples up to the lower one
are at most the number, those from the upper one on are at least the number, and either are half of
all samples. Counts do not depend on the order of the samples, so the median splits the samples as
they were measured (`median_splits_samples`).

If the ranks of the percentiles are exact, as in exact arithmetic, the percentiles are the sorted
samples at `n / 10` and `9 * n / 10`, which are inside the copy already, so that no rank is cut off
(`nearestRank_tenths`).
-/

namespace PinnedBench

open Double (values)

/-! ### Counts -/

section Counts

variable {α : Type} {p : α → Bool} {xs : List α}

/-- If the first `k` items are counted, so many are counted at least. -/
theorem le_countP_of_take {k : Nat} (hk : k ≤ xs.length) (h : ∀ x ∈ xs.take k, p x = true) :
    k ≤ xs.countP p := by
  calc k = (xs.take k).length := by rw [List.length_take, min_eq_left hk]
    _ = (xs.take k).countP p := (List.countP_eq_length.mpr h).symm
    _ ≤ xs.countP p := (List.take_sublist k xs).countP_le

/-- If all items but the first `k` are counted, so many are counted at least. -/
theorem sub_le_countP_of_drop {k : Nat} (h : ∀ x ∈ xs.drop k, p x = true) :
    xs.length - k ≤ xs.countP p := by
  calc xs.length - k = (xs.drop k).length := List.length_drop.symm
    _ = (xs.drop k).countP p := (List.countP_eq_length.mpr h).symm
    _ ≤ xs.countP p := (List.drop_sublist k xs).countP_le

end Counts

/-- **A split** of samples: half of them are at most the number and half at least. -/
structure Splits {K : Type} [LinearOrder K] (m : K) (samples : List K) : Prop where
  /-- At least half of the samples are at most the number, -/
  below : samples.length ≤ 2 * samples.countP (· ≤ m)
  /-- and at least half of them are at least the number. -/
  above : samples.length ≤ 2 * samples.countP (m ≤ ·)

/-- The order of the samples does not matter to a split. -/
theorem Splits.of_perm {K : Type} [LinearOrder K] {m : K} {xs ys : List K} (hperm : xs.Perm ys)
    (h : Splits m xs) : Splits m ys := by
  obtain ⟨hbelow, habove⟩ := h
  constructor
  · rwa [← hperm.length_eq, ← hperm.countP_eq]
  · rwa [← hperm.length_eq, ← hperm.countP_eq]

/-! ### Sorted samples -/

/-- Two positions of a sorted list are as their samples are. -/
theorem sampleAt_of_pairwise {α : Type} [NatCast α] {r : α → α → Prop} {sorted : List α}
    (hsorted : sorted.Pairwise r) {i j : Nat} (hij : i < j) (hj : j < sorted.length) :
    r (sampleAt sorted i) (sampleAt sorted j) := by
  rw [sampleAt, sampleAt, List.getD_eq_getElem _ _ (hij.trans hj), List.getD_eq_getElem _ _ hj]
  exact List.pairwise_iff_getElem.mp hsorted i j _ hj hij

section Sorted

variable {K : Type} [NatCast K] [LinearOrder K] {sorted : List K}
  (hsorted : sorted.Pairwise (· ≤ ·))
include hsorted

theorem sampleAt_mono {i j : Nat} (hij : i ≤ j) (hj : j < sorted.length) :
    sampleAt sorted i ≤ sampleAt sorted j := by
  rcases hij.eq_or_lt with rfl | hlt
  · exact le_rfl
  · exact sampleAt_of_pairwise hsorted hlt hj

/-- The samples up to a position are at most the one there. -/
theorem le_sampleAt_of_mem_take {i : Nat} (hi : i < sorted.length) {x : K}
    (hx : x ∈ sorted.take (i + 1)) : x ≤ sampleAt sorted i := by
  obtain ⟨j, hj, rfl⟩ := List.mem_iff_getElem.mp hx
  rw [List.length_take] at hj
  -- A sample of the first `i + 1` has a position `j ≤ i`.
  have hle := sampleAt_mono hsorted (by omega : j ≤ i) hi
  rwa [sampleAt, List.getD_eq_getElem _ _ (by omega), ← List.getElem_take] at hle

/-- The samples from a position on are at least the one there. -/
theorem sampleAt_le_of_mem_drop {i : Nat} {x : K} (hx : x ∈ sorted.drop i) :
    sampleAt sorted i ≤ x := by
  obtain ⟨j, hj, rfl⟩ := List.mem_iff_getElem.mp hx
  rw [List.length_drop] at hj
  -- A sample behind the first `i` has a position `i + j`.
  have hle := sampleAt_mono hsorted (Nat.le_add_right i j) (by omega)
  rwa [sampleAt, sampleAt, List.getD_eq_getElem _ _ (by omega : i + j < _), ← List.getElem_drop]
    at hle

/-- **A number between the two middle samples** splits the sample. -/
theorem Splits.of_between (hne : sorted ≠ []) {m : K}
    (hlower : sampleAt sorted ((sorted.length - 1) / 2) ≤ m)
    (hupper : m ≤ sampleAt sorted (sorted.length / 2)) : Splits m sorted := by
  have hpos := List.length_pos_iff.mpr hne
  have hinside : (sorted.length - 1) / 2 < sorted.length := by omega
  constructor
  · -- The samples up to the lower one of the two are at most `m`, and they are half of all or more.
    have hcount : (sorted.length - 1) / 2 + 1 ≤ sorted.countP (· ≤ m) := by
      apply le_countP_of_take (by omega)
      intro x hx
      exact decide_eq_true ((le_sampleAt_of_mem_take hsorted hinside hx).trans hlower)
    omega
  · -- Those from the upper one on are at least `m`, and they are half of all or more as well.
    have hcount : sorted.length - sorted.length / 2 ≤ sorted.countP (m ≤ ·) := by
      apply sub_le_countP_of_drop
      intro x hx
      exact decide_eq_true (hupper.trans (sampleAt_le_of_mem_drop hsorted hx))
    omega

end Sorted

/-! ### Medians in exact arithmetic -/

/-- In any order a median lies between the two middle samples if half the way does. -/
theorem sortedMedian_related {α : Type} [Add α] [Div α] [NatCast α] {sorted : List α}
    {r : α → α → Prop} (hne : sorted ≠ []) (hrefl : ∀ x, r x x)
    (hhalfway : sorted.length % 2 = 0 →
      r (sampleAt sorted (sorted.length / 2 - 1))
          (sampleAt sorted (sorted.length / 2 - 1) / ((2 : Nat) : α) +
            sampleAt sorted (sorted.length / 2) / ((2 : Nat) : α)) ∧
        r (sampleAt sorted (sorted.length / 2 - 1) / ((2 : Nat) : α) +
            sampleAt sorted (sorted.length / 2) / ((2 : Nat) : α))
          (sampleAt sorted (sorted.length / 2))) :
    r (sampleAt sorted ((sorted.length - 1) / 2)) (sortedMedian sorted) ∧
      r (sortedMedian sorted) (sampleAt sorted (sorted.length / 2)) := by
  have hpos := List.length_pos_iff.mpr hne
  rw [sortedMedian]
  split
  next heven =>
    -- An even number of samples has two in the middle, of which `(n - 1) / 2` is the lower.
    have hbelow : (sorted.length - 1) / 2 = sorted.length / 2 - 1 := by omega
    rw [hbelow]
    exact hhalfway heven
  next hodd =>
    -- An odd number has one in the middle, and it is the median.
    have hsame : (sorted.length - 1) / 2 = sorted.length / 2 := by omega
    rw [hsame]
    exact ⟨hrefl _, hrefl _⟩

/-- The sorted copy is in the order of the numbers. -/
theorem sortSamples_pairwise_le {K : Type} [Field K] [LinearOrder K] [Analysis K] [ExactAnalysis K]
    (samples : List K) : (sortSamples samples).Pairwise (· ≤ ·) :=
  (sortSamples_pairwise samples).imp fun {x y} => (ExactAnalysis.precedes_iff x y).mp

section Exact

variable {K : Type} [Field K] [LinearOrder K] [IsStrictOrderedRing K]

/-- **The median** lies between the two middle samples, which may be one. -/
theorem sortedMedian_between {sorted : List K} (hsorted : sorted.Pairwise (· ≤ ·))
    (hne : sorted ≠ []) :
    sampleAt sorted ((sorted.length - 1) / 2) ≤ sortedMedian sorted ∧
      sortedMedian sorted ≤ sampleAt sorted (sorted.length / 2) := by
  have hpos := List.length_pos_iff.mpr hne
  apply sortedMedian_related hne le_refl
  -- Of two neighbours in order, half of each adds up to a number between them.
  intro heven
  have hle := sampleAt_mono hsorted (by omega : sorted.length / 2 - 1 ≤ sorted.length / 2)
    (by omega)
  rw [Nat.cast_ofNat]
  constructor <;> linarith

variable [Analysis K] [ExactAnalysis K]

/-- **The median** splits the sample. -/
theorem Statistics.splits_median {samples : List K} (h : samples ≠ []) :
    Splits (Statistics.of samples).median samples := by
  have hne := sortSamples_ne_nil h
  have hsorted := sortSamples_pairwise_le samples
  obtain ⟨hlower, hupper⟩ := sortedMedian_between hsorted hne
  rw [median_eq h]
  -- A count is the same in the sorted copy, where the position of the median is known.
  exact (Splits.of_between hsorted hne hlower hupper).of_perm (sortSamples_perm samples)

/-! ### Ranks -/

/-- The whole part of a fraction of a count. -/
theorem wholePart_fraction (n a : Nat) {b : Nat} (hb : 0 < b) :
    wholePart ((n : K) * (a / b)) = n * a / b := by
  have hpos : (0 : K) < b := Nat.cast_pos.mpr hb
  have hnonneg : (0 : K) ≤ n * (a / b) := by positivity
  have hle := ExactAnalysis.wholePart_le _ hnonneg
  have hlt := ExactAnalysis.lt_wholePart _ hnonneg
  -- The whole part is the one number `w` with `w * b ≤ n * a < (w + 1) * b`.
  generalize wholePart ((n : K) * (a / b)) = w at hle hlt
  rw [mul_div_assoc', le_div_iff₀ hpos] at hle
  rw [mul_div_assoc', div_lt_iff₀ hpos] at hlt
  norm_cast at hle hlt
  exact (Nat.div_eq_of_lt_le hle hlt).symm

/-- **Ranks** of tenths of a count that are what they are named for. -/
structure ExactRanks (α : Type) [Mul α] [NatCast α] [OfScientific α] [Analysis α] (n : Nat) :
    Prop where
  /-- A tenth of the count is rounded down, -/
  tenth : wholePart ((n : α) * 0.1) = n / 10
  /-- and so are nine tenths. -/
  nine_tenths : wholePart ((n : α) * 0.9) = 9 * n / 10

/-- In exact arithmetic the ranks are what they are named for. -/
theorem exactRanks (n : Nat) : ExactRanks K n where
  tenth := by
    have h := wholePart_fraction (K := K) n 1 (b := 10) (by decide)
    norm_num at h ⊢
    exact h
  nine_tenths := by
    have h := wholePart_fraction (K := K) n 9 (b := 10) (by decide)
    norm_num at h ⊢
    rw [h, Nat.mul_comm]

end Exact

/-- **The percentiles** are sorted samples, and no rank is cut off. -/
theorem nearestRank_tenths {α : Type} [Mul α] [NatCast α] [OfScientific α] [Analysis α]
    {sorted : List α} (hne : sorted ≠ []) (hranks : ExactRanks α sorted.length) :
    nearestRank sorted 0.1 = sampleAt sorted (sorted.length / 10) ∧
      nearestRank sorted 0.9 = sampleAt sorted (9 * sorted.length / 10) := by
  have hpos := List.length_pos_iff.mpr hne
  -- Both ranks are below the number of samples, so the cut at the last position does nothing.
  rw [nearestRank, nearestRank, hranks.tenth, hranks.nine_tenths]
  constructor
  · rw [min_eq_left (by omega)]
  · rw [min_eq_left (by omega)]

/-! ### Medians of stored samples -/

section Stored

/-- The stored median lies between the two middle samples, if there is one of them or the halves can
be stored. -/
theorem value_sortedMedian_between {sorted : List Double}
    (hsorted : sorted.Pairwise fun x y => precedes x y = true) (hne : sorted ≠ [])
    (hfinite : ∀ x ∈ sorted, x.isFinite = true)
    (hhalves : sorted.length % 2 = 1 ∨ ∀ x ∈ sorted, x.HalvesExactly) :
    (sampleAt sorted ((sorted.length - 1) / 2)).value ≤ (sortedMedian sorted).value ∧
      (sortedMedian sorted).value ≤ (sampleAt sorted (sorted.length / 2)).value := by
  have hpos := List.length_pos_iff.mpr hne
  apply sortedMedian_related (r := fun x y => x.value ≤ y.value) hne fun x => le_refl x.value
  intro heven
  -- With two samples in the middle the halves have to be stored, so that only the sum can round,
  -- which keeps it between them.
  have hhalves := hhalves.resolve_left (by omega)
  have hmem := sampleAt_mem (by omega : sorted.length / 2 - 1 < sorted.length)
  have hmem' := sampleAt_mem (by omega : sorted.length / 2 < sorted.length)
  have hrank := sampleAt_of_pairwise hsorted (by omega : sorted.length / 2 - 1 < sorted.length / 2)
    (by omega)
  exact Double.half_add_half_between (hfinite _ hmem) (hfinite _ hmem')
    (Double.value_le_value ((Double.precedes_iff _ _).mp hrank)) (hhalves _ hmem) (hhalves _ hmem')

variable {K : Type} [Field K] [LinearOrder K] [IsStrictOrderedRing K]

/-- Samples that are sorted as patterns are sorted as numbers. -/
theorem values_pairwise_le (samples : List Double) :
    (values K (sortSamples samples)).Pairwise (· ≤ ·) := by
  rw [values, List.pairwise_map]
  refine (sortSamples_pairwise samples).imp fun {x y} h => ?_
  rw [Double.precedes_iff] at h
  exact_mod_cast Double.value_le_value h

variable {samples : List Double}

/-- The value of the stored median is between those of the two middle samples. -/
theorem values_sortedMedian_between (h : samples ≠ []) (hfinite : ∀ x ∈ samples, x.isFinite = true)
    (hhalves : samples.length % 2 = 1 ∨ ∀ x ∈ samples, x.HalvesExactly) :
    sampleAt (values K (sortSamples samples)) (((values K (sortSamples samples)).length - 1) / 2) ≤
        ((sortedMedian (sortSamples samples)).value : K) ∧
      ((sortedMedian (sortSamples samples)).value : K) ≤
        sampleAt (values K (sortSamples samples))
          ((values K (sortSamples samples)).length / 2) := by
  have hne := sortSamples_ne_nil h
  have hpos := List.length_pos_iff.mpr hne
  -- The sorted copy has the same samples, so what is known of them is known of it.
  obtain ⟨hlower, hupper⟩ := value_sortedMedian_between (sortSamples_pairwise samples) hne
    (fun x hx => hfinite x (mem_sortSamples.mp hx))
    (by simpa only [length_sortSamples, mem_sortSamples] using hhalves)
  rw [Double.length_values, sampleAt_values (by omega), sampleAt_values (by omega)]
  exact ⟨by exact_mod_cast hlower, by exact_mod_cast hupper⟩

/-- The median as it is stored splits the samples as numbers. -/
theorem Statistics.splits_value_median (h : samples ≠ [])
    (hfinite : ∀ x ∈ samples, x.isFinite = true)
    (hhalves : samples.length % 2 = 1 ∨ ∀ x ∈ samples, x.HalvesExactly) :
    Splits ((Statistics.of samples).median.value : K) (values K samples) := by
  obtain ⟨hlower, hupper⟩ := values_sortedMedian_between (K := K) h hfinite hhalves
  have hne := Double.values_ne_nil (K := K) (sortSamples_ne_nil h)
  rw [of_eq h]
  exact (Splits.of_between (values_pairwise_le samples) hne hlower hupper).of_perm
    (Double.values_sortSamples_perm samples)

end Stored

/-! ### The median -/

/-- **The median splits the sample.** In exact arithmetic half of any samples, in any order, are at
most their median, and half are at least their median. So it is with finite stored samples that are
sorted as patterns, if half the way between the two middle ones is taken exactly; and the median as
it is stored splits them too, if their number is odd or their halves can be stored. -/
theorem median_splits_samples {K : Type} [Field K] [LinearOrder K] [IsStrictOrderedRing K]
    [Analysis K] [ExactAnalysis K] :
    (∀ samples : List K, samples ≠ [] → Splits (Statistics.of samples).median samples) ∧
    ∀ samples : List Double, samples ≠ [] → (∀ x ∈ samples, x.isFinite = true) →
      Splits (sortedMedian (values K (sortSamples samples))) (values K samples) ∧
      (samples.length % 2 = 1 ∨ (∀ x ∈ samples, x.HalvesExactly) →
        (Statistics.of samples).median.isFinite = true ∧
          Splits ((Statistics.of samples).median.value : K) (values K samples)) := by
  refine ⟨fun samples h => Statistics.splits_median h, ?_⟩
  intro samples h hfinite
  constructor
  · -- The exact statement is used for the numbers of the samples, whose sorted copy is that of the
    -- patterns.
    have hne := Double.values_ne_nil (K := K) h
    have hsplits := Statistics.splits_median hne
    rwa [Statistics.median_eq hne, sortSamples_values] at hsplits
  · intro hhalves
    exact ⟨Statistics.isFinite_median hfinite, Statistics.splits_value_median h hfinite hhalves⟩

/-- Four real durations, of which two are equal, and two stored ones whose halves can be stored. -/
theorem median_splits_few :
    Splits (Statistics.of [3, 1, 1, (2 : ℝ)]).median [3, 1, 1, 2] ∧
    (∀ x ∈ [3.0, (1.0 : Double)], x.isFinite = true) ∧
    (∀ x ∈ [3.0, (1.0 : Double)], x.HalvesExactly) ∧
    Splits (sortedMedian (values ℝ (sortSamples [3.0, 1.0]))) (values ℝ [3.0, 1.0]) ∧
    Splits ((Statistics.of [3.0, (1.0 : Double)]).median.value : ℝ) (values ℝ [3.0, 1.0]) := by
  have hfinite : ∀ x ∈ [3.0, (1.0 : Double)], x.isFinite = true := by decide +kernel
  -- Halving both takes nothing away from them.
  have hhalves : ∀ x ∈ [3.0, (1.0 : Double)], x.HalvesExactly := by
    unfold Double.HalvesExactly
    decide +kernel
  obtain ⟨hexact, hstored⟩ := median_splits_samples (K := ℝ)
  obtain ⟨hsplits, hsplits'⟩ := hstored _ (List.cons_ne_nil _ _) hfinite
  exact ⟨hexact _ (List.cons_ne_nil _ _), hfinite, hhalves, hsplits, (hsplits' (.inr hhalves)).2⟩

end PinnedBench
