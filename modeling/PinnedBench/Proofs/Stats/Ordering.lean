import Mathlib
import PinnedBench.Proofs.Stats.Scaling

/-!
# Medians of ordered samples

If every sample of one set is at most the sample at the same place of another, then so it is in the
two sorted copies, although sorting moves the samples of the two sets differently
(`forall₂_sortSamples`). So the median of the first set is at most that of the second
(`Statistics.median_le_median`). What is below all samples is below their median
(`Statistics.le_median`).
-/

namespace PinnedBench

open List (Forall₂)

section Sorting

variable {K : Type} [LinearOrder K]

/-! ### Sorted copies -/

/-- What is at most the head of a sorted list is inserted before it. -/
theorem orderedInsert_of_pairwise {x : K} {xs : List K} (h : (x :: xs).Pairwise (· ≤ ·)) :
    xs.orderedInsert (· ≤ ·) x = x :: xs := by
  cases xs with
  | nil => rfl
  | cons y ys =>
    apply List.orderedInsert_cons_of_le
    exact List.rel_of_pairwise_cons h List.mem_cons_self

/-- Ordered numbers inserted into ordered lists. The numbers may find different places: the head of
the list whose number stays in front is then compared with what is left of the other. -/
theorem forall₂_orderedInsert {xs ys : List K} (h : Forall₂ (· ≤ ·) xs ys)
    (hxs : xs.Pairwise (· ≤ ·)) (hys : ys.Pairwise (· ≤ ·)) {a b : K} (hab : a ≤ b) :
    Forall₂ (· ≤ ·) (xs.orderedInsert (· ≤ ·) a) (ys.orderedInsert (· ≤ ·) b) := by
  -- The numbers that are inserted change on the way down, so they are general.
  induction h generalizing a b with
  | nil => exact .cons hab .nil
  | @cons x y xs ys hxy hrest ih =>
    have hinsert : ∀ c d : K, c ≤ d →
        Forall₂ (· ≤ ·) (xs.orderedInsert (· ≤ ·) c) (ys.orderedInsert (· ≤ ·) d) :=
      fun c d hcd => ih hxs.of_cons hys.of_cons hcd
    rw [List.orderedInsert_cons, List.orderedInsert_cons]
    by_cases hax : a ≤ x <;> by_cases hby : b ≤ y
    · -- Both numbers stay in front.
      rw [if_pos hax, if_pos hby]
      exact .cons hab (.cons hxy hrest)
    · -- Only `a` stays in front. The head `x` goes on as if it were inserted where it stands.
      rw [if_pos hax, if_neg hby]
      have hyb : y ≤ b := le_of_not_ge hby
      have htail := hinsert x b (hxy.trans hyb)
      rw [orderedInsert_of_pairwise hxs] at htail
      exact .cons (hax.trans hxy) htail
    · -- Only `b` stays in front, and the head `y` goes on in its place.
      rw [if_neg hax, if_pos hby]
      have hxa : x ≤ a := le_of_not_ge hax
      have htail := hinsert a y (hab.trans hby)
      rw [orderedInsert_of_pairwise hys] at htail
      exact .cons (hxa.trans hab) htail
    · -- Both numbers go on behind the heads.
      rw [if_neg hax, if_neg hby]
      exact .cons hxy (hinsert a b hab)

/-- Inserted one after the other, the samples of both sets stay in order with one another. -/
theorem forall₂_insertionSort {xs ys : List K} (h : Forall₂ (· ≤ ·) xs ys) :
    Forall₂ (· ≤ ·) (xs.insertionSort (· ≤ ·)) (ys.insertionSort (· ≤ ·)) := by
  induction h with
  | nil => exact .nil
  | @cons x y xs ys hxy hrest ih =>
    exact forall₂_orderedInsert ih (List.pairwise_insertionSort _ xs)
      (List.pairwise_insertionSort _ ys) hxy

/-- **Sorting** keeps the order between two sample sets. -/
theorem forall₂_sortSamples [Field K] [Analysis K] [ExactAnalysis K] {xs ys : List K}
    (h : Forall₂ (· ≤ ·) xs ys) : Forall₂ (· ≤ ·) (sortSamples xs) (sortSamples ys) := by
  rw [sortSamples_eq, sortSamples_eq]
  exact forall₂_insertionSort h

end Sorting

variable {K : Type} [Field K]

/-! ### Medians -/

variable [LinearOrder K]

/-- The samples at one position are in order, and behind the end both are zero. -/
theorem sampleAt_le_sampleAt {xs ys : List K} (h : Forall₂ (· ≤ ·) xs ys) (i : Nat) :
    sampleAt xs i ≤ sampleAt ys i := by
  induction h generalizing i with
  | nil => exact le_rfl
  | cons hxy hrest ih =>
    cases i with
    | zero => exact hxy
    | succ i => exact ih i

theorem Statistics.median_eq [Analysis K] {samples : List K} (h : samples ≠ []) :
    (Statistics.of samples).median = sortedMedian (sortSamples samples) := by
  rw [of_eq h]

theorem Comparison.gain_eq [Analysis K] {xs ys : List K} (h : 0 < (Statistics.of xs).median) :
    (Comparison.of xs ys).gain =
      (Comparison.of xs ys).delta / (Statistics.of xs).median * 100 := by
  show gainPercent _ _ = _
  rw [gainPercent, Nat.cast_zero, if_pos h]
  rfl

variable [IsStrictOrderedRing K]

/-- The medians of sorted copies that are in order with one another. -/
theorem sortedMedian_le_sortedMedian {xs ys : List K} (h : Forall₂ (· ≤ ·) xs ys) :
    sortedMedian xs ≤ sortedMedian ys := by
  have htwo : (0 : K) ≤ ((2 : Nat) : K) := Nat.cast_nonneg 2
  rw [sortedMedian, sortedMedian, h.length_eq]
  -- There are equally many samples, so both medians are made in the same way.
  split
  · apply add_le_add
    · exact div_le_div_of_nonneg_right (sampleAt_le_sampleAt h _) htwo
    · exact div_le_div_of_nonneg_right (sampleAt_le_sampleAt h _) htwo
  · exact sampleAt_le_sampleAt h _

/-- What is below all sorted samples is below their median. -/
theorem le_sortedMedian {sorted : List K} {bound : K} (hsorted : sorted ≠ [])
    (h : ∀ x ∈ sorted, bound ≤ x) : bound ≤ sortedMedian sorted := by
  have hlength := List.length_pos_iff.mpr hsorted
  have hmiddle : bound ≤ sampleAt sorted (sorted.length / 2) :=
    h _ (sampleAt_mem (Nat.div_lt_self hlength one_lt_two))
  rw [sortedMedian]
  split
  · have hbelow : bound ≤ sampleAt sorted (sorted.length / 2 - 1) :=
      h _ (sampleAt_mem (by omega))
    -- The bound is half the way between itself and itself.
    calc bound = bound / ((2 : Nat) : K) + bound / ((2 : Nat) : K) := by
          rw [Nat.cast_ofNat, add_halves]
      _ ≤ _ := by gcongr
  · exact hmiddle

variable [Analysis K]

/-- **A bound** of all samples is one of their median. -/
theorem Statistics.le_median {samples : List K} {bound : K} (hsamples : samples ≠ [])
    (h : ∀ x ∈ samples, bound ≤ x) : bound ≤ (Statistics.of samples).median := by
  rw [Statistics.median_eq hsamples]
  apply le_sortedMedian (sortSamples_ne_nil hsamples)
  intro x hx
  exact h x (mem_sortSamples.mp hx)

/-- **The median** of samples that are at most others is at most the median of these. -/
theorem Statistics.median_le_median [ExactAnalysis K] {xs ys : List K}
    (h : Forall₂ (· ≤ ·) xs ys) : (Statistics.of xs).median ≤ (Statistics.of ys).median := by
  cases h with
  -- Without samples both medians are zero.
  | nil => exact le_rfl
  | cons hxy hrest =>
    rw [median_eq (List.cons_ne_nil _ _), median_eq (List.cons_ne_nil _ _)]
    exact sortedMedian_le_sortedMedian (forall₂_sortSamples (.cons hxy hrest))

/-! ### Comparisons -/

variable {xs ys : List K}

/-- There is no loss where the median has not grown. -/
theorem Comparison.gain_nonneg (h : 0 < (Statistics.of xs).median)
    (hdelta : 0 ≤ (Comparison.of xs ys).delta) : 0 ≤ (Comparison.of xs ys).gain := by
  rw [gain_eq h]
  exact mul_nonneg (div_nonneg hdelta h.le) (by norm_num)

/-- There is no gain where the median has not shrunk. -/
theorem Comparison.gain_nonpos (h : 0 < (Statistics.of xs).median)
    (hdelta : (Comparison.of xs ys).delta ≤ 0) : (Comparison.of xs ys).gain ≤ 0 := by
  rw [gain_eq h]
  exact mul_nonpos_of_nonpos_of_nonneg (div_nonpos_of_nonpos_of_nonneg hdelta h.le) (by norm_num)

/-- **Samples in units of one another**: the gain is that of the units. -/
theorem Comparison.gain_map_mul [ExactAnalysis K] {b o : K} (hb : 0 < b) (ho : 0 < o)
    (h : 0 < (Statistics.of xs).median) :
    (Comparison.of (xs.map (b * ·)) (xs.map (o * ·))).gain = (1 - o / b) * 100 := by
  have hmedian : ∀ c : K, 0 < c →
      (Statistics.of (xs.map (c * ·))).median = c * (Statistics.of xs).median := by
    intro c hc
    rw [Statistics.of_map_mul hc]
    rfl
  -- The median of the baseline is still positive, so the gain is a quotient, from which the median
  -- of `xs` cancels.
  have hpos : 0 < (Statistics.of (xs.map (b * ·))).median := by
    rw [hmedian b hb]
    exact mul_pos hb h
  rw [gain_eq hpos]
  show ((Statistics.of (xs.map (b * ·))).median - (Statistics.of (xs.map (o * ·))).median) /
    (Statistics.of (xs.map (b * ·))).median * 100 = _
  rw [hmedian b hb, hmedian o ho, ← sub_mul, mul_div_mul_right _ _ h.ne', sub_div,
    div_self hb.ne']

end PinnedBench
