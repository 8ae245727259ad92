import Mathlib
import PinnedBench.Double
import PinnedBench.Proofs.Arithmetic
import PinnedBench.Proofs.Double.Values
import PinnedBench.Stats.Statistics

/-!
# Sorted copies

The sorting order relates any two numbers, and only equal ones both ways (`SortingOrder`). In exact
arithmetic it is the order of the numbers. On stored numbers it is the order of their ranks, in
which two zeros and two patterns that are no number are told apart.

So a list of samples has one sorted copy: any rearrangement of the samples that is in order is the
copy (`sortSamples_eq_of_pairwise`). Two things follow. The order in which samples were measured
does not matter (`sortSamples_of_perm`), and a map that keeps the sorting order may be applied
before sorting or after it (`sortSamples_map`). So sorting stored samples sorts their values
(`sortSamples_values`).
-/

namespace PinnedBench

/-! ### The sorting order -/

/-- **A sorting order** that is total and takes no two numbers for one. -/
class SortingOrder (α : Type) [Analysis α] : Prop where
  /-- Any two numbers are in order, one way or the other. -/
  total (x y : α) : (precedes x y || precedes y x) = true
  /-- The order goes on from one number to the next. -/
  trans (x y z : α) : precedes x y = true → precedes y z = true → precedes x z = true
  /-- Numbers that are in order both ways are the same, so a sorted copy is determined. -/
  antisymm (x y : α) : precedes x y = true → precedes y x = true → x = y

/-- In exact arithmetic the sorting order is that of the numbers. -/
instance sortingOrder_exact {K : Type} [Field K] [LinearOrder K] [Analysis K] [ExactAnalysis K] :
    SortingOrder K where
  total x y := by
    rw [Bool.or_eq_true, ExactAnalysis.precedes_iff, ExactAnalysis.precedes_iff]
    exact le_total x y
  trans x y z := by
    simp only [ExactAnalysis.precedes_iff]
    exact le_trans
  antisymm x y := by
    simp only [ExactAnalysis.precedes_iff]
    exact le_antisymm

namespace Double

/-- Stored numbers are sorted by their ranks, which are whole numbers and different for any two
patterns. -/
theorem precedes_iff (x y : Double) : precedes x y = true ↔ x.rank ≤ y.rank :=
  decide_eq_true_iff

/-- Ranks are in a total order, and no two patterns have one rank. -/
instance sortingOrder : SortingOrder Double where
  total x y := by
    rw [Bool.or_eq_true, precedes_iff, precedes_iff]
    exact le_total x.rank y.rank
  trans x y z := by
    simp only [precedes_iff]
    exact le_trans
  antisymm x y := by
    simp only [precedes_iff]
    intro hxy hyx
    exact rank_injective (le_antisymm hxy hyx)

end Double

/-! ### The sorted copy -/

section Copy

variable {α : Type} [Analysis α]

/-- Sorting keeps every sample. -/
theorem sortSamples_perm (samples : List α) : (sortSamples samples).Perm samples :=
  List.mergeSort_perm samples precedes

/-- Sorting adds and drops nothing. -/
@[simp]
theorem length_sortSamples (samples : List α) : (sortSamples samples).length = samples.length :=
  (sortSamples_perm samples).length_eq

/-- The sorted copy has the samples it was made of. -/
@[simp]
theorem mem_sortSamples {samples : List α} {x : α} : x ∈ sortSamples samples ↔ x ∈ samples :=
  (sortSamples_perm samples).mem_iff

/-- A sample that is not empty has a sorted copy that is not empty. -/
theorem sortSamples_ne_nil {samples : List α} (h : samples ≠ []) : sortSamples samples ≠ [] := by
  rw [← List.length_pos_iff, length_sortSamples]
  exact List.length_pos_iff.mpr h

variable [SortingOrder α]

/-- The sorted copy is in order. -/
theorem sortSamples_pairwise (samples : List α) :
    (sortSamples samples).Pairwise fun x y => precedes x y = true :=
  List.pairwise_mergeSort SortingOrder.trans SortingOrder.total samples

/-- **There is one sorted copy.** -/
theorem sortSamples_eq_of_pairwise {samples sorted : List α} (hperm : sorted.Perm samples)
    (h : sorted.Pairwise fun x y => precedes x y = true) : sortSamples samples = sorted :=
  List.Perm.eq_of_pairwise (fun x y _ _ => SortingOrder.antisymm x y) (sortSamples_pairwise samples)
    h ((sortSamples_perm samples).trans hperm.symm)

/-- **Rearranged samples** have the same sorted copy. -/
theorem sortSamples_of_perm {xs ys : List α} (h : xs.Perm ys) : sortSamples xs = sortSamples ys :=
  sortSamples_eq_of_pairwise ((sortSamples_perm ys).trans h.symm) (sortSamples_pairwise ys)

/-- **A map that keeps the order** may be applied before sorting or after it. -/
theorem sortSamples_map {β : Type} [Analysis β] [SortingOrder β] {f : α → β}
    (hf : ∀ x y, precedes x y = true → precedes (f x) (f y) = true) (samples : List α) :
    sortSamples (samples.map f) = (sortSamples samples).map f := by
  apply sortSamples_eq_of_pairwise
  · -- The sorted copy under the map has the right members, so it is left to see that it is in
    -- order.
    exact (sortSamples_perm samples).map f
  · -- It is, since the map keeps the order of any two of them.
    rw [List.pairwise_map]
    exact (sortSamples_pairwise samples).imp fun {x y} => hf x y

end Copy

/-! ### Values of stored samples -/

/-- Stored samples as numbers of an exact arithmetic. -/
def Double.values (K : Type) [RatCast K] (samples : List Double) : List K :=
  samples.map fun x => (x.value : K)

/-- Every stored sample has one value. -/
@[simp]
theorem Double.length_values {K : Type} [RatCast K] (samples : List Double) :
    (values K samples).length = samples.length :=
  List.length_map _

/-- There are values where there are samples. -/
theorem Double.values_ne_nil {K : Type} [RatCast K] {samples : List Double} (h : samples ≠ []) :
    values K samples ≠ [] := by
  simpa [values] using h

/-- The values of the sorted copy are those of the samples, rearranged. -/
theorem Double.values_sortSamples_perm {K : Type} [RatCast K] (samples : List Double) :
    (values K (sortSamples samples)).Perm (values K samples) :=
  (sortSamples_perm samples).map _

/-- **Sorting patterns** sorts their values. -/
theorem sortSamples_values {K : Type} [Field K] [LinearOrder K] [IsStrictOrderedRing K] [Analysis K]
    [ExactAnalysis K] (samples : List Double) :
    sortSamples (Double.values K samples) = Double.values K (sortSamples samples) := by
  apply sortSamples_map
  intro x y h
  rw [Double.precedes_iff] at h
  rw [ExactAnalysis.precedes_iff]
  -- A smaller rank never has the larger value; equal values may have two ranks, as the zeros have.
  exact_mod_cast Double.value_le_value h

/-! ### Figures of the sorted copy -/

section Figures

variable {α : Type} [Add α] [Sub α] [Mul α] [Div α] [NatCast α] [OfScientific α] [LT α]
  [DecidableLT α] [LE α] [DecidableLE α] [Analysis α] {samples : List α}

/-- The figures of samples that are not empty, each by the function that gives it. -/
theorem Statistics.of_eq (h : samples ≠ []) :
    Statistics.of samples =
      { median := sortedMedian (sortSamples samples)
        mean := sampleMean samples
        deviation := sampleDeviation (sampleMean samples) samples
        variation :=
          variationOf (sampleMean samples) (sampleDeviation (sampleMean samples) samples)
        p10 := nearestRank (sortSamples samples) 0.1
        p90 := nearestRank (sortSamples samples) 0.9 } := by
  rw [Statistics.of, if_neg (by simpa using h)]

end Figures

section Positions

variable {α : Type} [NatCast α] {sorted : List α}

/-- The sample at a position inside is one of the samples. -/
theorem sampleAt_mem {i : Nat} (hi : i < sorted.length) : sampleAt sorted i ∈ sorted := by
  rw [sampleAt, List.getD_eq_getElem _ _ hi]
  exact List.getElem_mem hi

/-- Taking a sample commutes with a map. -/
theorem sampleAt_map {β : Type} [NatCast β] (f : α → β) {i : Nat} (hi : i < sorted.length) :
    sampleAt (sorted.map f) i = f (sampleAt sorted i) := by
  rw [sampleAt, sampleAt, List.getD_eq_getElem _ _ (by rwa [List.length_map]),
    List.getD_eq_getElem _ _ hi, List.getElem_map]

/-- The value of the sample at a position. -/
theorem sampleAt_values {K : Type} [NatCast K] [RatCast K] {sorted : List Double} {i : Nat}
    (hi : i < sorted.length) :
    sampleAt (Double.values K sorted) i = ((sampleAt sorted i).value : K) :=
  sampleAt_map _ hi

/-- A rank that is cut off is inside, whatever the whole part of the product. -/
theorem nearestRank_mem [Mul α] [Analysis α] (hne : sorted ≠ []) (fraction : α) :
    nearestRank sorted fraction ∈ sorted := by
  have hpos := List.length_pos_iff.mpr hne
  -- However large the rank, it is cut off at the last position.
  exact sampleAt_mem (lt_of_le_of_lt (min_le_right _ _) (Nat.sub_one_lt hpos.ne'))

/-- A percentile is a sample, so any map may be applied to it; the position depends on the count
alone. -/
theorem nearestRank_map [Mul α] [Analysis α] (f : α → α) (hne : sorted ≠ []) (fraction : α) :
    nearestRank (sorted.map f) fraction = f (nearestRank sorted fraction) := by
  have hpos := List.length_pos_iff.mpr hne
  rw [nearestRank, nearestRank, List.length_map]
  exact sampleAt_map f (lt_of_le_of_lt (min_le_right _ _) (Nat.sub_one_lt hpos.ne'))

/-- What keeps half the way between any two numbers may be applied to a median. -/
theorem sortedMedian_map [Add α] [Div α] {f : α → α}
    (hf : ∀ x y, f (x / ((2 : Nat) : α) + y / ((2 : Nat) : α)) =
      f x / ((2 : Nat) : α) + f y / ((2 : Nat) : α)) (hne : sorted ≠ []) :
    sortedMedian (sorted.map f) = f (sortedMedian sorted) := by
  have hpos := List.length_pos_iff.mpr hne
  rw [sortedMedian, sortedMedian, List.length_map]
  -- Half the way between two samples, or the one in the middle.
  split
  · rw [sampleAt_map f (by omega), sampleAt_map f (by omega), hf]
  · exact sampleAt_map f (by omega)

end Positions

end PinnedBench
