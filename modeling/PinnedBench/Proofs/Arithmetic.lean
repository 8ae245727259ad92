import Mathlib
import PinnedBench.Arithmetic

/-!
# Exact arithmetic

Statistics, comparisons and resource curves are defined for any numbers with the operations of
`Analysis`. `ExactAnalysis` says when these operations are exact: the numbers form an ordered field,
and the further operations are what they are named for. A result about exact arithmetic is a result
about the definitions that run, without the rounding of stored numbers.

Two operations are left open, since no ordered field has what they are named for:

* every number of a field is finite, so nothing is asked of `finite`, and a result holds on
  whichever branch the test for finite numbers takes;
* no number is below all others, so nothing is asked of `lowest`, and results about peaks ask that
  no number of the series is below it.

Of square roots only `squareRoot_mul` is asked. The real numbers are exact (`exactAnalysis_real`).
-/

namespace PinnedBench

/-- **Exact arithmetic**: what the operations of an ordered field are. -/
class ExactAnalysis (K : Type) [Field K] [LinearOrder K] [Analysis K] : Prop where
  /-- The magnitude is the absolute value. -/
  magnitude_eq (x : K) : magnitude x = |x|
  /-- The larger of two numbers is their maximum, there being no undefined ones. -/
  larger_eq (x y : K) : larger x y = max x y
  /-- Samples are sorted by their size. -/
  precedes_iff (x y : K) : precedes x y = true ↔ x ≤ y
  /-- Squares may be taken out of a square root. -/
  squareRoot_mul (c v : K) (h : 0 < c) : squareRoot (c * c * v) = c * squareRoot v
  /-- The whole part is not above the number, -/
  wholePart_le (x : K) (h : 0 ≤ x) : (wholePart x : K) ≤ x
  /-- and the next whole number is. -/
  lt_wholePart (x : K) (h : 0 ≤ x) : x < wholePart x + 1

attribute [simp] ExactAnalysis.magnitude_eq ExactAnalysis.larger_eq

noncomputable instance : Analysis ℝ where
  magnitude x := |x|
  squareRoot := Real.sqrt
  larger := max
  finite _ := true
  wholePart := Nat.floor
  precedes x y := decide (x ≤ y)
  -- The smallest of the finite stored numbers.
  lowest := -((2 ^ 53 - 1) * 2 ^ 971)

instance exactAnalysis_real : ExactAnalysis ℝ where
  magnitude_eq _ := rfl
  larger_eq _ _ := rfl
  precedes_iff _ _ := decide_eq_true_iff
  squareRoot_mul c v h := by
    show √(c * c * v) = c * √v
    -- Of the three factors only the square of `c` comes out of the root.
    rw [Real.sqrt_mul (mul_self_nonneg c), Real.sqrt_mul_self h.le]
  wholePart_le _ h := Nat.floor_le h
  lt_wholePart x _ := Nat.lt_floor_add_one x

variable {K : Type} [Field K] [LinearOrder K] [Analysis K] [ExactAnalysis K]

/-- Of zero any factor may be taken out of the root, so the root is a multiple of itself and
vanishes. -/
theorem squareRoot_zero [IsStrictOrderedRing K] : squareRoot (0 : K) = 0 := by
  have h := ExactAnalysis.squareRoot_mul (2 : K) 0 two_pos
  rw [mul_zero] at h
  linarith

/-! ### The largest of a list -/

/-- What is above all numbers of a list is above the largest of them. -/
theorem foldl_larger_le_iff {a b : K} {xs : List K} :
    xs.foldl larger a ≤ b ↔ a ≤ b ∧ ∀ x ∈ xs, x ≤ b := by
  induction xs generalizing a with
  | nil => simp
  | cons x xs ih => simp [ih, and_assoc]

/-- The largest of a list is above a bound exactly if one of the numbers is. -/
theorem le_foldl_larger_iff {a b : K} {xs : List K} :
    b ≤ xs.foldl larger a ↔ b ≤ a ∨ ∃ x ∈ xs, b ≤ x := by
  induction xs generalizing a with
  | nil => simp
  | cons x xs ih => simp [ih, or_assoc]

end PinnedBench
