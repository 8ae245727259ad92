import Mathlib
import PinnedBench.Proofs.Double.Order

/-!
# Signs of stored results

A result may be infinite, or no number at all. Square roots, products and quotients of numbers that
are not below zero are numbers that are not below zero, infinite or not
(`Double.zero_le_squareRoot`, `Double.zero_le_mul`, `Double.zero_le_div`), except where zero is
multiplied by infinity, or one of them is divided by itself. What is not finite stays so when
something is added to it, taken from it or multiplied by it, so that the terms of a finite result
are finite (`Double.isFinite_of_add`).

A count is a number above zero. If it is too large to be stored it is infinite, and a quotient by it
vanishes (`Double.isFinite_div_natCast`).
-/

namespace PinnedBench

open Float.Model Float.Model.UnpackedFloat

namespace Rounding

/-! ### Numbers of the machine -/

/-- A number of the machine that is not below zero. -/
inductive NotBelowZero : UnpackedFloat → Prop
  /-- Both zeros count, whatever their sign. -/
  | zero (s : Sign) : NotBelowZero (.zero s)
  /-- A finite number must have a plus sign, -/
  | finite (m : Nat) (e : Int) (hm : 0 < m) : NotBelowZero (.finite .positive m e hm)
  /-- and so must an infinite one. -/
  | infinity : NotBelowZero (.infinity .positive)

/-- A number of the machine that is above zero. -/
inductive AboveZero : UnpackedFloat → Prop
  /-- A finite number with a plus sign is above zero, -/
  | finite (m : Nat) (e : Int) (hm : 0 < m) : AboveZero (.finite .positive m e hm)
  /-- and so is the infinite one. -/
  | infinity : AboveZero (.infinity .positive)

/-- Only a finite number with a plus sign stands for something above zero, as infinity and no number
stand for zero here. -/
theorem aboveZero_of_numberOf {u : UnpackedFloat} (h : 0 < numberOf u) : AboveZero u := by
  cases u with
  | zero s => exact absurd h (lt_irrefl 0)
  | finite s m e hm =>
    cases s with
    | positive => exact .finite m e hm
    | negative =>
      have hsize : (0 : ℚ) < m * 2 ^ e := by positivity
      rw [numberOf_finite, signed] at h
      linarith
  | infinity s => exact absurd h (lt_irrefl 0)
  | notANumber => exact absurd h (lt_irrefl 0)

/-- Rounding keeps the sign, and at worst leaves a zero. -/
theorem notBelowZero_roundWithAccuracy (m : Nat) (e : Int) (a : Accuracy) :
    NotBelowZero (roundWithAccuracy Format.binary64 .positive m e a) := by
  simp only [roundWithAccuracy]
  split
  · exact .zero _
  · exact .finite _ _ _

/-- The root of a number that is not below zero. -/
theorem NotBelowZero.sqrt {u : UnpackedFloat} (hu : NotBelowZero u) :
    NotBelowZero (UnpackedFloat.sqrt Format.binary64 u) := by
  cases hu with
  | zero s => exact .zero s
  | finite m e hm => exact notBelowZero_roundWithAccuracy _ _ _
  | infinity => exact .infinity

/-- A product of a number that is not below zero, if the other factor is neither zero nor infinite.
-/
theorem NotBelowZero.mul {u v : UnpackedFloat} (hu : NotBelowZero u) (hv : AboveZero v)
    (hfinite : IsStored v) : NotBelowZero (UnpackedFloat.mul Format.binary64 u v) := by
  -- By the shape of the other factor, which is neither zero nor infinite; then by that of the
  -- first.
  cases hv with
  | finite m' e' hm' =>
    cases hu with
    | zero s => exact .zero _
    | finite m e hm => exact notBelowZero_roundWithAccuracy _ _ _
    | infinity => exact .infinity
  | infinity => exact hfinite.elim

/-- A quotient of a number that is not below zero, if one of the two is not infinite. -/
theorem NotBelowZero.div {u v : UnpackedFloat} (hu : NotBelowZero u) (hv : AboveZero v)
    (hfinite : IsStored u ∨ IsStored v) : NotBelowZero (UnpackedFloat.div Format.binary64 u v) := by
  -- By the shape of the divisor, which is above zero but may be infinite.
  cases hv with
  | finite m' e' hm' =>
    cases hu with
    | zero s => exact .zero _
    | finite m e hm =>
      rw [UnpackedFloat.div]
      exact notBelowZero_roundWithAccuracy _ _ _
    | infinity => exact .infinity
  | infinity =>
    cases hu with
    | zero s => exact .zero _
    | finite m e hm => exact .zero _
    -- Infinity by infinity is no number, and it is excluded.
    | infinity => exact (hfinite.elim id id).elim

theorem numberOf_div_infinite {u : UnpackedFloat} (hu : IsStored u) (s : Sign) :
    IsStored (UnpackedFloat.div Format.binary64 u (.infinity s)) ∧
      numberOf (UnpackedFloat.div Format.binary64 u (.infinity s)) = 0 := by
  match u with
  | .zero s' => exact ⟨trivial, rfl⟩
  | .finite s' m e hm => exact ⟨trivial, rfl⟩

/-- A number of the machine that is neither infinite nor no number. -/
def IsProper : UnpackedFloat → Prop
  | .zero _ => True
  | .finite _ _ _ _ => True
  | .infinity _ => False
  | .notANumber => False

/-- A sum that is neither infinite nor no number has such terms. -/
theorem IsProper.of_add {u v : UnpackedFloat}
    (h : IsProper (UnpackedFloat.add Format.binary64 u v)) :
    IsProper u ∧ IsProper v := by
  cases u <;> cases v
  -- Two infinities add up to infinity or to no number, depending on their signs.
  case infinity.infinity s s' =>
    rw [UnpackedFloat.add] at h
    split at h
    · exact h.elim
    · exact h.elim
  -- Every other pair is proper itself, or its sum is not.
  all_goals
    first
    | exact ⟨trivial, trivial⟩
    | exact h.elim

/-- A product that is neither infinite nor no number has such factors. -/
theorem IsProper.of_mul {u v : UnpackedFloat}
    (h : IsProper (UnpackedFloat.mul Format.binary64 u v)) :
    IsProper u ∧ IsProper v := by
  cases u <;> cases v
  all_goals
    first
    | exact ⟨trivial, trivial⟩
    | exact h.elim

end Rounding

namespace Double

open Rounding

variable {x y : Double}

/-! ### Numbers that are not below zero -/

/-- The machine has zero as a zero with a plus sign. -/
theorem unpack_zero : ((0 : Nat) : Double).toFloat.toModel.unpack = .zero .positive := by
  have hzero : ((0 : Nat) : Double).isZero = true := by decide +kernel
  have hpositive : ((0 : Nat) : Double).isNegative = false := by decide +kernel
  rw [unpack_toFloat isFinite_zero, unpack_of_isZero hzero, sign_eq, hpositive]
  rfl

/-- The machine compares with zero by the sign. -/
theorem zero_le_iff : ((0 : Nat) : Double) ≤ x ↔ NotBelowZero x.toFloat.toModel.unpack := by
  have hcompare : ((0 : Nat) : Double) ≤ x ↔ (UnpackedFloat.compare
      ((0 : Nat) : Double).toFloat.toModel.unpack x.toFloat.toModel.unpack).any (·.isLE) = true :=
    decide_eq_true_iff
  rw [hcompare, unpack_zero]
  -- Zero is compared with each shape; a minus sign makes the only difference, but for zeros.
  cases x.toFloat.toModel.unpack with
  | zero s => exact iff_of_true rfl (.zero s)
  | finite s m e hm =>
    cases s with
    | positive => exact iff_of_true rfl (.finite m e hm)
    | negative => exact iff_of_false Bool.false_ne_true nofun
  | infinity s =>
    cases s with
    | positive => exact iff_of_true rfl .infinity
    | negative => exact iff_of_false Bool.false_ne_true nofun
  | notANumber => exact iff_of_false Bool.false_ne_true nofun

/-- What is stored of a result has its sign. -/
theorem zero_le_ofFloat_pack {u : UnpackedFloat} (hu : NotBelowZero u) :
    ((0 : Nat) : Double) ≤ ofFloat (.ofModel (.pack u)) := by
  cases hu with
  | zero s => cases s <;> decide +kernel
  | infinity => decide +kernel
  | finite m e hm =>
    generalize hz : ofFloat (.ofModel (.pack (.finite .positive m e hm))) = z
    have hdefined : z.isUndefined = false := hz ▸ isUndefined_ofFloat_pack nofun
    -- Packing may give infinity, a number with its leading bit or one without, and each keeps the
    -- sign.
    have hsign : z.sign = .positive := by
      have hbits : z.bits.toBitVec =
          UnpackedFloat.pack Format.binary64 (.finite .positive m e hm) := by
        rw [← hz]
        rfl
      rw [sign, hbits, UnpackedFloat.pack]
      dsimp only
      split
      · rw [packedInfinity, UnpackedFloat.unpackSign_packComponents, Sign.ofBitVec_toBitVec]
      · split
        · rw [UnpackedFloat.unpackSign_packComponents, Sign.ofBitVec_toBitVec]
        · rw [UnpackedFloat.unpackSign_packComponents, Sign.ofBitVec_toBitVec]
    rw [zero_le_iff, unpack_toFloat_of_defined hdefined]
    -- Whatever it is unpacked into again has that sign.
    rcases unpack_cases hdefined with ⟨-, h⟩ | ⟨-, -, hpos, h⟩ | ⟨-, h⟩
    · rw [h]
      exact .zero _
    · rw [h, hsign]
      exact .finite _ _ _
    · rw [h, hsign]
      exact .infinity

/-- What the machine does not have below zero stands for nothing negative. -/
theorem value_nonneg (h : ((0 : Nat) : Double) ≤ x) : 0 ≤ x.value := by
  have hzero : ((0 : Nat) : Double).value = 0 := by decide +kernel
  exact hzero.ge.trans (value_le_of_place (le_iff.mp h).2)

/-- A finite pattern that stands for a positive number is above zero for the machine. -/
theorem aboveZero_of_value (hx : x.isFinite = true) (h : 0 < x.value) :
    AboveZero x.toFloat.toModel.unpack :=
  aboveZero_of_numberOf (by rwa [numberOf_toFloat hx])

/-- A square root is not below zero, infinite or not. -/
theorem zero_le_squareRoot (hx : ((0 : Nat) : Double) ≤ x) :
    ((0 : Nat) : Double) ≤ squareRoot x :=
  zero_le_ofFloat_pack (zero_le_iff.mp hx).sqrt

/-- A product with a finite positive number is not below zero, infinite or not. -/
theorem zero_le_mul (hx : ((0 : Nat) : Double) ≤ x) (hy : y.isFinite = true) (hpos : 0 < y.value) :
    ((0 : Nat) : Double) ≤ x * y :=
  zero_le_ofFloat_pack ((zero_le_iff.mp hx).mul (aboveZero_of_value hy hpos) (isStored_toFloat hy))

/-- So is a quotient by one. -/
theorem zero_le_div (hx : ((0 : Nat) : Double) ≤ x) (hy : y.isFinite = true) (hpos : 0 < y.value) :
    ((0 : Nat) : Double) ≤ x / y :=
  zero_le_ofFloat_pack
    ((zero_le_iff.mp hx).div (aboveZero_of_value hy hpos) (.inr (isStored_toFloat hy)))

/-! ### Terms of a finite result -/

/-- A pattern is finite if the machine has it as a number that is not infinite. -/
theorem isFinite_of_isProper (h : IsProper x.toFloat.toModel.unpack) : x.isFinite = true := by
  by_contra hinfinite
  cases hx : x.isUndefined with
  | true =>
    rw [unpack_toFloat_of_isUndefined hx] at h
    exact h
  | false =>
    rw [unpack_toFloat_of_defined hx] at h
    -- The fields tell the three kinds of numbers apart, and two of them are finite.
    rcases unpack_cases hx with ⟨hzero, -⟩ | ⟨-, htop, -⟩ | ⟨-, hunpack⟩
    · exact hinfinite (isFinite_of_unsigned_lt (by omega))
    · exact hinfinite (isFinite_of_unsigned_lt htop)
    · rw [hunpack] at h
      exact h

/-- If what is stored of a result is finite, so was the result. -/
theorem isProper_of_isFinite_pack {u : UnpackedFloat}
    (h : (ofFloat (.ofModel (.pack u))).isFinite = true) : IsProper u := by
  cases u with
  | zero s => trivial
  | finite s m e hm => trivial
  | infinity s => exact Bool.false_ne_true ((not_isFinite_infinite s).1.symm.trans h)
  | notANumber => exact Bool.false_ne_true ((not_isFinite_infinite .positive).2.symm.trans h)

/-- **The terms of a finite sum** are finite. -/
theorem isFinite_of_add (h : (x + y).isFinite = true) : x.isFinite = true ∧ y.isFinite = true := by
  obtain ⟨hx, hy⟩ := (isProper_of_isFinite_pack h).of_add
  exact ⟨isFinite_of_isProper hx, isFinite_of_isProper hy⟩

/-- **The factors of a finite product** are finite. -/
theorem isFinite_of_mul (h : (x * y).isFinite = true) : x.isFinite = true ∧ y.isFinite = true := by
  obtain ⟨hx, hy⟩ := (isProper_of_isFinite_pack h).of_mul
  exact ⟨isFinite_of_isProper hx, isFinite_of_isProper hy⟩

theorem value_mul_self_nonneg (h : (x * x).isFinite = true) : 0 ≤ (x * x).value := by
  have hx := (isFinite_of_mul h).1
  exact (rounds_mul hx hx).ge h storable_zero (mul_self_nonneg x.value)

/-- Infinity is read back as it was stored. -/
theorem unpack_infinity :
    (ofFloat (.ofModel (.pack (.infinity .positive)))).toFloat.toModel.unpack =
    .infinity .positive := by
  generalize hz : ofFloat (.ofModel (.pack (.infinity .positive))) = z
  have hunsigned : z.unsigned = 2047 * 2 ^ 52 := hz ▸ by decide +kernel
  have hdefined : z.isUndefined = false := hz ▸ by decide +kernel
  have hpositive : z.isNegative = false := hz ▸ by decide +kernel
  rw [unpack_toFloat_of_defined hdefined]
  rcases unpack_cases hdefined with ⟨hzero, -⟩ | ⟨-, htop, -⟩ | ⟨-, hunpack⟩
  · omega
  · omega
  · rw [hunpack, sign_eq, hpositive]
    rfl

/-- What is above zero and too large to be stored becomes infinity. -/
theorem unpack_pack_of_infinite {u : UnpackedFloat} (hu : IsStored u) (hsign : NotBelowZero u)
    (h : (ofFloat (.ofModel (.pack u))).isFinite = false) :
    (ofFloat (.ofModel (.pack u))).toFloat.toModel.unpack = .infinity .positive := by
  cases hsign with
  | zero s => cases s <;> exact absurd h (by decide +kernel)
  | infinity => exact hu.elim
  | finite M E hM =>
    -- With an exponent up to 971 all its digits would be in range.
    have hexponent : 971 < E := by
      by_contra hsmall
      have hbound : Bounded 971 (.finite .positive M E hM) :=
        within_of_lt hu.lt (not_lt.mp hsmall)
      exact Bool.false_ne_true (h.symm.trans
        (isFinite_iff.mpr (exponentField_ofFloat_le (by decide) (by decide) hbound)))
    rw [pack_of_large hM hexponent, unpack_infinity]

/-! ### Counts -/

section Count

variable {n : Nat}

/-- What a count is rounded to is not below zero. -/
theorem notBelowZero_roundedWhole (n : Nat) : NotBelowZero (roundedWhole n) := by
  rw [roundedWhole_eq]
  exact notBelowZero_roundWithAccuracy _ _ _

/-- A count that is too large to be stored is infinite. -/
theorem unpack_natCast_of_infinite (h : (n : Double).isFinite = false) :
    (n : Double).toFloat.toModel.unpack = .infinity .positive := by
  -- A smaller count fits a significand.
  have hlarge : 2 ^ 53 ≤ n := by
    by_contra hsmall
    exact Bool.false_ne_true (h.symm.trans (isFinite_natCast (not_le.mp hsmall)))
  rw [natCast_of_le hlarge] at h ⊢
  exact unpack_pack_of_infinite (numberOf_roundedWhole hlarge).1 (notBelowZero_roundedWhole n) h

/-- **A count** is infinite, or it is at least one and stands for what it is rounded to. -/
theorem natCast_cases (hn : 0 < n) :
    (n : Double).toFloat.toModel.unpack = .infinity .positive ∨
      (n : Double).isFinite = true ∧ (n : Double).value = rounded n ∧ 1 ≤ (n : Double).value := by
  cases hfinite : (n : Double).isFinite with
  | false => exact .inl (unpack_natCast_of_infinite hfinite)
  | true =>
    have hrounds := rounds_natCast n
    exact .inr ⟨rfl, hrounds.value_eq hfinite,
      hrounds.ge hfinite storable_one (by exact_mod_cast hn)⟩

/-- A quotient by a count is not below zero, even if the count is stored as infinity. -/
theorem zero_le_div_natCast (hx : x.isFinite = true) (hnonneg : ((0 : Nat) : Double) ≤ x)
    (hn : 0 < n) : ((0 : Nat) : Double) ≤ x / (n : Double) := by
  rcases natCast_cases hn with hinfinite | ⟨hfinite, -, hone⟩
  · have habove : AboveZero (n : Double).toFloat.toModel.unpack := by
      rw [hinfinite]
      exact .infinity
    exact zero_le_ofFloat_pack
      ((zero_le_iff.mp hnonneg).div habove (.inl (isStored_toFloat hx)))
  · exact zero_le_div hnonneg hfinite (zero_lt_one.trans_le hone)

theorem rounds_div_infinite (hx : x.isFinite = true)
    (hy : y.toFloat.toModel.unpack = .infinity .positive) : Rounds 0 (x / y) := by
  obtain ⟨hstored, hnumber⟩ := numberOf_div_infinite (isStored_toFloat hx) .positive
  rw [← hy] at hstored hnumber
  exact rounds_ofFloat_pack hstored (hnumber.trans rounded_zero.symm)

/-- **A quotient by a count** is finite and not larger than the dividend, and it is not larger than
one if the dividend is not larger than the count as it is rounded. -/
theorem isFinite_div_natCast (hx : x.isFinite = true) (hn : 0 < n) :
    (x / (n : Double)).isFinite = true ∧ |(x / (n : Double)).value| ≤ |x.value| ∧
      (|x.value| ≤ rounded n → |(x / (n : Double)).value| ≤ 1) := by
  -- Either the count is infinite and the quotient vanishes,
  rcases natCast_cases hn with hinfinite | ⟨hfinite, hvalue, hone⟩
  · have hrounds := rounds_div_infinite hx hinfinite
    have hresult := hrounds.finite (by rw [InRange, rounded_zero, abs_zero]; positivity)
    rw [hrounds.value_eq hresult, rounded_zero, abs_zero]
    exact ⟨hresult, abs_nonneg _, fun _ => zero_le_one⟩
  · -- or the count is at least one, so that dividing by it makes nothing larger.
    have hpos : 0 < (n : Double).value := zero_lt_one.trans_le hone
    have hrounds := rounds_div hx hfinite hpos.ne'
    have hsmaller : |x.value / (n : Double).value| ≤ |x.value| := by
      rw [abs_div, abs_of_pos hpos]
      exact div_le_self (abs_nonneg _) hone
    have hresult := hrounds.finite
      (inRange_of_abs_le_storable x.storable_value.abs hsmaller (abs_value_lt hx))
    rw [hrounds.value_eq hresult]
    refine ⟨hresult, abs_rounded_le x.storable_value.abs hsmaller, fun hle => ?_⟩
    refine abs_rounded_le storable_one ?_
    rw [abs_div, abs_of_pos hpos, hvalue]
    exact div_le_one_of_le₀ hle (hvalue ▸ hpos.le)

end Count

end Double

end PinnedBench
