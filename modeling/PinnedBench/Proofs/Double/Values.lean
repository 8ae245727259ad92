import Mathlib
import PinnedBench.Double
import PinnedBench.Proofs.Decimal.Nearest

/-!
# Values of stored numbers

`Double.value` is the number that a finite pattern stands for. Different patterns have different
ranks (`Double.rank_injective`), and values are in the order of the ranks (`Double.value_le_value`),
where only the two zeros have one value and two ranks. In their places both zeros are one
(`Double.value_le_of_place`).

The machine takes a finite pattern for its value (`Double.numberOf_toFloat`).
-/

namespace PinnedBench

open Float.Model Float.Model.UnpackedFloat

namespace Double

/-! ### Ranks -/

/-- **Ranks** tell stored numbers apart: the sign shows in the sign of the rank. -/
theorem rank_injective : Function.Injective rank := by
  intro x y h
  -- A rank below zero belongs to a sign: the negative zero has the rank -1.
  have hsign : x.isNegative = y.isNegative := by
    rw [rank, rank] at h
    cases hx : x.isNegative <;> cases hy : y.isNegative <;> simp [hx, hy] at h ⊢ <;> omega
  -- With the same sign the ranks differ as the patterns without it do.
  have hunsigned : x.unsigned = y.unsigned := by
    rw [rank, rank, hsign] at h
    split at h <;> omega
  have hmagnitude : magnitude x = magnitude y := congrArg Double.mk (UInt64.toNat_inj.mp hunsigned)
  rw [← signed_magnitude x, ← signed_magnitude y, hsign, hmagnitude]

/-- **The place** of a pattern: its rank, but both zeros have the same place. -/
def place (x : Double) : Int := if x.isNegative then -(x.unsigned : Int) else x.unsigned

theorem place_le_place {x y : Double} (h : x.rank ≤ y.rank) : x.place ≤ y.place := by
  rw [rank, rank] at h
  rw [place, place]
  cases hx : x.isNegative <;> cases hy : y.isNegative <;> simp [hx, hy] at h ⊢ <;> omega

/-! ### Values -/

/-- The number that a finite pattern stands for, without its sign. -/
def size (x : Double) : ℚ := x.significand * 2 ^ x.scale

/-- **The number** that a finite pattern stands for. -/
def value (x : Double) : ℚ := if x.isNegative then -x.size else x.size

example : (⟨0xbff8000000000000⟩ : Double).value = -3 / 2 := by decide +kernel

theorem size_nonneg (x : Double) : 0 ≤ x.size :=
  mul_nonneg (Nat.cast_nonneg _) (zpow_nonneg zero_le_two _)

/-- Only the zeros have the size zero. -/
theorem size_pos {x : Double} (hzero : x.isZero = false) : 0 < x.size :=
  mul_pos (by exact_mod_cast Nat.pos_of_ne_zero (significand_ne_zero hzero)) (zpow_pos two_pos _)

theorem size_eq (x : Double) :
    x.size = (x.significand * 2 ^ max x.exponentField 1 : Nat) * 2 ^ (-1075 : Int) := by
  -- The numbers without a leading bit have the exponent of the smallest ones with it.
  rw [size, scale, sub_eq_add_neg, zpow_add₀ two_ne_zero, zpow_natCast, ← mul_assoc]
  norm_cast

/-- Sizes in units of the smallest exponent are in the order of the patterns without signs. -/
theorem significand_mul_le {x y : Double} (h : x.unsigned ≤ y.unsigned) :
    x.significand * 2 ^ max x.exponentField 1 ≤ y.significand * 2 ^ max y.exponentField 1 := by
  have hx : x.exponentField * 2 ^ 52 + x.fractionField = x.unsigned := Nat.div_add_mod' _ _
  have hy : y.exponentField * 2 ^ 52 + y.fractionField = y.unsigned := Nat.div_add_mod' _ _
  have hfraction : x.fractionField < 2 ^ 52 := Nat.mod_lt _ (by decide)
  have hleading : powerOfTwo 52 = 2 ^ 52 := rfl
  have hexponent : x.exponentField ≤ y.exponentField := Nat.div_le_div_right h
  rw [significand, significand, hleading]
  -- The exponents are the upper bits, so they are in order too.
  rcases hexponent.eq_or_lt with heq | hlt
  · -- The same unit, and the fractions are in order.
    rw [heq] at hx ⊢
    apply Nat.mul_le_mul_right
    split <;> omega
  · have hmax : max y.exponentField 1 = y.exponentField := by omega
    rw [if_neg (by omega : y.exponentField ≠ 0), hmax]
    split
    next hzero =>
      rw [hzero]
      exact Nat.mul_le_mul (by omega) (Nat.pow_le_pow_right two_pos (by omega))
    next hpos =>
      -- The leading bit of the larger number weighs as much as all bits of the smaller one.
      have hmax : max x.exponentField 1 = x.exponentField := by omega
      rw [hmax]
      calc (2 ^ 52 + x.fractionField) * 2 ^ x.exponentField
          ≤ 2 ^ 52 * 2 * 2 ^ x.exponentField := Nat.mul_le_mul_right _ (by omega)
        _ = 2 ^ 52 * 2 ^ (x.exponentField + 1) := by ring
        _ ≤ (2 ^ 52 + y.fractionField) * 2 ^ y.exponentField :=
          Nat.mul_le_mul (by omega) (Nat.pow_le_pow_right two_pos hlt)

/-- Sizes are in the order of the patterns without signs. -/
theorem size_le_size {x y : Double} (h : x.unsigned ≤ y.unsigned) : x.size ≤ y.size := by
  rw [size_eq, size_eq]
  apply mul_le_mul_of_nonneg_right
  · exact_mod_cast significand_mul_le h
  · exact zpow_nonneg zero_le_two _

/-- Both zeros have the size zero. -/
theorem size_of_isZero {x : Double} (hzero : x.isZero = true) : x.size = 0 := by
  have hunsigned : x.unsigned = 0 := by simpa [isZero] using hzero
  simp [size, significand, exponentField, fractionField, hunsigned]

/-- **Values** are in the order of the places. -/
theorem value_le_of_place {x y : Double} (h : x.place ≤ y.place) : x.value ≤ y.value := by
  have hx := x.size_nonneg
  have hy := y.size_nonneg
  rw [place, place] at h
  rw [value, value]
  rcases x.isNegative.eq_false_or_eq_true with hnegative | hnegative <;>
    rcases y.isNegative.eq_false_or_eq_true with hnegative' | hnegative' <;>
    simp only [hnegative, hnegative', if_true, Bool.false_eq_true, if_false] at h ⊢
  · exact neg_le_neg (size_le_size (by omega))
  · -- A number with a sign is at most zero, and one without it at least.
    linarith
  · -- Only the two zeros are in the same place.
    have hzero : x.isZero = true := by rw [isZero, beq_iff_eq]; omega
    have hzero' : y.isZero = true := by rw [isZero, beq_iff_eq]; omega
    rw [size_of_isZero hzero, size_of_isZero hzero', neg_zero]
  · exact size_le_size (by omega)

/-- **Values** are in the order of the ranks. -/
theorem value_le_value {x y : Double} (h : x.rank ≤ y.rank) : x.value ≤ y.value :=
  value_le_of_place (place_le_place h)

/-! ### Patterns as the machine takes them -/

/-- The pattern without its sign are the lower 63 bits. -/
theorem unsigned_eq (x : Double) : x.unsigned = x.bits.toNat % 2 ^ 63 := by
  rw [unsigned, UInt64.toNat_and]
  exact Nat.and_two_pow_sub_one_eq_mod _ 63

/-- The fraction is the mantissa that the machine unpacks. -/
theorem fractionField_eq (x : Double) :
    x.fractionField = (@unpackMantissa Format.binary64 x.bits.toBitVec).toNat := by
  have hextract : (@unpackMantissa Format.binary64 x.bits.toBitVec).toNat =
      x.bits.toNat % 2 ^ 52 := by
    simp [unpackMantissa]
  rw [fractionField, unsigned_eq, hextract]
  exact Nat.mod_mod_of_dvd _ (by decide)

/-- The sign is the highest bit. -/
theorem isNegative_eq (x : Double) : x.isNegative = x.bits.toNat.testBit 63 := by
  have hmask : (x.bits &&& signBit).toNat = (x.bits.toNat.testBit 63).toNat * 2 ^ 63 := by
    rw [UInt64.toNat_and]
    exact Nat.and_two_pow _ 63
  rw [isNegative, Bool.eq_iff_iff, bne_iff_ne, ne_eq, ← UInt64.toNat_inj, hmask]
  cases x.bits.toNat.testBit 63 <;> simp

/-- The sign is the one that the machine unpacks. -/
theorem isNegative_iff (x : Double) :
    x.isNegative = true ↔ @unpackSign Format.binary64 x.bits.toBitVec = 1#1 := by
  have hextract : (@unpackSign Format.binary64 x.bits.toBitVec).toNat =
      x.bits.toNat / 2 ^ 63 % 2 := by
    simp [unpackSign, Nat.shiftRight_eq_div_pow]
  have hone : (1#1).toNat = 1 := rfl
  rw [isNegative_eq, ← BitVec.toNat_inj, hextract, hone, Nat.testBit_eq_decide_div_mod_eq,
    decide_eq_true_iff]

end Double

namespace Rounding

/-- A number with a sign. -/
def signed : Sign → ℚ → ℚ
  | .positive, w => w
  | .negative, w => -w

/-- The number that a finite operand of the machine stands for. -/
def numberOf : UnpackedFloat → ℚ
  | .finite s m e _ => signed s (m * 2 ^ e)
  | _ => 0

/-- A finite operand is its significand times a power of two, with its sign. -/
theorem numberOf_finite (s : Sign) (m : Nat) (e : Int) (hm : 0 < m) :
    numberOf (.finite s m e hm) = signed s (m * 2 ^ e) := rfl

end Rounding

namespace Double

open Rounding

/-- The sign as the machine has it. -/
def sign (x : Double) : Sign := Sign.ofBitVec (@unpackSign Format.binary64 x.bits.toBitVec)

/-- The sign of the machine is minus where the highest bit is set. -/
theorem sign_eq (x : Double) :
    x.sign = if x.isNegative then Sign.negative else Sign.positive := by
  rw [sign]
  by_cases hnegative : x.isNegative = true
  · rw [if_pos hnegative, x.isNegative_iff.mp hnegative]
    rfl
  · have hzero : @unpackSign Format.binary64 x.bits.toBitVec = 0#1 := by
      rcases BitVec.eq_zero_or_eq_one (@unpackSign Format.binary64 x.bits.toBitVec) with h | h
      · exact h
      · exact absurd (x.isNegative_iff.mpr h) hnegative
    rw [if_neg hnegative, hzero]
    rfl

/-- The number that a pattern stands for, by its sign and its size. -/
theorem value_eq (x : Double) : x.value = signed x.sign x.size := by
  rw [value, sign_eq]
  split
  · rfl
  · rfl

/-- A zero is unpacked into its sign. -/
theorem unpack_of_isZero {x : Double} (hzero : x.isZero = true) :
    UnpackedFloat.unpack Format.binary64 x.bits.toBitVec = .zero x.sign := by
  have hunsigned : x.unsigned = 0 := by simpa [isZero] using hzero
  have hexponent : @unpackExponent Format.binary64 x.bits.toBitVec = 0#11 := by
    apply BitVec.eq_of_toNat_eq
    rw [← x.exponentField_eq, exponentField, hunsigned]
    rfl
  have hfraction : @unpackMantissa Format.binary64 x.bits.toBitVec = 0#52 := by
    apply BitVec.eq_of_toNat_eq
    rw [← x.fractionField_eq, fractionField, hunsigned]
    rfl
  rw [UnpackedFloat.unpack]
  simp only [hexponent, hfraction]
  rfl

/-- A finite pattern has not all bits of the exponent set. -/
theorem unpackExponent_ne_ones {x : Double} (hx : x.isFinite = true) :
    @unpackExponent Format.binary64 x.bits.toBitVec ≠ -1#_ := by
  intro heq
  have hexponent := x.exponentField_eq
  rw [heq] at hexponent
  have hall : x.exponentField = 2047 := hexponent
  have hfinite : x.exponentField < 2047 := of_decide_eq_true hx
  omega

/-- Any other finite number is unpacked into its sign, its significand and its scale. -/
theorem unpack_of_pos {x : Double} (hx : x.isFinite = true) (hpos : 0 < x.significand) :
    UnpackedFloat.unpack Format.binary64 x.bits.toBitVec =
      .finite x.sign x.significand x.scale hpos := by
  have hfraction := x.fractionField_eq
  have hexponent := x.exponentField_eq
  have hbias : (Format.binary64.exponentBias : Int) = 1023 := by decide
  rw [UnpackedFloat.unpack]
  simp only [unpackExponent_ne_ones hx, if_false, hbias]
  split
  next hzero =>
    -- The leading bit is missing.
    have hfield : x.exponentField = 0 := by
      rw [hexponent, hzero]
      rfl
    have hsignificand : x.significand = x.fractionField := if_pos hfield
    have hsome : @unpackMantissa Format.binary64 x.bits.toBitVec ≠ 0#52 := by
      intro heq
      rw [hsignificand, hfraction, heq] at hpos
      exact absurd hpos (by decide)
    have hscale : x.scale = (x.exponentField : Int) - (1023 + 52) + 1 := by
      rw [scale, hfield]
      rfl
    simp only [hsome, dite_false, hsignificand, hscale, hfraction, hexponent]
    rfl
  next hnonzero =>
    have hfield : x.exponentField ≠ 0 := by
      intro heq
      exact hnonzero (BitVec.eq_of_toNat_eq (hexponent.symm.trans heq))
    -- The leading bit is put before the fraction.
    have hsignificand : x.significand =
        (1#1 ++ @unpackMantissa Format.binary64 x.bits.toBitVec).toNat := by
      rw [BitVec.toNat_append, ← Nat.shiftLeft_add_eq_or_of_lt (BitVec.isLt _), Nat.shiftLeft_eq,
        ← hfraction]
      exact if_neg hfield
    have hscale : x.scale = (x.exponentField : Int) - (1023 + 52) := by
      rw [scale]
      omega
    simp only [hsignificand, hscale, hexponent]
    rfl

/-- A finite pattern is unpacked into its value. -/
theorem numberOf_unpack {x : Double} (hx : x.isFinite = true) :
    numberOf (UnpackedFloat.unpack Format.binary64 x.bits.toBitVec) = x.value := by
  rw [value_eq]
  cases hzero : x.isZero with
  | true =>
    rw [unpack_of_isZero hzero, size_of_isZero hzero]
    cases x.sign <;> simp [numberOf, signed]
  | false =>
    have hpos := Nat.pos_of_ne_zero (significand_ne_zero hzero)
    rw [unpack_of_pos hx hpos, numberOf_finite, size]

/-- What an operand is unpacked into, unless its pattern stands for no number: of such patterns the
machine keeps a single one. -/
theorem unpack_toFloat_of_defined {x : Double} (hx : x.isUndefined = false) :
    x.toFloat.toModel.unpack = UnpackedFloat.unpack Format.binary64 x.bits.toBitVec := by
  -- A pattern that stands for a number is one of those that packing gives back unchanged.
  have hvalid : Format.binary64.Valid x.bits.toBitVec := by
    constructor
    intro hones hmantissa
    have hexponent : x.exponentField = 2047 := by
      rw [exponentField_eq, hones]
      rfl
    have hfraction : x.fractionField ≠ 0 := by
      intro hzero
      rw [fractionField_eq] at hzero
      exact hmantissa (BitVec.eq_of_toNat_eq hzero)
    simp [isUndefined, hexponent, hfraction] at hx
  change UnpackedFloat.unpack Format.binary64
    (UnpackedFloat.pack Format.binary64 (UnpackedFloat.unpack Format.binary64 x.bits.toBitVec)) = _
  rw [pack_unpack_of_valid hvalid]

theorem unpack_toFloat {x : Double} (hx : x.isFinite = true) :
    x.toFloat.toModel.unpack = UnpackedFloat.unpack Format.binary64 x.bits.toBitVec :=
  unpack_toFloat_of_defined (isUndefined_of_isFinite hx)

/-- **The machine** has a finite pattern as an operand with its value. -/
theorem numberOf_toFloat {x : Double} (hx : x.isFinite = true) :
    numberOf x.toFloat.toModel.unpack = x.value := by
  rw [unpack_toFloat hx, numberOf_unpack hx]

end Double

end PinnedBench
