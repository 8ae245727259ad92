import Mathlib
import PinnedBench.Proofs.Double.Order
import PinnedBench.Random.Noise

/-!
# Bounds of draws

A draw from zero to ten is ten times the fraction of a number from one to two, rounded. The fraction
itself is exact, and the largest one is so far below one that ten times it is below ten even if it
is rounded up (`Generator.toTen_between`). So ten is excluded, for every state of the generator.
-/

namespace PinnedBench

open Double Rounding

/-- A machine number that is stored is read back as it was. -/
theorem Double.toFloat_ofFloat (x : Float) : (ofFloat x).toFloat = x := Float.ofBits_toBits x

/-- Ten is stored as it is. -/
theorem value_ten : ((10 : Nat) : Double).value = 10 := by
  exact_mod_cast value_natCast_of_lt (n := 10) (by decide)

namespace Generator

/-- The upper bits of a word, which are the fraction of a number. -/
def fractionOf (w : UInt64) : Nat := w.toNat / 2 ^ 12

/-- Of the 64 bits of a word 52 are left. -/
theorem fractionOf_lt (w : UInt64) : fractionOf w < 2 ^ 52 := by
  have hw := w.toNat_lt
  rw [fractionOf]
  omega

/-- The number from one to two with that fraction. -/
def oneToTwo (w : UInt64) : Double := ⟨(w >>> 12) ||| 0x3ff0000000000000⟩

/-- A draw from zero to ten, by the operations on stored numbers. -/
theorem toTen_eq (g : Generator) :
    g.toTen.1 =
      (oneToTwo g.next.1 - ((1 : Nat) : Double)) * ((10 : Nat) : Double) +
        ((0 : Nat) : Double) := by
  have hone : ((1 : Nat) : Double).toFloat = 1.0 := toFloat_ofFloat 1.0
  have hten : ((10 : Nat) : Double).toFloat = 10.0 := toFloat_ofFloat 10.0
  have hzero : ((0 : Nat) : Double).toFloat = 0.0 := toFloat_ofFloat 0.0
  -- Storing a result between two operations does not change it.
  show _ = ofFloat ((ofFloat ((ofFloat ((oneToTwo g.next.1).toFloat -
    ((1 : Nat) : Double).toFloat)).toFloat * ((10 : Nat) : Double).toFloat)).toFloat +
      ((0 : Nat) : Double).toFloat)
  rw [toFloat_ofFloat, toFloat_ofFloat, hone, hten, hzero]
  rfl

/-- The pattern has the exponent of one and the upper bits of the word below it. -/
theorem toNat_bits_oneToTwo (w : UInt64) :
    (oneToTwo w).bits.toNat = 1023 * 2 ^ 52 + fractionOf w := by
  have hshift : (w >>> 12).toNat = fractionOf w := by
    rw [UInt64.toNat_shiftRight, Nat.shiftRight_eq_div_pow]
    rfl
  have hexponent : (0x3ff0000000000000 : UInt64).toNat = 1023 <<< 52 := rfl
  -- No bit of the fraction reaches the exponent, so joining the two adds them.
  rw [oneToTwo, UInt64.toNat_or, hshift, hexponent, Nat.or_comm,
    ← Nat.shiftLeft_add_eq_or_of_lt (fractionOf_lt w), Nat.shiftLeft_eq]

/-- The number is one and the fraction, with all bits of it. -/
theorem oneToTwo_spec (w : UInt64) :
    (oneToTwo w).isFinite = true ∧ (oneToTwo w).value = 1 + fractionOf w * 2 ^ (-52 : Int) := by
  have hfraction := fractionOf_lt w
  have hbits := toNat_bits_oneToTwo w
  have hleading : powerOfTwo 52 = 2 ^ 52 := rfl
  -- The pattern is read field by field: no sign, the exponent of one, and the fraction.
  have hunsigned : (oneToTwo w).unsigned = 1023 * 2 ^ 52 + fractionOf w := by
    rw [unsigned_eq, hbits]
    omega
  have hexponentField : (oneToTwo w).exponentField = 1023 := by
    rw [exponentField, hunsigned, hleading]
    omega
  have hfractionField : (oneToTwo w).fractionField = fractionOf w := by
    rw [fractionField, hunsigned, hleading]
    omega
  have hpositive : (oneToTwo w).isNegative = false := by
    rw [isNegative_eq, hbits]
    exact Nat.testBit_lt_two_pow (by omega)
  constructor
  · rw [isFinite, hexponentField]
    rfl
  · rw [value, hpositive, if_neg Bool.false_ne_true, size, significand, scale, hexponentField,
      hfractionField, hleading, if_neg (by decide)]
    norm_num
    ring

/-- The fraction alone is exact. -/
theorem fraction_spec (w : UInt64) :
    (oneToTwo w - ((1 : Nat) : Double)).isFinite = true ∧
      (oneToTwo w - ((1 : Nat) : Double)).value = fractionOf w * 2 ^ (-52 : Int) := by
  obtain ⟨hfinite, hvalue⟩ := oneToTwo_spec w
  have hone : ((1 : Nat) : Double).value = 1 := by
    exact_mod_cast value_natCast_of_lt (n := 1) (by decide)
  -- The difference is below one, so it cannot overflow,
  have hle : (fractionOf w : ℚ) * 2 ^ (-52 : Int) ≤ 2 ^ (0 : Int) := by
    have hfraction : (fractionOf w : ℚ) ≤ 2 ^ 52 := by exact_mod_cast (fractionOf_lt w).le
    norm_num
    linarith
  have hdifference := rounds_sub hfinite (isFinite_natCast (n := 1) (by decide))
  rw [hvalue, hone, add_sub_cancel_left] at hdifference
  have hresult := hdifference.finite (inRange_of_le (by positivity) hle (by decide) (by decide))
  -- and it has 52 bits, so it is stored without rounding.
  refine ⟨hresult, hdifference.value_of_storable ?_ hresult⟩
  have hfraction := fractionOf_lt w
  exact ⟨fractionOf w, -52, by omega, by decide, abs_of_nonneg (by positivity)⟩

/-- The last stored number below ten. -/
def belowTen : ℚ := (10 * 2 ^ 49 - 1 : Nat) * 2 ^ (-49 : Int)

/-- It is a stored number, so rounding does not take a smaller one above it. -/
theorem storable_belowTen : Storable belowTen :=
  ⟨10 * 2 ^ 49 - 1, -49, by decide, by decide, abs_of_nonneg (by rw [belowTen]; positivity)⟩

/-- It is below ten. -/
theorem belowTen_lt : belowTen < 10 := by
  rw [belowTen]
  norm_num

/-- Ten times the largest fraction is below the last stored number below ten. -/
theorem fraction_mul_ten_le (w : UInt64) :
    (fractionOf w : ℚ) * 2 ^ (-52 : Int) * 10 ≤ belowTen := by
  have hlast : fractionOf w ≤ 2 ^ 52 - 1 := Nat.le_sub_one_of_lt (fractionOf_lt w)
  -- The bound is moved to fractions before the powers are computed.
  have hfraction : (fractionOf w : ℚ) ≤ 2 ^ 52 - 1 := by
    have hcast : (fractionOf w : ℚ) ≤ (2 ^ 52 - 1 : Nat) := by exact_mod_cast hlast
    norm_num at hcast ⊢
    exact hcast
  rw [belowTen]
  norm_num
  linarith

/-- Ten times the fraction is rounded once. -/
theorem scaled_spec (w : UInt64) :
    Rounds (fractionOf w * 2 ^ (-52 : Int) * 10)
      ((oneToTwo w - ((1 : Nat) : Double)) * ((10 : Nat) : Double)) := by
  obtain ⟨hfinite, hvalue⟩ := fraction_spec w
  have hproduct := rounds_mul hfinite (isFinite_natCast (n := 10) (by decide))
  rwa [hvalue, value_ten] at hproduct

/-- **A draw from zero to ten** is at least zero and below ten. -/
theorem toTen_between (g : Generator) :
    ((0 : Nat) : Double) ≤ g.toTen.1 ∧ g.toTen.1 < ((10 : Nat) : Double) := by
  rw [toTen_eq]
  have hscaled := scaled_spec g.next.1
  -- From here on only the rounding of this number matters, not how it was made.
  generalize (oneToTwo g.next.1 - ((1 : Nat) : Double)) * ((10 : Nat) : Double) = x at hscaled ⊢
  have hlimit : belowTen ≤ 2 ^ (4 : Int) := belowTen_lt.le.trans (by norm_num)
  have hfinite := hscaled.finite (inRange_of_le (k := 4) (by positivity)
    ((fraction_mul_ten_le g.next.1).trans hlimit) (by decide) (by decide))
  -- Zero and the last number below ten are stored, and rounding cannot step over either.
  have hnonneg : 0 ≤ x.value := hscaled.ge hfinite storable_zero (by positivity)
  have hbelow : x.value ≤ belowTen :=
    hscaled.le hfinite storable_belowTen (fraction_mul_ten_le g.next.1)
  -- Adding zero changes at most the sign of a zero.
  have hzero : ((0 : Nat) : Double).value = 0 := by
    exact_mod_cast value_natCast_of_lt (n := 0) (by decide)
  have hsum := rounds_add hfinite (isFinite_natCast (n := 0) (by decide))
  rw [hzero, add_zero] at hsum
  have hresult := hsum.finite (inRange_of_le hnonneg (hbelow.trans hlimit) (by decide) (by decide))
  have hvalue := hsum.value_of_storable x.storable_value hresult
  constructor
  · exact zero_le_of_value hresult (hvalue ▸ hnonneg)
  · apply lt_of_value_lt hresult (isFinite_natCast (n := 10) (by decide))
    rw [hvalue, value_ten]
    exact hbelow.trans_lt belowTen_lt

end Generator

end PinnedBench
