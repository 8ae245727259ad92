import PinnedBench.Decimal.Nearest
import PinnedBench.Proofs.Decimal.Rounding
import PinnedBench.Proofs.Json.Numbers

/-!
# Decimals read as the nearest number

A decimal is read as a number `x` if its value lies in the interval of `x` (`Decimal.nearest_eq`).
There are two ways to the number: a decimal with few digits and a small exponent is one machine
operation on two numbers that are exact, and any other is rounded from its digits and a power of
ten. Both round once, and both are `Rounding.mul_eq` or `Rounding.div_eq`.
-/

namespace PinnedBench

open Float.Model Float.Model.UnpackedFloat

namespace Rounding

/-! ### Packing -/

/-- The pattern as a number: the three fields one behind the other. -/
theorem toNat_packComponents (s : Sign) (e : BitVec 11) (m : BitVec 52) :
    (packComponents Format.binary64 s e m).toNat =
      s.toBitVec.toNat * 2 ^ 63 + e.toNat * 2 ^ 52 + m.toNat := by
  rw [packComponents, BitVec.toNat_append, BitVec.toNat_append,
    ← Nat.shiftLeft_add_eq_or_of_lt m.isLt, ← Nat.shiftLeft_add_eq_or_of_lt e.isLt,
    Nat.shiftLeft_eq, Nat.shiftLeft_eq]
  ring

/-- The library has this for the other two fields only. The sign is the bit above both of them. -/
theorem unpackSign_packComponents (s : Sign) (e : BitVec 11) (m : BitVec 52) :
    unpackSign (packComponents Format.binary64 s e m) = s.toBitVec := by
  have htotal := toNat_packComponents s e m
  generalize packComponents Format.binary64 s e m = b at htotal ⊢
  have hsign : (unpackSign b).toNat = b.toNat / 2 ^ 63 % 2 := by
    simp [unpackSign, Nat.shiftRight_eq_div_pow]
  have he := e.isLt
  have hm := m.isLt
  have hs := s.toBitVec.isLt
  apply BitVec.eq_of_toNat_eq
  rw [hsign, htotal]
  omega

/-- How a stored number is packed: the exponent counts from the smallest one, and is zero where the
leading bit is missing. -/
theorem pack_eq {M : Nat} {E : Int} (hcanonical : Canonical M E) (hE : E ≤ 971) (s : Sign) :
    UnpackedFloat.pack Format.binary64 (.finite s M E hcanonical.pos) =
      packComponents Format.binary64 s
        (if 2 ^ 52 ≤ M then BitVec.ofNat 11 (E + 1075).toNat else 0#11) (BitVec.ofNat 52 M) := by
  have hM := hcanonical.lt
  have hle := hcanonical.le
  have hbias : (Format.binary64.exponentBias : Int) = 1023 := by decide
  have hmantissa : Format.binary64.mantissaBits = 53 := rfl
  -- The library shifts the exponent in two steps; one stands for both here.
  have hsum : E + 1023 + 52 = E + 1075 := by omega
  have hsmall : ¬2 ^ 11 ≤ (E + 1075).toNat + 1 := by omega
  -- It also asks for the leading bit through the logarithm.
  have hlog : M.log2 + 1 = Format.binary64.mantissaBits ↔ 2 ^ 52 ≤ M := by
    have hlower := Nat.le_log2 (k := 52) hcanonical.pos.ne'
    have hupper := (Nat.log2_lt hcanonical.pos.ne').mpr hM
    omega
  simp only [UnpackedFloat.pack, hbias, Nat.cast_ofNat, hsum, if_neg hsmall, hlog]
  split <;> rfl

/-- A number with its leading bit is unpacked as it was packed. -/
theorem unpack_pack {M : Nat} {E : Int} (hcanonical : Canonical M E) (hlarge : 2 ^ 52 ≤ M)
    (hE : E ≤ 971) :
    (Float.Model.pack (.finite .positive M E hcanonical.pos)).unpack =
      .finite .positive M E hcanonical.pos := by
  have hM := hcanonical.lt
  have hle := hcanonical.le
  have hexponent : (BitVec.ofNat 11 (E + 1075).toNat).toNat = (E + 1075).toNat := by
    rw [BitVec.toNat_ofNat]
    omega
  -- The exponent is neither of the two that stand for something else.
  have hones : BitVec.ofNat 11 (E + 1075).toNat ≠ -1#_ := by
    intro heq
    have hall := congrArg BitVec.toNat heq
    rw [hexponent] at hall
    have hones : (-1#11).toNat = 2047 := rfl
    omega
  have hzero : BitVec.ofNat 11 (E + 1075).toNat ≠ 0#_ := by
    intro heq
    have hall := congrArg BitVec.toNat heq
    rw [hexponent, BitVec.toNat_zero] at hall
    omega
  -- The leading bit that is not stored is put back in front of the other ones.
  have hbits : (1#1 ++ BitVec.ofNat 52 M).toNat = M := by
    have hone : (1#1).toNat = 1 := rfl
    have hfraction : (BitVec.ofNat 52 M).toNat = M % 2 ^ 52 := BitVec.toNat_ofNat M 52
    rw [BitVec.toNat_append, ← Nat.shiftLeft_add_eq_or_of_lt (BitVec.isLt _), Nat.shiftLeft_eq]
    omega
  have hbias : (Format.binary64.exponentBias : Int) = 1023 := by decide
  have hback : ((E + 1075).toNat : Int) - (1023 + 52) = E := by omega
  rw [Float.Model.unpack, Float.Model.pack]
  simp only [pack_eq hcanonical hE, if_pos hlarge]
  rw [UnpackedFloat.unpack]
  simp only [unpackMantissa_packComponents, unpackExponent_packComponents, hones, hzero, if_false,
    unpackSign_packComponents, hexponent, hbits, hbias, Nat.cast_ofNat, hback]
  rfl

end Rounding

namespace Double

/-! ### Stored numbers -/

/-- The significand and the scale of a number that is not zero are as they are stored. -/
theorem canonical {x : Double} (hx : x.isZero = false) :
    Rounding.Canonical x.significand x.scale := by
  have hfraction : x.fractionField < 2 ^ 52 := Nat.mod_lt _ (by decide)
  have hleading : powerOfTwo 52 = 2 ^ 52 := rfl
  refine ⟨Nat.pos_of_ne_zero (significand_ne_zero hx), ?_, ?_, ?_⟩
  · rw [significand]
    split <;> omega
  · rw [scale]
    omega
  · rw [significand, scale]
    split
    next hzero => exact .inr (by omega)
    next => exact .inl (by omega)

/-- The largest exponent of a finite number. -/
theorem scale_le {x : Double} (hx : x.isFinite = true) : x.scale ≤ 971 := by
  rw [isFinite, decide_eq_true_iff] at hx
  rw [scale]
  omega

/-- **A stored number** is packed as its pattern without the sign. -/
theorem ofFloat_pack {x : Double} (hfinite : x.isFinite = true) (hzero : x.isZero = false)
    (hpos : 0 < x.significand) :
    ofFloat (.ofModel (.pack (.finite .positive x.significand x.scale hpos))) = magnitude x := by
  have hfraction : x.fractionField < 2 ^ 52 := Nat.mod_lt _ (by decide)
  have hunsigned : x.exponentField * 2 ^ 52 + x.fractionField = x.unsigned :=
    Nat.div_add_mod' x.unsigned (2 ^ 52)
  have hscale : x.scale = (max x.exponentField 1 : Nat) - 1075 := rfl
  have hle := scale_le hfinite
  have hbits : (UnpackedFloat.pack Format.binary64
      (.finite .positive x.significand x.scale hpos)).toNat = x.unsigned := by
    rw [Rounding.pack_eq (canonical hzero) hle, Rounding.toNat_packComponents]
    have hsign : Sign.positive.toBitVec.toNat = 0 := rfl
    rw [hsign, BitVec.toNat_ofNat x.significand 52]
    by_cases hfield : x.exponentField = 0
    · -- Without the leading bit, the fraction is the pattern.
      have hsignificand : x.significand = x.fractionField := if_pos hfield
      rw [hsignificand, if_neg hfraction.not_ge, BitVec.toNat_zero, Nat.mod_eq_of_lt hfraction,
        ← hunsigned, hfield]
      ring
    · have hsignificand : x.significand = 2 ^ 52 + x.fractionField := if_neg hfield
      have hexponent : (x.scale + 1075).toNat = x.exponentField := by omega
      have hlt : x.exponentField < 2 ^ 11 := by omega
      rw [hsignificand, if_pos (Nat.le_add_right _ _), BitVec.toNat_ofNat, hexponent,
        Nat.mod_eq_of_lt hlt, Nat.add_mod_left, Nat.mod_eq_of_lt hfraction, ← hunsigned]
      ring
  refine congrArg Double.mk (UInt64.toNat_inj.mp ?_)
  exact hbits

end Double

/-! ### Exact numbers -/

namespace Rounding

/-- A number of the machine that is exactly a positive value, with its leading bit. -/
def Exact (f : Float) (q : ℚ) : Prop :=
  ∃ (m : Nat) (e : Int) (hm : 0 < m), f.toModel.unpack = .finite .positive m e hm ∧
    (m : ℚ) * 2 ^ e = q ∧ 2 ^ 52 ≤ m

/-- A number that is packed with its leading bit is exact. -/
theorem Exact.of_pack {f : Float} {M : Nat} {E : Int} (hcanonical : Canonical M E)
    (hlarge : 2 ^ 52 ≤ M) (hE : E ≤ 971)
    (h : f.toModel = .pack (.finite .positive M E hcanonical.pos)) : Exact f (M * 2 ^ E) := by
  refine ⟨M, E, hcanonical.pos, ?_, rfl, hlarge⟩
  rw [h]
  exact unpack_pack hcanonical hlarge hE

section Shifted

variable {n : Nat}

/-- A whole number that is shifted until its leading bit is in its place. -/
def withLeadingBit (n : Nat) : Nat := n <<< (52 - n.log2)

/-- A number that is shifted so has its leading bit, and not one more. -/
theorem withLeadingBit_bounds (hpos : 0 < n) (hn : n < 2 ^ 53) :
    2 ^ 52 ≤ withLeadingBit n ∧ withLeadingBit n < 2 ^ 53 := by
  have hlog := (Nat.log2_lt hpos.ne').mpr hn
  rw [withLeadingBit, Nat.shiftLeft_eq]
  constructor
  · calc 2 ^ 52 = 2 ^ n.log2 * 2 ^ (52 - n.log2) := by rw [← pow_add]; congr 1; omega
      _ ≤ n * 2 ^ (52 - n.log2) := Nat.mul_le_mul_right _ (Nat.log2_self_le hpos.ne')
  · calc n * 2 ^ (52 - n.log2) < 2 ^ (n.log2 + 1) * 2 ^ (52 - n.log2) :=
          Nat.mul_lt_mul_of_pos_right Nat.lt_log2_self (Nat.two_pow_pos _)
      _ = 2 ^ 53 := by rw [← pow_add]; congr 1; omega

/-- So it is a significand as it is stored. -/
theorem canonical_withLeadingBit (hpos : 0 < n) (hn : n < 2 ^ 53) {E : Int} (hE : -1074 ≤ E) :
    Canonical (withLeadingBit n) E := by
  obtain ⟨hlower, hupper⟩ := withLeadingBit_bounds hpos hn
  exact ⟨lt_of_lt_of_le (by decide) hlower, hupper, hE, .inl hlower⟩

theorem withLeadingBit_value (n : Nat) (e : Int) :
    (withLeadingBit n : ℚ) * 2 ^ (e - (52 - n.log2 : Nat)) = n * 2 ^ e := by
  rw [withLeadingBit, Nat.shiftLeft_eq, zpow_sub₀ two_ne_zero, zpow_natCast]
  push_cast
  field_simp

/-- The machine shifts a whole number until its leading bit is in its place. -/
theorem toModel_toFloat (hn : n < 2 ^ 53) {k : Nat} (hk : 52 - n.log2 = k)
    (hcanonical : Canonical (withLeadingBit n) (-k)) (hpos : 0 < n) :
    n.toUInt64.toFloat.toModel =
      .pack (.finite .positive (withLeadingBit n) (-k) hcanonical.pos) := by
  have hword : n.toUInt64.toNat = n := by
    rw [Nat.toUInt64, UInt64.toNat_ofNat']
    omega
  have hcompare : compare (n : Int) 0 = .gt := Int.compare_eq_gt.mpr (by omega)
  -- As many bits are missing as the machine shifts by.
  have htarget : (-Format.binary64.targetExponent (totalExponent n 0)).toNat = k := by
    have hlog := (Nat.log2_lt hpos.ne').mpr hn
    change (-target n 0).toNat = k
    rw [target_eq]
    omega
  have hshift : n <<< k = withLeadingBit n := by rw [← hk, withLeadingBit]
  have hround := roundWithAccuracy_of_canonical hcanonical .positive
  change Float.Model.pack
    (UnpackedFloat.normalize Format.binary64 (n.toUInt64.toNat : Int) 0 .positive) = _
  rw [hword, UnpackedFloat.normalize, hcompare]
  simp only [UnpackedFloat.round, decreaseExponent, Int.toNat_natCast, Int.zero_sub, htarget,
    hshift, hround]

end Shifted

/-- **A whole number** that fits a significand is exact. -/
theorem exact_toFloat {n : Nat} (hpos : 0 < n) (hn : n < 2 ^ 53) : Exact n.toUInt64.toFloat n := by
  generalize hk : 52 - n.log2 = k
  have hcanonical : Canonical (withLeadingBit n) (-k) :=
    canonical_withLeadingBit hpos hn (by omega)
  have hexact := Exact.of_pack hcanonical (withLeadingBit_bounds hpos hn).1 (by omega)
    (toModel_toFloat hn hk hcanonical hpos)
  -- Shifting changes the units, but not the value.
  have hvalue := withLeadingBit_value n 0
  rw [hk, zero_sub, zpow_zero, mul_one] at hvalue
  rwa [hvalue] at hexact

/-- The exponent of a power of ten: as many bits as there are factors of two stand behind the power
of five. -/
def powerExponent (k : Nat) : Int := k - (52 - (5 ^ k).log2 : Nat)

theorem eq_of_toBits_eq {a b : Float.Model} (h : a.toBits.toBitVec = b.toBits.toBitVec) :
    a = b := by
  obtain ⟨a, ha⟩ := a
  obtain ⟨b, hb⟩ := b
  obtain rfl : a = b := UInt64.toBitVec_inj.mp h
  rfl

/-- The table of the powers of ten, compared with the powers of five pattern by pattern. -/
theorem bits_powerOfTen : ∀ k : Fin 23,
    Float.exactlyRepresentablePowersOfTen[k].toModel.toBits.toBitVec =
      packComponents Format.binary64 .positive (BitVec.ofNat 11 (powerExponent k + 1075).toNat)
        (BitVec.ofNat 52 (withLeadingBit (5 ^ k.val))) := by
  decide +kernel

/-- **The powers of ten** that the machine keeps are exact. -/
theorem exact_powerOfTen {k : Nat} (hk : k < Float.exactlyRepresentablePowersOfTen.size) :
    Exact Float.exactlyRepresentablePowersOfTen[k] (10 ^ k) := by
  have hsize : k < 23 := hk
  have hpos : 0 < 5 ^ k := Nat.pow_pos (by decide)
  -- The largest power of five among them has a bit less than a significand.
  have hlt : 5 ^ k < 2 ^ 53 :=
    lt_of_le_of_lt (Nat.pow_le_pow_right (by decide) (Nat.le_of_lt_succ hk))
      (by decide : 5 ^ 22 < 2 ^ 53)
  have hlower := (withLeadingBit_bounds hpos hlt).1
  have hlog := (Nat.log2_lt hpos.ne').mpr hlt
  have hrange : -1074 ≤ powerExponent k ∧ powerExponent k ≤ 971 := by
    rw [powerExponent]
    omega
  have hcanonical := canonical_withLeadingBit hpos hlt hrange.1
  have hpack := pack_eq hcanonical hrange.2 .positive
  rw [if_pos hlower] at hpack
  have hexact := Exact.of_pack hcanonical hlower hrange.2
    (eq_of_toBits_eq ((bits_powerOfTen ⟨k, hsize⟩).trans hpack.symm))
  -- The factors of two of a power of ten are in the exponent, those of five in the significand.
  have hvalue : (withLeadingBit (5 ^ k) * 2 ^ powerExponent k : ℚ) = 10 ^ k := by
    rw [powerExponent, withLeadingBit_value, zpow_natCast]
    push_cast
    rw [← mul_pow]
    norm_num
  rwa [hvalue] at hexact

end Rounding

/-! ### Decimals -/

namespace Double

variable {x : Double}

/-- Whether a value lies in the interval of the numbers that are read as `x`. -/
def Covers (x : Double) (q : ℚ) : Prop := Rounding.Nearest x.significand x.scale (q / 2 ^ x.scale)

section Operations

variable {f g : Float} {p q : ℚ}

/-- The product of exact numbers is the number that covers the exact product. -/
theorem ofFloat_mul (hfinite : x.isFinite = true) (hzero : x.isZero = false)
    (hf : Rounding.Exact f p) (hg : Rounding.Exact g q) (h : x.Covers (p * q)) :
    ofFloat (f * g) = magnitude x := by
  obtain ⟨m₁, e₁, hm₁, hunpack₁, rfl, hlarge⟩ := hf
  obtain ⟨m₂, e₂, hm₂, hunpack₂, rfl, -⟩ := hg
  have hmul := Rounding.mul_eq (canonical hzero) hm₁ hm₂
    (hlarge.trans (Nat.le_mul_of_pos_right _ hm₂)) h
  change ofFloat (.ofModel (.pack (UnpackedFloat.mul _ f.toModel.unpack g.toModel.unpack))) = _
  rw [hunpack₁, hunpack₂, hmul]
  exact ofFloat_pack hfinite hzero _

/-- The quotient of exact numbers is the number that covers the exact quotient. -/
theorem ofFloat_div (hfinite : x.isFinite = true) (hzero : x.isZero = false)
    (hf : Rounding.Exact f p) (hg : Rounding.Exact g q) (h : x.Covers (p / q)) :
    ofFloat (f / g) = magnitude x := by
  obtain ⟨m₁, e₁, hm₁, hunpack₁, rfl, -⟩ := hf
  obtain ⟨m₂, e₂, hm₂, hunpack₂, rfl, -⟩ := hg
  have hdiv := Rounding.div_eq (canonical hzero) hm₁ hm₂ h
  change ofFloat (.ofModel (.pack (UnpackedFloat.div _ f.toModel.unpack g.toModel.unpack))) = _
  rw [hunpack₁, hunpack₂, hdiv]
  exact ofFloat_pack hfinite hzero _

end Operations

/-- Digits and a power of ten are rounded once. -/
theorem ofScientific_eq (hzero : x.isZero = false) {m : Nat} {k : Int} (hm : 0 < m)
    (hlow : -(2 ^ 11 + m.log2 : Int) ≤ k) (hhigh : k ≤ 2 ^ 11) (h : x.Covers (m * 10 ^ k)) :
    UnpackedFloat.ofScientific Format.binary64 m k =
      .finite .positive x.significand x.scale (canonical hzero).pos := by
  have htoo_large : ¬k > 2 ^ 11 := not_lt.mpr hhigh
  have htoo_small : ¬k < -((2 ^ 11 : Int) + m.log2) := not_lt.mpr hlow
  have hpow : ∀ n, 0 < 10 ^ n := fun n => Nat.pow_pos (by decide)
  rw [UnpackedFloat.ofScientific, dif_neg hm.ne', if_neg htoo_large, if_neg htoo_small]
  by_cases hk : 0 ≤ k
  · -- The digits are shifted first, so that the product has bits enough.
    obtain ⟨n, rfl⟩ := Int.eq_ofNat_of_zero_le hk
    have hshift : 0 < m <<< 53 := by
      rw [Nat.shiftLeft_eq]
      omega
    have hlarge : 2 ^ 52 ≤ m <<< 53 * 10 ^ n := by
      refine le_trans ?_ (Nat.le_mul_of_pos_right _ (hpow n))
      rw [Nat.shiftLeft_eq]
      omega
    rw [if_pos hk]
    refine Rounding.mul_eq (canonical hzero) hshift (hpow n) hlarge ?_
    have hvalue : ((m <<< 53 : Nat) * 2 ^ (-53 : Int) * ((10 ^ n : Nat) * 2 ^ (0 : Int)) : ℚ) =
        m * 10 ^ (n : Int) := by
      rw [Nat.shiftLeft_eq, zpow_natCast]
      push_cast
      norm_num
      ring
    change Rounding.Nearest _ _ (((m <<< 53 : Nat) * 2 ^ (-53 : Int) *
      ((10 ^ n : Nat) * 2 ^ (0 : Int)) : ℚ) / _)
    rw [hvalue]
    exact h
  · -- The machine shifts the dividend itself, so the digits are taken as they are.
    rw [if_neg hk]
    refine Rounding.div_eq (canonical hzero) hm (hpow _) ?_
    have hvalue : (m * 2 ^ (0 : Int) / ((10 ^ (-k).toNat : Nat) * 2 ^ (0 : Int)) : ℚ) =
        m * 10 ^ k := by
      generalize hn : (-k).toNat = n
      obtain rfl : k = -n := by omega
      rw [zpow_neg, zpow_natCast, zpow_zero, mul_one, mul_one]
      push_cast
      rw [div_eq_mul_inv]
    rw [hvalue]
    exact h

/-- **Digits and a power of ten** in the interval of a number are read as that number. -/
theorem ofFloat_ofScientific (hfinite : x.isFinite = true) (hzero : x.isZero = false) {m : Nat}
    {k : Int} (hm : 0 < m) (hlow : -(2 ^ 11 + m.log2 : Int) ≤ k) (hhigh : k ≤ 2 ^ 11)
    (h : x.Covers (m * 10 ^ k)) :
    ofFloat (OfScientific.ofScientific m (decide (k < 0)) k.natAbs) = magnitude x := by
  change ofFloat (Float.ofScientific m (decide (k < 0)) k.natAbs) = _
  rw [Float.ofScientific]
  split
  next hfast =>
    -- Both the digits and the power of ten are exact numbers.
    have hm := Rounding.exact_toFloat hm hfast.1
    have hpower := Rounding.exact_powerOfTen (k := k.natAbs) (Nat.lt_succ_of_le hfast.2)
    by_cases hk : k < 0
    · have hvalue : (m / 10 ^ k.natAbs : ℚ) = m * 10 ^ k := by
        generalize hn : k.natAbs = n
        obtain rfl : k = -n := by omega
        rw [zpow_neg, zpow_natCast, div_eq_mul_inv]
      simp only [hk, decide_true, if_true]
      exact ofFloat_div hfinite hzero hm hpower (hvalue ▸ h)
    · have hvalue : (m * 10 ^ k.natAbs : ℚ) = m * 10 ^ k := by
        generalize hn : k.natAbs = n
        obtain rfl : k = n := by omega
        rw [zpow_natCast]
      simp only [hk, decide_false, Bool.false_eq_true, if_false]
      exact ofFloat_mul hfinite hzero hm hpower (hvalue ▸ h)
  next =>
    -- The exponent is handed over without its sign, and is given it back.
    have hexponent : (if decide (k < 0) = true then Int.negOfNat k.natAbs
        else Int.ofNat k.natAbs) = k := by
      split
      next hk =>
        rw [decide_eq_true_iff] at hk
        rw [Int.negOfNat_eq, Int.ofNat_eq_natCast]
        omega
      next hk =>
        rw [decide_eq_true_iff] at hk
        rw [Int.ofNat_eq_natCast]
        omega
    simp only [hexponent]
    rw [Float.Model.ofScientific, ofScientific_eq hzero hm hlow hhigh h]
    exact ofFloat_pack hfinite hzero _

/-! ### The range of an interval -/

/-- What is read as a finite number is below the numbers that are too large. -/
theorem Covers.lt {q : ℚ} (h : x.Covers q) (hfinite : x.isFinite = true)
    (hzero : x.isZero = false) : q < 2 ^ (1024 : Int) := by
  have hunit : (0 : ℚ) < 2 ^ x.scale := zpow_pos two_pos _
  have hM : (x.significand : ℚ) + 1 ≤ 2 ^ 53 := by exact_mod_cast (canonical hzero).lt
  have hle := (div_le_iff₀ hunit).mp h.high
  calc q ≤ (x.significand + 1 / 2) * 2 ^ x.scale := hle
    _ < 2 ^ 53 * 2 ^ x.scale := mul_lt_mul_of_pos_right (by linarith) hunit
    _ = 2 ^ ((53 : Nat) + x.scale) := by rw [zpow_add₀ two_ne_zero, zpow_natCast]
    _ ≤ 2 ^ (1024 : Int) := zpow_le_zpow_right₀ one_le_two (by have := scale_le hfinite; omega)

/-- What is read as a number other than zero is above the numbers that are too small. -/
theorem Covers.le {q : ℚ} (h : x.Covers q) (hzero : x.isZero = false) :
    2 ^ (-1075 : Int) ≤ q := by
  have hunit : (0 : ℚ) < 2 ^ x.scale := zpow_pos two_pos _
  have hM : (1 : ℚ) ≤ x.significand := by exact_mod_cast (canonical hzero).pos
  have hle := (le_div_iff₀ hunit).mp h.half_le
  have hscale := (canonical hzero).le
  have hhalf : (2 : ℚ) ^ (-1075 : Int) = 1 / 2 * 2 ^ (-1074 : Int) := by
    rw [show (-1075 : Int) = -1 + -1074 by decide, zpow_add₀ two_ne_zero, zpow_neg_one, one_div]
  calc (2 : ℚ) ^ (-1075 : Int) = 1 / 2 * 2 ^ (-1074 : Int) := hhalf
    _ ≤ (x.significand - 1 / 2) * 2 ^ x.scale := by
      refine mul_le_mul (by linarith) (zpow_le_zpow_right₀ one_le_two hscale) ?_ (by linarith)
      exact (zpow_pos two_pos _).le
    _ ≤ q := hle

end Double

namespace Decimal

/-- The number that a decimal stands for. -/
def value (d : Decimal) : ℚ := d.digits * 10 ^ d.exponent

/-- The size of a decimal, as far as it is told by the place of its leading digit. -/
theorem value_bounds {d : Decimal} (hd : d.digits ≠ 0) :
    (10 : ℚ) ^ (d.exponent + Double.digitCount d.digits - 1) ≤ d.value ∧
      d.value < 10 ^ (d.exponent + Double.digitCount d.digits) := by
  have hcount : 0 < Double.digitCount d.digits := Nat.length_toDigits_pos
  have hpow : (0 : ℚ) < 10 ^ d.exponent := zpow_pos (by norm_num) _
  have hlow : (10 : ℚ) ^ (Double.digitCount d.digits - 1) ≤ d.digits := by
    exact_mod_cast Double.powerOfTen_digitCount_le hd
  have hhigh : (d.digits : ℚ) < 10 ^ Double.digitCount d.digits := by
    exact_mod_cast Double.lt_powerOfTen_digitCount d.digits
  have hten : (10 : ℚ) ≠ 0 := by norm_num
  rw [value]
  constructor
  · have hexponent : d.exponent + Double.digitCount d.digits - 1 =
        (Double.digitCount d.digits - 1 : Nat) + d.exponent := by omega
    rw [hexponent, zpow_add₀ hten, zpow_natCast]
    exact mul_le_mul_of_nonneg_right hlow hpow.le
  · rw [Int.add_comm, zpow_add₀ hten, zpow_natCast]
    exact mul_lt_mul_of_pos_right hhigh hpow

variable {x : Double} {d : Decimal}

/-- The leading digit of a decimal that is read as a number keeps away from both ends of the range.
-/
theorem size_bounds (hfinite : x.isFinite = true) (hzero : x.isZero = false) (hd : d.digits ≠ 0)
    (h : x.Covers d.value) : -330 ≤ d.exponent + Double.digitCount d.digits ∧
      d.exponent + Double.digitCount d.digits ≤ 310 := by
  obtain ⟨hlow, hhigh⟩ := value_bounds hd
  generalize d.exponent + Double.digitCount d.digits = size at *
  have hten : (1 : ℚ) < 10 := by norm_num
  constructor
  · -- A decimal with so small a leading digit lies below half of the smallest number.
    by_contra hsmall
    have hpow : (10 : ℚ) ^ size ≤ 10 ^ (-331 : Int) := zpow_le_zpow_right₀ hten.le (by omega)
    have hrange : (10 : ℚ) ^ (-331 : Int) < 2 ^ (-1075 : Int) := by
      rw [zpow_neg, zpow_neg]
      refine inv_strictAnti₀ (zpow_pos two_pos _) ?_
      exact_mod_cast (by decide +kernel : 2 ^ 1075 < 10 ^ 331)
    exact lt_asymm (hhigh.trans_le hpow) (hrange.trans_le (h.le hzero))
  · -- And one with so large a leading digit lies above all finite ones.
    by_contra hlarge
    have hpow : (10 : ℚ) ^ (310 : Int) ≤ 10 ^ (size - 1) := zpow_le_zpow_right₀ hten.le (by omega)
    have hrange : (2 : ℚ) ^ (1024 : Int) < 10 ^ (310 : Int) := by
      exact_mod_cast (by decide +kernel : 2 ^ 1024 < 10 ^ 310)
    exact lt_asymm (h.lt hfinite hzero) (hrange.trans_le (hpow.trans hlow))

theorem digitCount_le_log2 {n : Nat} (hn : n ≠ 0) : Double.digitCount n ≤ n.log2 + 1 := by
  have hpow : 2 ^ (Double.digitCount n - 1) ≤ n :=
    le_trans (Nat.pow_le_pow_left (by decide) _) (Double.powerOfTen_digitCount_le hn)
  have hlog := (Nat.le_log2 hn).mpr hpow
  omega

/-- **A decimal** in the interval of a number is read as that number, without its sign. -/
theorem nearest_eq (hfinite : x.isFinite = true) (hzero : x.isZero = false) (hd : d.digits ≠ 0)
    (h : x.Covers d.value) : d.nearest = magnitude x := by
  obtain ⟨hlow, hhigh⟩ := size_bounds hfinite hzero hd h
  have hcount : 0 < Double.digitCount d.digits := Nat.length_toDigits_pos
  have hlog := digitCount_le_log2 hd
  rw [nearest, if_neg hd]
  simp only [if_neg hlow.not_gt, if_neg hhigh.not_gt]
  -- However many digits there are, the exponent is in the range that the machine rounds in.
  exact Double.ofFloat_ofScientific hfinite hzero (Nat.pos_of_ne_zero hd) (by omega) (by omega) h

/-! ### Signs -/

/-- A decimal without digits other than zero is read as zero. -/
theorem nearest_of_digits_eq_zero (h : d.digits = 0) : d.nearest = ⟨0⟩ := by
  rw [nearest, if_pos h]

end Decimal

namespace Double

/-- The sign bit is set or clear. -/
theorem and_signBit (b : UInt64) : b &&& signBit = 0 ∨ b &&& signBit = signBit := by
  -- The mask is a power of two, so a single bit decides.
  have hbit : signBit.toBitVec = BitVec.twoPow 64 63 := by decide
  rcases hb : b.toBitVec.getLsbD 63 with _ | _
  · refine .inl (UInt64.toBitVec_inj.mp ?_)
    rw [UInt64.toBitVec_and, hbit, BitVec.and_twoPow, hb]
    rfl
  · refine .inr (UInt64.toBitVec_inj.mp ?_)
    rw [UInt64.toBitVec_and, hbit, BitVec.and_twoPow, hb]
    rfl

/-- A bit that is taken off and put on again. -/
theorem and_complement_xor {b s : UInt64} (h : b &&& s = s) : (b &&& ~~~s) ^^^ s = b := by
  apply UInt64.toBitVec_inj.mp
  have h := congrArg UInt64.toBitVec h
  rw [UInt64.toBitVec_and] at h
  rw [UInt64.toBitVec_xor, UInt64.toBitVec_and, UInt64.toBitVec_not]
  ext i hi
  have hi := congrArg (·[i]) h
  simp only [BitVec.getElem_and, BitVec.getElem_xor, BitVec.getElem_not] at hi ⊢
  revert hi
  cases b.toBitVec[i] <;> cases s.toBitVec[i] <;> decide

/-- Taking off a bit that is not there changes nothing. -/
theorem and_complement {b s : UInt64} (h : b &&& s = 0) : b &&& ~~~s = b := by
  apply UInt64.toBitVec_inj.mp
  have h := congrArg UInt64.toBitVec h
  rw [UInt64.toBitVec_and] at h
  rw [UInt64.toBitVec_and, UInt64.toBitVec_not]
  ext i hi
  have hi := congrArg (·[i]) h
  simp only [BitVec.getElem_and, BitVec.getElem_not, UInt64.toBitVec_ofNat,
    BitVec.getElem_zero] at hi ⊢
  revert hi
  cases b.toBitVec[i] <;> cases s.toBitVec[i] <;> decide

/-- A pattern is its sign and the pattern without it. -/
theorem signed_magnitude (x : Double) :
    (if x.isNegative then -(magnitude x) else magnitude x) = x := by
  have hmask : (0x7fffffffffffffff : UInt64) = ~~~signBit := by decide
  have hmagnitude : magnitude x = ⟨x.bits &&& ~~~signBit⟩ := by rw [← hmask]; rfl
  rw [hmagnitude]
  rcases and_signBit x.bits with hclear | hset
  · have hnegative : x.isNegative = false := by simp [isNegative, hclear]
    rw [hnegative, if_neg (by decide), and_complement hclear]
  · have hnegative : x.isNegative = true := by
      rw [isNegative, hset]
      decide
    rw [hnegative, if_pos rfl]
    change negate _ = x
    rw [negate, and_complement_xor hset]

/-- Either zero is zero without its sign. -/
theorem magnitude_of_isZero {x : Double} (hzero : x.isZero = true) : magnitude x = ⟨0⟩ := by
  rw [isZero, beq_iff_eq] at hzero
  exact congrArg Double.mk (UInt64.toNat_inj.mp hzero)

/-- **A decimal with a sign** in the interval of a number is read as that number. -/
theorem toDouble_eq {x : Double} {d : Decimal} (hfinite : x.isFinite = true)
    (hzero : x.isZero = false) (hd : d.digits ≠ 0) (h : x.Covers d.value) :
    d.toDouble x.isNegative = x := by
  rw [Decimal.toDouble, d.nearest_eq hfinite hzero hd h]
  exact x.signed_magnitude

theorem toDouble_of_isZero {x : Double} {d : Decimal} (hzero : x.isZero = true)
    (hd : d.digits = 0) : d.toDouble x.isNegative = x := by
  rw [Decimal.toDouble, Decimal.nearest_of_digits_eq_zero hd, ← magnitude_of_isZero hzero]
  exact x.signed_magnitude

end Double

end PinnedBench
