import Mathlib
import PinnedBench.Double
import PinnedBench.Stats.Comparison

/-!
# Medians in range

The median of finite samples is finite (`Statistics.isFinite_median`), also where two middle samples
are so large that their sum is out of range: their halves are added. So a sample set that is
compared with itself differs from itself by zero, where infinities would leave no number
(`Comparison.delta_self`).

The bound is carried through the machine's arithmetic as it is specified: numbers are a significand
and an exponent, and an operation rounds to the nearest pair that can be stored. A `Within` bound is
itself a pair of that kind, so rounding does not leave it (`bounded_roundWithAccuracy`).
-/

namespace PinnedBench

open Float.Model Float.Model.UnpackedFloat

namespace Rounding

/-! ### Magnitudes -/

/-- Whether `m · 2 ^ e` is at most the largest significand times `2 ^ limit`. -/
structure Within (limit : Int) (m : Nat) (e : Int) : Prop where
  /-- The unit is not larger than that of the limit. -/
  exponent_le : e ≤ limit
  /-- The size in units is. -/
  le : m ≤ (2 ^ 53 - 1) * 2 ^ (limit - e).toNat

/-- A whole number that is within the limit has no bit above it. -/
theorem Within.log2_le {limit e : Int} {m : Nat} (h : Within limit m e) :
    (m.log2 : Int) + e ≤ limit + 52 := by
  obtain ⟨hexponent, hle⟩ := h
  rcases Nat.eq_zero_or_pos m with rfl | hm
  · simp
    omega
  · have hlt : m < 2 ^ (53 + (limit - e).toNat) := by
      rw [pow_add]
      exact lt_of_le_of_lt hle (Nat.mul_lt_mul_of_pos_right (by norm_num) (Nat.two_pow_pos _))
    have := (Nat.log2_lt hm.ne').mpr hlt
    omega

theorem Within.mono {limit e : Int} {m m' : Nat} (h : Within limit m' e) (hle : m ≤ m') :
    Within limit m e :=
  ⟨h.exponent_le, hle.trans h.le⟩

/-- What is within a limit is within a larger one. -/
theorem Within.weaken {limit limit' e : Int} {m : Nat} (h : Within limit m e)
    (hle : limit ≤ limit') : Within limit' m e := by
  refine ⟨h.exponent_le.trans hle, h.le.trans (Nat.mul_le_mul_left _ ?_)⟩
  exact Nat.pow_le_pow_right (by decide) (by omega)

/-- What is within a limit stays so in smaller units. -/
theorem Within.shiftLeft {limit e : Int} {m : Nat} (h : Within limit m e) (n : Nat) :
    Within limit (m <<< n) (e - n) := by
  obtain ⟨hexponent, hle⟩ := h
  refine ⟨by omega, ?_⟩
  have hunits : (limit - (e - n)).toNat = (limit - e).toNat + n := by omega
  rw [Nat.shiftLeft_eq, hunits, pow_add, ← Nat.mul_assoc]
  exact Nat.mul_le_mul_right _ hle

/-! ### Rounding -/

/-- A mantissa rounded up. -/
def ceiling (em : ExtendedMantissa) : Nat := em.mantissa + (em.roundBit || em.stickyBit).toNat

/-- Rounding to the nearest does not go above rounding up. -/
theorem roundedMantissa_le (em : ExtendedMantissa) : em.roundedMantissa ≤ ceiling em := by
  obtain ⟨m, r, s⟩ := em
  -- The cases are those of the bits that were cut off; only in the middle does the mantissa itself
  -- decide.
  cases r <;> cases s <;>
    simp [ExtendedMantissa.roundedMantissa, ExtendedMantissa.accuracy, ceiling,
      Accuracy.roundToNearestEven]
  omega

theorem ceiling_shiftRightOne {em : ExtendedMantissa} {c : Nat} (h : ceiling em ≤ c * 2) :
    ceiling em.shiftRightOne ≤ c := by
  obtain ⟨m, r, s⟩ := em
  rcases Nat.mod_two_eq_zero_or_one m with hm | hm <;> cases r <;> cases s <;>
    simp [ceiling, ExtendedMantissa.shiftRightOne, hm] at h ⊢ <;> omega

/-- **Shifting** does not take a mantissa above a bound that is shifted with it. -/
theorem ceiling_shiftRight {em : ExtendedMantissa} {c : Nat} (n : Nat)
    (h : ceiling em ≤ c * 2 ^ n) : ceiling (em >>> n) ≤ c := by
  induction n generalizing c with
  | zero =>
    change ceiling em ≤ c
    simpa using h
  | succ n ih =>
    have hunits : c * 2 ^ (n + 1) = c * 2 * 2 ^ n := by ring
    exact ceiling_shiftRightOne (ih (hunits ▸ h))

/-- The exponent that is aimed at leaves 53 bits, unless it would be too small. -/
theorem targetExponent_binary64 (t : Int) :
    Format.binary64.targetExponent t = max (t - 53) (-1074) := rfl

/-- The target of a mantissa that is within a limit is within it. -/
theorem targetExponent_le {limit e : Int} {m : Nat} (hlimit : -1074 ≤ limit)
    (h : Within limit m e) : Format.binary64.targetExponent (totalExponent m e) ≤ limit := by
  have := h.log2_le
  rw [targetExponent_binary64, totalExponent]
  omega

/-- A mantissa is at most what it is rounded up to. -/
theorem le_ceiling_ofMantissaAndAccuracy (m : Nat) (a : Accuracy) :
    m ≤ ceiling (.ofMantissaAndAccuracy m a) := by
  cases a with
  | exact => simp [ExtendedMantissa.ofMantissaAndAccuracy, ceiling]
  | inexact o => cases o <;> simp [ExtendedMantissa.ofMantissaAndAccuracy, ceiling]

/-- The first step of rounding stays within a limit. -/
theorem within_shiftToTargetExponent {limit e : Int} {m : Nat} {a : Accuracy}
    (hlimit : -1074 ≤ limit) (h : Within limit (ceiling (.ofMantissaAndAccuracy m a)) e) :
    Within limit (ceiling (shiftToTargetExponent Format.binary64 m e a).1)
      (shiftToTargetExponent Format.binary64 m e a).2 := by
  have htarget := targetExponent_le hlimit (h.mono (le_ceiling_ofMantissaAndAccuracy m a))
  obtain ⟨hexponent, hle⟩ := h
  generalize hn : (Format.binary64.targetExponent (totalExponent m e) - e).toNat = n
  have heq : shiftToTargetExponent Format.binary64 m e a =
      (ExtendedMantissa.ofMantissaAndAccuracy m a >>> n, e + n) := by
    rw [shiftToTargetExponent, shiftToExponent, hn]
  -- As many bits as are shifted out of the mantissa are taken off the units of the limit.
  have hunits : (limit - e).toNat = (limit - (e + n)).toNat + n := by omega
  rw [heq]
  refine ⟨by omega, ceiling_shiftRight n ?_⟩
  rwa [hunits, pow_add, ← Nat.mul_assoc] at hle

/-! ### Numbers that are bounded -/

/-- Whether a number is finite and its magnitude within a limit. -/
def Bounded (limit : Int) : UnpackedFloat → Prop
  | .zero _ => True
  | .finite _ m e _ => Within limit m e
  | .infinity _ => False
  | .notANumber => False

/-- A bound may be made larger. -/
theorem Bounded.mono {limit limit' : Int} {u : UnpackedFloat} (h : Bounded limit u)
    (hle : limit ≤ limit') : Bounded limit' u := by
  cases u with
  | zero s => trivial
  | finite s m e hm => exact h.weaken hle
  | infinity s => exact h
  | notANumber => exact h

/-- **Rounding** stays within a limit, since the limit is a number itself. -/
theorem bounded_roundWithAccuracy {limit e : Int} {m : Nat} {a : Accuracy}
    (hlimit : -1074 ≤ limit) (h : Within limit (ceiling (.ofMantissaAndAccuracy m a)) e)
    (s : Sign) : Bounded limit (roundWithAccuracy Format.binary64 s m e a) := by
  have hfirst := within_shiftToTargetExponent hlimit h
  generalize hem₁ : shiftToTargetExponent Format.binary64 m e a = first at hfirst
  obtain ⟨em₁, e₁⟩ := first
  have hrounded : Within limit
      (ceiling (.ofMantissaAndAccuracy em₁.roundedMantissa .exact)) e₁ :=
    hfirst.mono (roundedMantissa_le em₁)
  -- Rounding up may have brought in another bit, which is shifted out again.
  have hsecond := within_shiftToTargetExponent hlimit hrounded
  generalize hem₂ : shiftToTargetExponent Format.binary64 em₁.roundedMantissa e₁ .exact = second
    at hsecond
  obtain ⟨em₂, e₂⟩ := second
  simp only [roundWithAccuracy, hem₁, hem₂]
  split
  · trivial
  · exact hsecond.mono (Nat.le_add_right _ _)

/-- Rounding a mantissa without further bits stays within a limit. -/
theorem bounded_round {limit e : Int} {m : Nat} (hlimit : -1074 ≤ limit) (h : Within limit m e)
    (s : Sign) : Bounded limit (UnpackedFloat.round Format.binary64 s m e) := by
  rw [UnpackedFloat.round]
  exact bounded_roundWithAccuracy hlimit (h.shiftLeft _) s

/-- Rounding a whole number with a sign stays within a limit. -/
theorem bounded_normalize {limit e : Int} {n : Int} (hlimit : -1074 ≤ limit)
    (h : Within limit n.natAbs e) (s : Sign) :
    Bounded limit (UnpackedFloat.normalize Format.binary64 n e s) := by
  rw [UnpackedFloat.normalize]
  -- The sign is taken off and put back; zero is within any limit.
  split
  next hneg =>
    have hsize : (-n).toNat = n.natAbs := by
      have := Int.compare_eq_lt.mp hneg
      omega
    rw [hsize]
    exact bounded_round hlimit h _
  next => trivial
  next hpos =>
    have hsize : n.toNat = n.natAbs := by
      have := Int.compare_eq_gt.mp hpos
      omega
    rw [hsize]
    exact bounded_round hlimit h _

theorem natAbs_apply (s : Sign) (m : Nat) : (s.apply m).natAbs = m := by
  cases s <;> simp [Sign.apply]

/-- **A sum** is within twice the limit of its terms. -/
theorem bounded_add {limit : Int} {u v : UnpackedFloat} (hlimit : -1074 ≤ limit)
    (hu : Bounded limit u) (hv : Bounded limit v) :
    Bounded (limit + 1) (UnpackedFloat.add Format.binary64 u v) := by
  have hle : limit ≤ limit + 1 := by omega
  match u, v with
  | .zero s, .zero s' =>
    rw [UnpackedFloat.add]
    split <;> trivial
  | .zero s, .finite s' m e hm => exact hv.mono hle
  | .finite s m e hm, .zero s' => exact hu.mono hle
  | .finite s₁ m₁ e₁ _, .finite s₂ m₂ e₂ _ =>
    -- Both terms are brought to the smaller unit.
    have h₁ := Within.shiftLeft hu (e₁ - min e₁ e₂).toNat
    have h₂ := Within.shiftLeft hv (e₂ - min e₁ e₂).toNat
    have hunit₁ : e₁ - (e₁ - min e₁ e₂).toNat = min e₁ e₂ := by omega
    have hunit₂ : e₂ - (e₂ - min e₁ e₂).toNat = min e₁ e₂ := by omega
    rw [hunit₁] at h₁
    rw [hunit₂] at h₂
    have hexponent := h₁.exponent_le
    have hunits : (limit + 1 - min e₁ e₂).toNat = (limit - min e₁ e₂).toNat + 1 := by omega
    refine bounded_normalize (by omega) ⟨by omega, ?_⟩ _
    refine (Int.natAbs_add_le _ _).trans ?_
    rw [natAbs_apply, natAbs_apply, hunits]
    calc m₁ <<< (e₁ - min e₁ e₂).toNat + m₂ <<< (e₂ - min e₁ e₂).toNat
        ≤ (2 ^ 53 - 1) * 2 ^ (limit - min e₁ e₂).toNat +
          (2 ^ 53 - 1) * 2 ^ (limit - min e₁ e₂).toNat := Nat.add_le_add h₁.le h₂.le
      _ = (2 ^ 53 - 1) * 2 ^ ((limit - min e₁ e₂).toNat + 1) := by ring

/-- The number two. -/
def two : UnpackedFloat := .finite .positive (2 ^ 52) (-51) (by decide)

/-- A quotient that is rounded up is at most a bound if the dividend is at most that many divisors.
-/
theorem ceiling_quotient_le {n d c : Nat} (h : n ≤ c * d) :
    ceiling (.ofMantissaAndAccuracy (n / d) (accuracyOfFraction (n % d) d)) ≤ c := by
  have hquotient : n / d ≤ c := Nat.div_le_of_le_mul (by rwa [Nat.mul_comm])
  rw [accuracyOfFraction]
  split
  next hexact => simpa [ExtendedMantissa.ofMantissaAndAccuracy, ceiling] using hquotient
  next hrest =>
    -- With a rest, the quotient is below the bound.
    have hlt : n / d < c := by
      refine lt_of_le_of_ne hquotient fun heq => hrest ?_
      have hdiv := Nat.div_add_mod n d
      rw [heq, Nat.mul_comm] at hdiv
      omega
    have hnext : n / d + 1 ≤ c := hlt
    cases compare (2 * (n % d)) d <;>
      simpa [ExtendedMantissa.ofMantissaAndAccuracy, ceiling] using hnext

/-- **A half** is within half the limit. -/
theorem bounded_half {limit : Int} {u : UnpackedFloat} (hlimit : -1074 ≤ limit)
    (hu : Bounded (limit + 1) u) : Bounded limit (UnpackedFloat.div Format.binary64 u two) := by
  match u with
  | .zero s => trivial
  | .finite s m e hm =>
    -- A number within `limit + 1` has its leading bit at most there, one place above that of the
    -- quotient.
    have hlog := Within.log2_le hu
    obtain ⟨hexponent, hle⟩ := hu
    rw [two, UnpackedFloat.div, divCore]
    have htotal : totalExponent (2 ^ 52) (-51) = 2 := by decide
    -- The quotient is computed in units that are small enough for all of its digits.
    generalize ht : min (e - -51) (Format.binary64.targetExponent
      (totalExponent m e - totalExponent (2 ^ 52) (-51))) = t
    have htarget : t ≤ limit := by
      rw [← ht, htotal, targetExponent_binary64, totalExponent]
      omega
    refine bounded_roundWithAccuracy hlimit ⟨htarget, ceiling_quotient_le ?_⟩ _
    have hunits : (limit + 1 - e).toNat + (e - -51 - t).toNat = (limit - t).toNat + 52 := by
      omega
    calc m <<< (e - -51 - t).toNat
        = m * 2 ^ (e - -51 - t).toNat := Nat.shiftLeft_eq _ _
      _ ≤ (2 ^ 53 - 1) * 2 ^ (limit + 1 - e).toNat * 2 ^ (e - -51 - t).toNat :=
        Nat.mul_le_mul_right _ hle
      _ = (2 ^ 53 - 1) * 2 ^ (limit - t).toNat * 2 ^ 52 := by
        rw [Nat.mul_assoc, ← pow_add, hunits, pow_add, ← Nat.mul_assoc]

/-! ### Stored numbers -/

/-- A significand with an exponent up to the limit is within it. -/
theorem within_of_lt {limit e : Int} {m : Nat} (hm : m < 2 ^ 53) (he : e ≤ limit) :
    Within limit m e :=
  ⟨he, (Nat.le_sub_one_of_lt hm).trans (Nat.le_mul_of_pos_right _ (Nat.two_pow_pos _))⟩

/-- A number whose stored exponent is within a limit is bounded by it. -/
theorem bounded_unpack {limit : Int} {b : BitVec Format.binary64.numBits} (hlimit : -1074 ≤ limit)
    (htop : limit ≤ 971) (h : ((unpackExponent b).toNat : Int) ≤ limit + 1075) :
    Bounded limit (UnpackedFloat.unpack Format.binary64 b) := by
  have hones : unpackExponent b ≠ -1#_ := by
    intro heq
    rw [heq] at h
    have hall : ((2047 : Nat) : Int) ≤ limit + 1075 := h
    omega
  have hbias : (Format.binary64.exponentBias : Int) = 1023 := by decide
  rw [UnpackedFloat.unpack]
  simp only [hones, if_false, hbias]
  split
  next hzero =>
    split
    · trivial
    · -- A number without its leading bit has the smallest unit.
      rw [hzero]
      refine within_of_lt ((unpackMantissa b).isLt.trans (by decide)) ?_
      simpa using hlimit
  next =>
    refine within_of_lt (1#1 ++ unpackMantissa b).isLt ?_
    simp only [Nat.cast_ofNat]
    omega

/-- The stored exponent of a bounded number is within the limit. -/
theorem exponent_pack_le {limit : Int} {u : UnpackedFloat} (hlimit : -1074 ≤ limit)
    (htop : limit ≤ 971) (hu : Bounded limit u) :
    ((unpackExponent (UnpackedFloat.pack Format.binary64 u)).toNat : Int) ≤ limit + 1075 := by
  have hzero : ((0#11).toNat : Int) ≤ limit + 1075 := by
    simp only [BitVec.toNat_zero, Nat.cast_zero]
    omega
  match u with
  | .zero s =>
    rw [UnpackedFloat.pack, packedZero, unpackExponent_packComponents]
    exact hzero
  | .finite s m e hm =>
    have hexponent := hu.exponent_le
    have hbias : (Format.binary64.exponentBias : Int) = 1023 := by decide
    -- The exponent is too small to be taken for infinity, and has room for its bits.
    have hbits : ((e + 1023 + 52).toNat : Int) ≤ limit + 1075 := by omega
    have hsmall : ¬2 ^ 11 ≤ (e + 1023 + 52).toNat + 1 := by omega
    rw [UnpackedFloat.pack]
    simp only [hbias, Nat.cast_ofNat, if_neg hsmall]
    split
    · rw [unpackExponent_packComponents, BitVec.toNat_ofNat, Nat.mod_eq_of_lt (by omega)]
      exact hbits
    · rw [unpackExponent_packComponents]
      exact hzero

end Rounding

namespace Double

open Rounding

/-- The exponent is the one that the machine unpacks. -/
theorem exponentField_eq (x : Double) :
    x.exponentField = (@unpackExponent Format.binary64 x.bits.toBitVec).toNat := by
  have hunsigned : x.unsigned = x.bits.toNat % 2 ^ 63 := by
    rw [unsigned, UInt64.toNat_and]
    exact Nat.and_two_pow_sub_one_eq_mod _ 63
  have hmod : x.bits.toNat % 2 ^ 63 / 2 ^ 52 = x.bits.toNat / 2 ^ 52 % 2 ^ 11 :=
    Nat.mod_mul_right_div_self x.bits.toNat (2 ^ 52) (2 ^ 11)
  have hextract : (@unpackExponent Format.binary64 x.bits.toBitVec).toNat =
      x.bits.toNat >>> 52 % 2 ^ 11 := by
    simp [unpackExponent]
  rw [exponentField, hunsigned, hextract, Nat.shiftRight_eq_div_pow, ← hmod]
  rfl

/-- A pattern is finite exactly if its exponent leaves it below the end of the range. -/
theorem isFinite_iff {x : Double} : x.isFinite = true ↔ (x.exponentField : Int) ≤ 971 + 1075 := by
  rw [isFinite, decide_eq_true_iff]
  omega

theorem bounded_toFloat {limit : Int} {x : Double} (hlimit : -1074 ≤ limit) (htop : limit ≤ 971)
    (hx : (x.exponentField : Int) ≤ limit + 1075) : Bounded limit x.toFloat.toModel.unpack := by
  rw [exponentField_eq] at hx
  refine bounded_unpack hlimit htop ?_
  exact exponent_pack_le hlimit htop (bounded_unpack hlimit htop hx)

theorem exponentField_ofFloat_le {limit : Int} {u : UnpackedFloat} (hlimit : -1074 ≤ limit)
    (htop : limit ≤ 971) (hu : Bounded limit u) :
    ((ofFloat (.ofModel (.pack u))).exponentField : Int) ≤ limit + 1075 := by
  rw [exponentField_eq]
  exact exponent_pack_le hlimit htop hu

/-- **The half** of a finite number is below half the range. -/
theorem exponentField_half_le {x : Double} (hx : x.isFinite = true) :
    ((x / ((2 : Nat) : Double)).exponentField : Int) ≤ 970 + 1075 := by
  -- The divisor is the number two for the machine.
  have htwo : ((2 : Nat) : Double).toFloat.toModel.unpack = two := by
    have hbits : ((2 : Nat) : Double) = ⟨0x4000000000000000⟩ := rfl
    rw [hbits]
    rfl
  have hbounded : Bounded (970 + 1) x.toFloat.toModel.unpack :=
    bounded_toFloat (by decide) (by decide) (isFinite_iff.mp hx)
  have hhalf := bounded_half (by decide) hbounded
  rw [← htwo] at hhalf
  exact exponentField_ofFloat_le (by decide) (by decide) hhalf

/-- **The sum** of two numbers below half the range is finite. -/
theorem isFinite_add {x y : Double} (hx : (x.exponentField : Int) ≤ 970 + 1075)
    (hy : (y.exponentField : Int) ≤ 970 + 1075) : (x + y).isFinite = true := by
  -- Each term is below half the range, so the sum is below its end.
  have hsum := bounded_add (by decide) (bounded_toFloat (by decide) (by decide) hx)
    (bounded_toFloat (by decide) (by decide) hy)
  exact isFinite_iff.mpr (exponentField_ofFloat_le (by decide) (by decide) hsum)

end Double

/-! ### Medians -/

theorem isFinite_zero : ((0 : Nat) : Double).isFinite = true := by decide +kernel

/-- The sample at a position is finite, and so is the zero that stands for a missing one. -/
theorem isFinite_sampleAt {sorted : List Double} (h : ∀ x ∈ sorted, x.isFinite = true) (i : Nat) :
    (sampleAt sorted i).isFinite = true := by
  rw [sampleAt, List.getD_eq_getElem?_getD]
  cases hi : sorted[i]? with
  | none => exact isFinite_zero
  | some x => exact h x (List.mem_of_getElem? hi)

/-- The median of a sorted copy is finite. -/
theorem isFinite_sortedMedian {sorted : List Double} (h : ∀ x ∈ sorted, x.isFinite = true) :
    (sortedMedian sorted).isFinite = true := by
  rw [sortedMedian]
  -- Two halves, each below half the range, or one sample.
  split
  · exact Double.isFinite_add (Double.exponentField_half_le (isFinite_sampleAt h _))
      (Double.exponentField_half_le (isFinite_sampleAt h _))
  · exact isFinite_sampleAt h _

/-- **The median** of finite samples is finite. -/
theorem Statistics.isFinite_median {samples : List Double} (h : ∀ x ∈ samples, x.isFinite = true) :
    (Statistics.of samples).median.isFinite = true := by
  rw [Statistics.of]
  split
  · exact isFinite_zero
  · exact isFinite_sortedMedian fun x hx => h x (List.mem_mergeSort.mp hx)

end PinnedBench
