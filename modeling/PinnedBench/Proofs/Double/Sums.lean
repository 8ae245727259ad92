import Mathlib
import PinnedBench.Proofs.Double.Rounding
import PinnedBench.Proofs.Double.Values

/-!
# Sums of stored numbers

What the machine rounds comes to the nearest number that can be stored
(`Rounding.numberOf_roundWithAccuracy`). A sum is rounded once, also where the terms cancel
(`Rounding.numberOf_add`), and a difference is the sum with the opposite number
(`Rounding.difference_eq`). A result that is in range keeps its number when it is stored
(`Double.value_ofFloat_pack`).
-/

namespace PinnedBench

open Float.Model Float.Model.UnpackedFloat

namespace Rounding

/-! ### Whole numbers -/

section Whole

variable {em : ExtendedMantissa} {v : ℚ} {N : Nat}

/-- Rounding does not take what is left of a value above a whole number. -/
theorem Represents.rounded_le (h : Represents em v) (hN : v ≤ N) :
    em.roundedMantissa ≤ N := by
  have hle := roundedMantissa_le em
  obtain ⟨m, r, s⟩ := em
  have hbound : ceiling ⟨m, r, s⟩ ≤ N := by
    -- Without further bits the value is the mantissa; with them it is above it, and the bound is
    -- the next one.
    cases r <;> cases s <;> simp only [Represents, ceiling] at h ⊢ <;> simp
    · exact_mod_cast h ▸ hN
    all_goals
      have hlt : (m : ℚ) < N := by linarith
      exact_mod_cast hlt
  exact hle.trans hbound

/-- Rounding does not take what is left of a value below a whole number. -/
theorem Represents.le_rounded (h : Represents em v) (hN : (N : ℚ) ≤ v) :
    N ≤ em.roundedMantissa := by
  have hlt : (N : ℚ) < em.mantissa + 1 := hN.trans_lt h.bounds.2
  have hle : N ≤ em.mantissa := by
    norm_cast at hlt
    omega
  refine hle.trans ?_
  obtain ⟨m, r, s⟩ := em
  -- Rounding may only add one.
  cases r <;> cases s <;>
    simp [ExtendedMantissa.roundedMantissa, ExtendedMantissa.accuracy,
      Accuracy.roundToNearestEven]

/-- **What is left of a value** is rounded to the nearest whole number, in the middle to the even
one. -/
theorem Represents.roundedMantissa_eq_nearestWhole (h : Represents em v) :
    (em.roundedMantissa : Int) = nearestWhole v := by
  obtain ⟨m, r, s⟩ := em
  -- The first bit that was cut off and whether there are more tell where the value is: exactly on
  -- the mantissa, below the middle, in it or above it.
  cases r <;> cases s <;>
    simp only [Represents, ExtendedMantissa.roundedMantissa, ExtendedMantissa.accuracy,
      Accuracy.roundToNearestEven] at h ⊢
  · rw [h]
    exact (nearestWhole_intCast m).symm
  · refine (nearestWhole_of_abs_lt (n := m) (abs_lt.mpr ?_)).symm
    push_cast
    constructor <;> linarith
  · rw [h]
    have hmiddle := nearestWhole_middle m
    push_cast at hmiddle ⊢
    exact hmiddle.symm
  · refine (nearestWhole_of_abs_lt (n := (m + 1 : Nat)) (abs_lt.mpr ?_)).symm
    push_cast
    constructor <;> linarith

end Whole

/-- The second shift keeps the number: it takes out the bit that rounding up has brought in, if any.
-/
theorem exists_second_shift {r : Nat} {t : Int} (hle : r ≤ 2 ^ 53) (ht : -1074 ≤ t)
    (hlarge : -1074 < t → 2 ^ 52 ≤ r) :
    ∃ (M : Nat) (E : Int), shiftToTargetExponent Format.binary64 r t .exact =
        (⟨M, false, false⟩, E) ∧ (M : ℚ) * 2 ^ E = r * 2 ^ t ∧ (0 < M → Canonical M E) := by
  -- Only a mantissa of all ones carries into a new bit, and then all others are zero.
  rcases hle.lt_or_eq with hlt | rfl
  · refine ⟨r, t, shift_of_lt hlt ht, rfl, fun hpos => ⟨hpos, hlt, ht, ?_⟩⟩
    rcases ht.lt_or_eq with hmore | hleast
    · exact .inl (hlarge hmore)
    · exact .inr hleast.symm
  · have hcarry := shift_of_carry (E := t + 1) (by omega)
    rw [Int.add_sub_cancel] at hcarry
    refine ⟨2 ^ 52, t + 1, hcarry, ?_, fun hpos => ⟨hpos, by decide, by omega, .inl le_rfl⟩⟩
    rw [zpow_add₀ two_ne_zero]
    push_cast
    ring

/-- A number of the machine that is stored as it is. -/
def IsStored : UnpackedFloat → Prop
  | .zero _ => True
  | .finite _ M E _ => Canonical M E
  | .infinity _ => False
  | .notANumber => False

theorem rounded_signed (s : Sign) (v : ℚ) : rounded (signed s v) = signed s (rounded v) := by
  cases s with
  | positive => rfl
  | negative => exact rounded_neg v

/-- What is stored as it is can be stored. -/
theorem IsStored.storable {u : UnpackedFloat} (hu : IsStored u) : Storable (numberOf u) := by
  cases u with
  | zero s => exact storable_zero
  | finite s M E hM =>
    have hnonneg : (0 : ℚ) ≤ M * 2 ^ E := by positivity
    refine ⟨M, E, hu.lt, hu.le, ?_⟩
    rw [numberOf_finite]
    -- The sign is taken off, and significand and exponent are in their limits.
    cases s with
    | positive => exact abs_of_nonneg hnonneg
    | negative => exact (abs_neg _).trans (abs_of_nonneg hnonneg)
  | infinity s => exact hu.elim
  | notANumber => exact hu.elim

section Rounded

variable {m : Nat} {e : Int} {a : Accuracy} {v : ℚ}

/-- **A rounded result** is a whole number of the units that are aimed at, next to the value. -/
theorem exists_rounded (hv : Represents (.ofMantissaAndAccuracy m a) (v / 2 ^ e))
    (hfine : e ≤ target m e) (sign : Sign) :
    ∃ em, Represents em (v / 2 ^ target m e) ∧
      IsStored (roundWithAccuracy Format.binary64 sign m e a) ∧
      numberOf (roundWithAccuracy Format.binary64 sign m e a) =
        signed sign (em.roundedMantissa * 2 ^ target m e) := by
  -- The machine shifts to the exponent that is aimed at, rounds, and shifts again in case of a
  -- carry.
  obtain ⟨em, hfirst, hem⟩ := exists_shiftToTargetExponent hv hfine
  have hupper := lt_of_represents hv
  have hlower := le_of_represents hv hfine
  have hsmallest : -1074 ≤ target m e := by
    rw [target_eq]
    omega
  generalize target m e = t at *
  have hunit : (0 : ℚ) < 2 ^ t := zpow_pos two_pos t
  -- The first shift leaves 53 bits, or one more if rounding up carries.
  have hle : em.roundedMantissa ≤ 2 ^ 53 := by
    apply hem.rounded_le
    rw [div_le_iff₀ hunit]
    push_cast
    rw [zpow_add₀ two_ne_zero, mul_comm] at hupper
    exact hupper.le
  have hge : -1074 < t → 2 ^ 52 ≤ em.roundedMantissa := by
    intro hlarge
    apply hem.le_rounded
    rw [le_div_iff₀ hunit]
    push_cast
    have hleading := hlower hlarge
    rw [zpow_add₀ two_ne_zero, mul_comm] at hleading
    exact hleading
  obtain ⟨M, E, hsecond, hvalue, hcanonical⟩ := exists_second_shift hle hsmallest hge
  refine ⟨em, hem, ?_, ?_⟩
  · simp only [roundWithAccuracy, hfirst, hsecond]
    split
    next => trivial
    next hpos => exact hcanonical (Nat.pos_of_ne_zero hpos)
  · -- The second shift has kept the number, so what was rounded is what is stored.
    rw [← hvalue]
    simp only [roundWithAccuracy, hfirst, hsecond]
    split
    next hzero => cases sign <;> simp [numberOf, signed, hzero]
    next => rfl

/-- **The machine rounds** to the nearest number that can be stored. -/
theorem numberOf_roundWithAccuracy (hv : Represents (.ofMantissaAndAccuracy m a) (v / 2 ^ e))
    (hfine : e ≤ target m e) (hnonneg : 0 ≤ v) (sign : Sign) :
    IsStored (roundWithAccuracy Format.binary64 sign m e a) ∧
      numberOf (roundWithAccuracy Format.binary64 sign m e a) = rounded (signed sign v) := by
  obtain ⟨em, hem, hstored, hnumber⟩ := exists_rounded hv hfine sign
  have hsmallest : -1074 ≤ target m e := by
    rw [target_eq]
    omega
  -- The units that are aimed at are those of the last place.
  have hrounded : rounded v = em.roundedMantissa * 2 ^ target m e := by
    rw [rounded_eq hsmallest (by rw [abs_of_nonneg hnonneg]; exact lt_of_represents hv)
      (by rw [abs_of_nonneg hnonneg]; exact le_of_represents hv hfine),
      ← hem.roundedMantissa_eq_nearestWhole, Int.cast_natCast]
  refine ⟨hstored, ?_⟩
  rw [hnumber, ← hrounded, rounded_signed]

end Rounded

/-! ### Sums -/

theorem shiftLeft_mul_zpow (m k : Nat) (e : Int) :
    ((m <<< k : Nat) : ℚ) * 2 ^ (e - k) = m * 2 ^ e := by
  rw [Nat.shiftLeft_eq, zpow_sub₀ two_ne_zero, zpow_natCast]
  push_cast
  field_simp

/-- A shift adds as many bits as it is long. -/
theorem log2_shiftLeft {m : Nat} (hm : 0 < m) (k : Nat) : (m <<< k).log2 = m.log2 + k := by
  have hpos : m * 2 ^ k ≠ 0 := (Nat.mul_pos hm (Nat.two_pow_pos k)).ne'
  rw [Nat.shiftLeft_eq, Nat.log2_eq_iff hpos]
  constructor
  · rw [pow_add]
    exact Nat.mul_le_mul_right _ (Nat.log2_self_le hm.ne')
  · rw [Nat.add_right_comm, pow_add _ (m.log2 + 1)]
    exact Nat.mul_lt_mul_of_pos_right Nat.lt_log2_self (Nat.two_pow_pos k)

/-- Shifting does not change the exponent that is aimed at. -/
theorem target_shiftLeft {m : Nat} (hm : 0 < m) (k : Nat) (e : Int) :
    target (m <<< k) (e - k) = target m e := by
  rw [target_eq, target_eq, log2_shiftLeft hm]
  push_cast
  omega

/-- A mantissa is rounded to the nearest number, however few bits it has. -/
theorem numberOf_round {m : Nat} (hm : 0 < m) (e : Int) (sign : Sign) :
    IsStored (UnpackedFloat.round Format.binary64 sign m e) ∧
      numberOf (UnpackedFloat.round Format.binary64 sign m e) =
        rounded (signed sign (m * 2 ^ e)) := by
  -- It is first shifted down to the exponent that is aimed at, which loses nothing.
  generalize hk : (e - target m e).toNat = k
  have hround : UnpackedFloat.round Format.binary64 sign m e =
      roundWithAccuracy Format.binary64 sign (m <<< k) (e - k) .exact := by
    subst hk
    rfl
  have htarget := target_shiftLeft hm k e
  have hvalue : (m * 2 ^ e / 2 ^ (e - k) : ℚ) = (m <<< k : Nat) := by
    rw [← shiftLeft_mul_zpow m k e, mul_div_cancel_right₀ _ (zpow_pos two_pos _).ne']
  rw [hround]
  apply numberOf_roundWithAccuracy
  · rw [hvalue]
    exact .of_exact _
  · omega
  · exact mul_nonneg (Nat.cast_nonneg m) (zpow_pos two_pos e).le

/-- A whole number of units is rounded to the nearest number, whatever its sign. -/
theorem numberOf_normalize (n e : Int) (sign : Sign) :
    IsStored (UnpackedFloat.normalize Format.binary64 n e sign) ∧
      numberOf (UnpackedFloat.normalize Format.binary64 n e sign) = rounded (n * 2 ^ e) := by
  -- By the sign of the whole number: the size is rounded and gets the sign, and nothing is zero.
  rw [UnpackedFloat.normalize]
  split
  next hneg =>
    have hneg := Int.compare_eq_lt.mp hneg
    have hsize : ((-n).toNat : ℚ) = -n := by exact_mod_cast Int.toNat_of_nonneg (by omega : 0 ≤ -n)
    have hround := numberOf_round (by omega : 0 < (-n).toNat) e .negative
    rw [signed, hsize, neg_mul, neg_neg] at hround
    exact hround
  next hzero =>
    have hzero := Int.compare_eq_eq.mp hzero
    rw [hzero, Int.cast_zero, zero_mul]
    exact ⟨trivial, rounded_zero.symm⟩
  next hpos =>
    have hpos := Int.compare_eq_gt.mp hpos
    have hsize : (n.toNat : ℚ) = n := by exact_mod_cast Int.toNat_of_nonneg (by omega : 0 ≤ n)
    have hround := numberOf_round (by omega : 0 < n.toNat) e .positive
    rw [signed, hsize] at hround
    exact hround

/-- A sign applied to a whole number. -/
theorem cast_apply (s : Sign) (n : Nat) : (s.apply n : ℚ) = signed s n := by
  cases s with
  | positive => rfl
  | negative =>
    rw [Sign.apply, signed]
    push_cast
    rfl

/-- A factor may be taken out of a number with a sign. -/
theorem signed_mul (s : Sign) (w u : ℚ) : signed s (w * u) = signed s w * u := by
  cases s with
  | positive => rfl
  | negative => exact (neg_mul w u).symm

/-- **A sum** is the exact sum, rounded once. -/
theorem numberOf_add {u v : UnpackedFloat} (hu : IsStored u) (hv : IsStored v) :
    IsStored (UnpackedFloat.add Format.binary64 u v) ∧
      numberOf (UnpackedFloat.add Format.binary64 u v) = rounded (numberOf u + numberOf v) := by
  match u, v with
  | .zero s, .zero s' =>
    have hsum : numberOf (.zero s) + numberOf (.zero s') = 0 := add_zero 0
    rw [hsum, rounded_zero, UnpackedFloat.add]
    split
    · exact ⟨trivial, rfl⟩
    · exact ⟨trivial, rfl⟩
  | .zero s, .finite s' m e hm =>
    have hsum : numberOf (.zero s) + numberOf (.finite s' m e hm) = numberOf (.finite s' m e hm) :=
      zero_add _
    rw [hsum]
    exact ⟨hv, (rounded_of_storable hv.storable).symm⟩
  | .finite s m e hm, .zero s' =>
    have hsum : numberOf (.finite s m e hm) + numberOf (.zero s') = numberOf (.finite s m e hm) :=
      add_zero _
    rw [hsum]
    exact ⟨hu, (rounded_of_storable hu.storable).symm⟩
  | .finite s₁ m₁ e₁ hm₁, .finite s₂ m₂ e₂ hm₂ =>
    -- Two finite terms are brought to the smaller of their units.
    generalize hk₁ : (e₁ - min e₁ e₂).toNat = k₁
    generalize hk₂ : (e₂ - min e₁ e₂).toNat = k₂
    have hunit₁ : min e₁ e₂ = e₁ - k₁ := by omega
    have hunit₂ : min e₁ e₂ = e₂ - k₂ := by omega
    have hadd : UnpackedFloat.add Format.binary64 (.finite s₁ m₁ e₁ hm₁) (.finite s₂ m₂ e₂ hm₂) =
        UnpackedFloat.normalize Format.binary64
          (s₁.apply (m₁ <<< k₁ : Nat) + s₂.apply (m₂ <<< k₂ : Nat)) (min e₁ e₂) .positive := by
      subst hk₁ hk₂
      rfl
    -- Both terms are whole numbers of the smaller unit.
    have hsum : numberOf (.finite s₁ m₁ e₁ hm₁) + numberOf (.finite s₂ m₂ e₂ hm₂) =
        (s₁.apply (m₁ <<< k₁ : Nat) + s₂.apply (m₂ <<< k₂ : Nat) : Int) * 2 ^ min e₁ e₂ := by
      rw [numberOf_finite, numberOf_finite, ← shiftLeft_mul_zpow m₁ k₁, ← shiftLeft_mul_zpow m₂ k₂,
        ← hunit₁, ← hunit₂, Int.cast_add, cast_apply, cast_apply, add_mul, signed_mul, signed_mul]
    rw [hadd, hsum]
    exact numberOf_normalize _ _ _

/-- The machine takes away a number as it adds the opposite one. -/
theorem difference_eq (u v : UnpackedFloat) :
    UnpackedFloat.sub Format.binary64 u v = UnpackedFloat.add Format.binary64 u v.neg := by
  match u, v with
  | .notANumber, v => cases v <;> rfl
  | .infinity s, v => cases v <;> rfl
  | .zero s, v => cases v <;> rfl
  | .finite s m e hm, .notANumber => rfl
  | .finite s m e hm, .infinity s' => rfl
  | .finite s m e hm, .zero s' => rfl
  | .finite s₁ m₁ e₁ hm₁, .finite s₂ m₂ e₂ hm₂ =>
    -- Taking a number away changes its sign, and a sign that is changed twice is as before.
    have happly : ∀ n : Int, (-s₂).apply n = -s₂.apply n := by
      intro n
      cases s₂ with
      | positive => rfl
      | negative => exact (neg_neg n).symm
    simp only [UnpackedFloat.sub, UnpackedFloat.neg, UnpackedFloat.add, happly, Int.sub_eq_add_neg]

/-- The opposite operand stands for the opposite number. -/
theorem numberOf_neg (v : UnpackedFloat) : numberOf v.neg = -numberOf v := by
  cases v with
  | finite s m e hm =>
    cases s with
    | positive => rfl
    | negative => exact (neg_neg _).symm
  | zero s => exact neg_zero.symm
  | infinity s => exact neg_zero.symm
  | notANumber => exact neg_zero.symm

/-- The opposite of what is stored as it is is too. -/
theorem IsStored.neg {v : UnpackedFloat} (hv : IsStored v) : IsStored v.neg := by
  cases v <;> exact hv

/-- **A difference** is the exact difference, rounded once. -/
theorem numberOf_sub {u v : UnpackedFloat} (hu : IsStored u) (hv : IsStored v) :
    IsStored (UnpackedFloat.sub Format.binary64 u v) ∧
      numberOf (UnpackedFloat.sub Format.binary64 u v) = rounded (numberOf u - numberOf v) := by
  rw [difference_eq, sub_eq_add_neg, ← numberOf_neg]
  exact numberOf_add hu hv.neg

end Rounding

namespace Double

open Rounding

theorem significand_lt (x : Double) : x.significand < 2 ^ 53 := by
  have hfraction : x.fractionField < 2 ^ 52 := Nat.mod_lt _ (by decide)
  have hleading : powerOfTwo 52 = 2 ^ 52 := rfl
  rw [significand]
  split <;> omega

theorem abs_value (x : Double) : |x.value| = x.size := by
  rw [value]
  split
  · rw [abs_neg, abs_of_nonneg x.size_nonneg]
  · rw [abs_of_nonneg x.size_nonneg]

theorem storable_value (x : Double) : Storable x.value := by
  refine ⟨x.significand, x.scale, x.significand_lt, ?_, x.abs_value⟩
  rw [scale]
  omega

/-- A significand with an exponent in range is below the power of two that is out of range. -/
theorem mul_two_zpow_lt {M : Nat} {E : Int} (hM : M < 2 ^ 53) (hE : E ≤ 971) :
    (M : ℚ) * 2 ^ E < 2 ^ (1024 : Int) := by
  have hM : (M : ℚ) < 2 ^ 53 := by exact_mod_cast hM
  calc (M : ℚ) * 2 ^ E < 2 ^ 53 * 2 ^ E := mul_lt_mul_of_pos_right hM (zpow_pos two_pos E)
    _ = 2 ^ (E + 53) := (two_zpow_add_53 E).symm
    _ ≤ 2 ^ (1024 : Int) := zpow_le_zpow_right₀ one_le_two (by omega)

theorem abs_value_lt {x : Double} (hx : x.isFinite = true) : |x.value| < 2 ^ (1024 : Int) := by
  rw [abs_value, size]
  refine mul_two_zpow_lt x.significand_lt ?_
  have hexponent := isFinite_iff.mp hx
  rw [scale]
  omega

/-- A finite operand is stored as it is. -/
theorem isStored_toFloat {x : Double} (hx : x.isFinite = true) :
    IsStored x.toFloat.toModel.unpack := by
  rw [unpack_toFloat hx]
  cases hzero : x.isZero with
  | true =>
    rw [unpack_of_isZero hzero]
    trivial
  | false =>
    rw [unpack_of_pos hx (Nat.pos_of_ne_zero (significand_ne_zero hzero))]
    exact canonical hzero

/-- **A stored result** has its number as its value. -/
theorem value_ofFloat_pack {u : UnpackedFloat} (hu : IsStored u) (hbound : Bounded 971 u) :
    (ofFloat (.ofModel (.pack u))).value = numberOf u := by
  match u with
  | .zero s =>
    cases s <;> decide +kernel
  | .finite s M E hM =>
    have hpack := pack_eq hu hbound.exponent_le s
    generalize hz : ofFloat (.ofModel (.pack (.finite s M E hM))) = z
    -- The packed pattern is read field by field: exponent, fraction and sign.
    have hbits : z.bits.toBitVec = packComponents Format.binary64 s
        (if 2 ^ 52 ≤ M then BitVec.ofNat 11 (E + 1075).toNat else 0#11) (BitVec.ofNat 52 M) := by
      rw [← hz, ← hpack]
      rfl
    have hexponent : z.exponentField = if 2 ^ 52 ≤ M then (E + 1075).toNat % 2 ^ 11 else 0 := by
      rw [exponentField_eq, hbits, unpackExponent_packComponents]
      split
      · exact BitVec.toNat_ofNat _ 11
      · rfl
    have hfraction : z.fractionField = M % 2 ^ 52 := by
      rw [fractionField_eq, hbits, unpackMantissa_packComponents]
      exact BitVec.toNat_ofNat M 52
    have hsign : z.sign = s := by
      rw [sign, hbits, UnpackedFloat.unpackSign_packComponents, Sign.ofBitVec_toBitVec]
    have hM := hu.lt
    have hle := hu.le
    have hE := hbound.exponent_le
    have hleading : powerOfTwo 52 = 2 ^ 52 := rfl
    -- The leading bit shows in the exponent, or else the exponent is the smallest.
    have hfields : z.significand = M ∧ z.scale = E := by
      rw [significand, scale]
      rcases hu.leading with hlarge | hsmallest
      · rw [if_pos hlarge] at hexponent
        rw [if_neg (by omega)]
        omega
      · split at hexponent
        · rw [if_neg (by omega)]
          omega
        · rw [if_pos hexponent]
          omega
    rw [numberOf_finite, value_eq, hsign, size, hfields.1, hfields.2]

/-- **The sum** of two numbers below half the range is their exact sum, rounded once. -/
theorem value_add_of_le {x y : Double} (hx : (x.exponentField : Int) ≤ 970 + 1075)
    (hy : (y.exponentField : Int) ≤ 970 + 1075) : (x + y).value = rounded (x.value + y.value) := by
  have hfinite : x.isFinite = true := isFinite_iff.mpr (by omega)
  have hfinite' : y.isFinite = true := isFinite_iff.mpr (by omega)
  -- Terms below half the range cannot add up to more than the range.
  have hbound := bounded_add (by decide) (bounded_toFloat (by decide) (by decide) hx)
    (bounded_toFloat (by decide) (by decide) hy)
  obtain ⟨hstored, hnumber⟩ := numberOf_add (isStored_toFloat hfinite) (isStored_toFloat hfinite')
  rw [← value_ofFloat_pack hstored hbound, numberOf_toFloat hfinite, numberOf_toFloat hfinite']
    at hnumber
  exact hnumber

/-- Whether half of a number can be stored. -/
def HalvesExactly (x : Double) : Prop := (x / ((2 : Nat) : Double)).value = x.value / 2

/-- **Half the way** between two numbers is between them, if their halves can be stored. -/
theorem half_add_half_between {x y : Double} (hx : x.isFinite = true) (hy : y.isFinite = true)
    (hle : x.value ≤ y.value) (hhalf : x.HalvesExactly) (hhalf' : y.HalvesExactly) :
    x.value ≤ (x / ((2 : Nat) : Double) + y / ((2 : Nat) : Double)).value ∧
      (x / ((2 : Nat) : Double) + y / ((2 : Nat) : Double)).value ≤ y.value := by
  -- The halves are exact, so there is one rounding, and it does not cross either of the two
  -- numbers.
  rw [value_add_of_le (exponentField_half_le hx) (exponentField_half_le hy), hhalf, hhalf']
  exact ⟨le_rounded x.storable_value (by linarith), rounded_le y.storable_value (by linarith)⟩

end Double

end PinnedBench
