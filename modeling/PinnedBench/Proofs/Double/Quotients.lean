import Mathlib
import PinnedBench.Proofs.Double.Sums

/-!
# Products and quotients of stored numbers

A product and a quotient are rounded once, like a sum, and so is a whole number that is taken for a
stored one. `Double.Rounds v x` says of a stored number that it is what `v` is rounded to: it is
finite exactly if that is in range, and then it stands for it. `Double.rounds_add`,
`Double.rounds_sub`, `Double.rounds_mul`, `Double.rounds_div` and `Double.rounds_natCast` give it.

Rounding alone may take two values apart or together, but it keeps their order, so that a percentage
of whole numbers is at most a hundred (`Double.percentage`).
-/

namespace PinnedBench

open Float.Model Float.Model.UnpackedFloat

namespace Rounding

/-! ### Results of one operation -/

theorem signed_mul_signed (s₁ s₂ : Sign) (v₁ v₂ : ℚ) :
    signed (s₁ * s₂) (v₁ * v₂) = signed s₁ v₁ * signed s₂ v₂ := by
  cases s₁ <;> cases s₂ <;> simp [signed]

/-- Signs divide as the numbers do, since a sign is its own inverse. -/
theorem signed_div_signed (s₁ s₂ : Sign) (v₁ v₂ : ℚ) :
    signed (s₁ / s₂) (v₁ / v₂) = signed s₁ v₁ / signed s₂ v₂ := by
  have hsign : s₁ / s₂ = s₁ * s₂ := by cases s₁ <;> cases s₂ <;> rfl
  rw [hsign]
  cases s₁ <;> cases s₂ <;> simp [signed, neg_div, div_neg]

/-- Both zeros of the machine stand for zero. -/
theorem numberOf_zero (s : Sign) : numberOf (.zero s) = 0 := rfl

/-- The factors of a product leave bits enough for rounding it, if both can be stored. -/
theorem le_target_product {m₁ m₂ : Nat} {e₁ e₂ : Int} (h₁ : Canonical m₁ e₁)
    (h₂ : Canonical m₂ e₂) : e₁ + e₂ ≤ target (m₁ * m₂) (e₁ + e₂) := by
  -- Either factor with its leading bit makes the product long enough; if neither has one, both
  -- exponents are the smallest, far below what is aimed at.
  rcases h₁.leading with hlarge | hsmallest
  · exact le_target_of_large (hlarge.trans (Nat.le_mul_of_pos_right _ h₂.pos)) _
  · rcases h₂.leading with hlarge | hsmallest'
    · exact le_target_of_large (hlarge.trans (Nat.le_mul_of_pos_left _ h₁.pos)) _
    · rw [target_eq]
      omega

/-- A product of significands that are large enough is rounded once. -/
theorem numberOf_product {m₁ m₂ : Nat} {e₁ e₂ : Int} (h₁ : 0 < m₁) (h₂ : 0 < m₂)
    (hfine : e₁ + e₂ ≤ target (m₁ * m₂) (e₁ + e₂)) (s₁ s₂ : Sign) :
    IsStored (UnpackedFloat.mul Format.binary64 (.finite s₁ m₁ e₁ h₁) (.finite s₂ m₂ e₂ h₂)) ∧
      numberOf (UnpackedFloat.mul Format.binary64 (.finite s₁ m₁ e₁ h₁) (.finite s₂ m₂ e₂ h₂)) =
        rounded (signed s₁ (m₁ * 2 ^ e₁) * signed s₂ (m₂ * 2 ^ e₂)) := by
  rw [← signed_mul_signed]
  exact numberOf_roundWithAccuracy (represents_product m₁ m₂ e₁ e₂) hfine (by positivity) _

/-- **A product** is the exact product, rounded once. -/
theorem numberOf_mul {u v : UnpackedFloat} (hu : IsStored u) (hv : IsStored v) :
    IsStored (UnpackedFloat.mul Format.binary64 u v) ∧
      numberOf (UnpackedFloat.mul Format.binary64 u v) = rounded (numberOf u * numberOf v) := by
  match u, v with
  | .zero s, .zero s' =>
    rw [numberOf_zero, zero_mul, rounded_zero]
    exact ⟨trivial, rfl⟩
  | .zero s, .finite s' m e hm =>
    rw [numberOf_zero, zero_mul, rounded_zero]
    exact ⟨trivial, rfl⟩
  | .finite s m e hm, .zero s' =>
    rw [numberOf_zero s', mul_zero, rounded_zero]
    exact ⟨trivial, rfl⟩
  -- Only here is anything rounded: a zero among the factors makes an exact zero.
  | .finite s₁ m₁ e₁ hm₁, .finite s₂ m₂ e₂ hm₂ =>
    exact numberOf_product hm₁ hm₂ (le_target_product hu hv) s₁ s₂

/-- **A quotient** is the exact quotient, rounded once, unless the divisor is zero. -/
theorem numberOf_div {u v : UnpackedFloat} (hu : IsStored u) (hv : IsStored v)
    (hne : numberOf v ≠ 0) :
    IsStored (UnpackedFloat.div Format.binary64 u v) ∧
      numberOf (UnpackedFloat.div Format.binary64 u v) = rounded (numberOf u / numberOf v) := by
  match u, v with
  | .zero s, .zero s' => exact absurd (numberOf_zero s') hne
  | .finite s m e hm, .zero s' => exact absurd (numberOf_zero s') hne
  | .zero s, .finite s' m e hm =>
    rw [numberOf_zero, zero_div, rounded_zero]
    exact ⟨trivial, rfl⟩
  | .finite s₁ m₁ e₁ hm₁, .finite s₂ m₂ e₂ hm₂ =>
    rw [numberOf_finite, numberOf_finite, ← signed_div_signed, UnpackedFloat.div, divCore]
    -- The dividend is shifted so far that the whole part of the quotient has bits enough.
    generalize ht : min (e₁ - e₂) (Format.binary64.targetExponent
      (totalExponent m₁ e₁ - totalExponent m₂ e₂)) = t
    exact numberOf_roundWithAccuracy (represents_shifted_quotient hm₂ (by omega))
      (le_target_quotient hm₁ hm₂ ht.symm) (by positivity) _

end Rounding

namespace Double

open Rounding

/-! ### Stored results -/

/-- The exponent of a number that is not too large is in range: its leading bit alone would be too
large otherwise. -/
theorem exponent_le_of_lt {M : Nat} {E : Int} (h : Canonical M E)
    (hlt : (M : ℚ) * 2 ^ E < 2 ^ (1024 : Int)) : E ≤ 971 := by
  by_contra hlarge
  have hleading : (2 : ℚ) ^ 52 ≤ M := by exact_mod_cast h.leading.resolve_right (by omega)
  refine absurd hlt (not_lt.mpr ?_)
  calc (2 : ℚ) ^ (1024 : Int) = 2 ^ ((52 : Nat) + 972 : Int) := by congr 1
    _ = 2 ^ 52 * 2 ^ (972 : Int) := by rw [zpow_add₀ two_ne_zero, zpow_natCast]
    _ ≤ M * 2 ^ (972 : Int) := mul_le_mul_of_nonneg_right hleading (zpow_pos two_pos _).le
    _ ≤ M * 2 ^ E :=
      mul_le_mul_of_nonneg_left (zpow_le_zpow_right₀ one_le_two (by omega)) (Nat.cast_nonneg M)

/-- Without its sign a finite operand is its significand times a power of two. -/
theorem abs_numberOf_finite (s : Sign) (m : Nat) (e : Int) (hm : 0 < m) :
    |numberOf (.finite s m e hm)| = m * 2 ^ e := by
  have hnonneg : (0 : ℚ) ≤ m * 2 ^ e := by positivity
  cases s with
  | positive => exact abs_of_nonneg hnonneg
  | negative => exact (abs_neg _).trans (abs_of_nonneg hnonneg)

/-- A number that is stored as it is and not too large is in range. -/
theorem bounded_of_isStored {u : UnpackedFloat} (hu : IsStored u)
    (h : |numberOf u| < 2 ^ (1024 : Int)) : Bounded 971 u := by
  cases u with
  | zero s => trivial
  | finite s M E hM =>
    rw [abs_numberOf_finite] at h
    exact within_of_lt hu.lt (exponent_le_of_lt hu h)
  | infinity s => exact hu
  | notANumber => exact hu

/-- Whether what a value is rounded to is in the range of stored numbers. -/
def InRange (v : ℚ) : Prop := |rounded v| < 2 ^ (1024 : Int)

/-- What is bounded by a stored number that is not too large is in range, since rounding does not
cross it. -/
theorem inRange_of_abs_le_storable {v c : ℚ} (hc : Storable c) (h : |v| ≤ c)
    (hlt : c < 2 ^ (1024 : Int)) : InRange v :=
  (abs_rounded_le hc h).trans_lt hlt

/-- What is bounded by a power of two that is not too large is in range. -/
theorem inRange_of_abs_le {v : ℚ} {k : Int} (h : |v| ≤ 2 ^ k) (hlow : -1074 ≤ k) (hk : k ≤ 1023) :
    InRange v :=
  inRange_of_abs_le_storable (storable_two_zpow hlow) h
    (zpow_lt_zpow_right₀ one_lt_two (by omega))

/-- So is what is not negative and bounded by one. -/
theorem inRange_of_le {v : ℚ} {k : Int} (hnonneg : 0 ≤ v) (h : v ≤ 2 ^ k) (hlow : -1074 ≤ k)
    (hk : k ≤ 1023) : InRange v :=
  inRange_of_abs_le ((abs_of_nonneg hnonneg).trans_le h) hlow hk

/-- **A stored number that a value is rounded to**: it is finite exactly if that is in range, and
then it is that number. -/
structure Rounds (v : ℚ) (x : Double) : Prop where
  /-- It is finite exactly if what the value is rounded to is in range. -/
  finite_iff : x.isFinite = true ↔ InRange v
  /-- A finite one stands for what the value is rounded to. -/
  value_eq (h : x.isFinite = true) : x.value = rounded v

theorem Rounds.finite {v : ℚ} {x : Double} (h : Rounds v x) (hv : InRange v) : x.isFinite = true :=
  h.finite_iff.mpr hv

/-- A finite result that can be stored is not rounded. -/
theorem Rounds.value_of_storable {v : ℚ} {x : Double} (h : Rounds v x) (hv : Storable v)
    (hfinite : x.isFinite = true) : x.value = v :=
  (h.value_eq hfinite).trans (rounded_of_storable hv)

/-- A finite result keeps below what can be stored. -/
theorem Rounds.le {v c : ℚ} {x : Double} (h : Rounds v x) (hfinite : x.isFinite = true)
    (hc : Storable c) (hvc : v ≤ c) : x.value ≤ c :=
  (h.value_eq hfinite).trans_le (rounded_le hc hvc)

/-- A finite result keeps above what can be stored. -/
theorem Rounds.ge {v c : ℚ} {x : Double} (h : Rounds v x) (hfinite : x.isFinite = true)
    (hc : Storable c) (hcv : c ≤ v) : c ≤ x.value :=
  (h.value_eq hfinite).symm ▸ le_rounded hc hcv

/-- What is too large is stored as infinity. -/
theorem pack_of_large {M : Nat} {E : Int} (hM : 0 < M) (hE : 971 < E) (s : Sign) :
    Float.Model.pack (.finite s M E hM) = Float.Model.pack (.infinity s) := by
  have hbias : (Format.binary64.exponentBias : Int) = 1023 := by decide
  have hlarge : 2 ^ 11 ≤ (E + 1023 + 52).toNat + 1 := by omega
  simp only [Float.Model.pack, UnpackedFloat.pack, hbias, Nat.cast_ofNat, if_pos hlarge]

/-- An infinite result is not finite, and neither is one that is no number. -/
theorem not_isFinite_infinite (s : Sign) :
    (ofFloat (.ofModel (.pack (.infinity s)))).isFinite = false ∧
      (ofFloat (.ofModel (.pack .notANumber))).isFinite = false := by
  cases s <;> decide +kernel

/-- What is stored of a result is finite exactly if the result is in range. -/
theorem isFinite_ofFloat_pack_iff {u : UnpackedFloat} (hu : IsStored u) :
    (ofFloat (.ofModel (.pack u))).isFinite = true ↔ |numberOf u| < 2 ^ (1024 : Int) := by
  constructor
  · intro hfinite
    -- Packing leaves infinity only of exponents above 971, and below them no significand is too
    -- large.
    match u with
    | .zero s =>
      rw [numberOf_zero, abs_zero]
      positivity
    | .finite s M E hM =>
      have hexponent : E ≤ 971 := by
        by_contra hlarge
        rw [pack_of_large hM (not_le.mp hlarge), (not_isFinite_infinite s).1] at hfinite
        exact Bool.false_ne_true hfinite
      rw [abs_numberOf_finite]
      exact mul_two_zpow_lt hu.lt hexponent
  · intro hlt
    exact isFinite_iff.mpr
      (exponentField_ofFloat_le (by decide) (by decide) (bounded_of_isStored hu hlt))

theorem rounds_ofFloat_pack {u : UnpackedFloat} {v : ℚ} (hu : IsStored u)
    (hv : numberOf u = rounded v) : Rounds v (ofFloat (.ofModel (.pack u))) where
  finite_iff := by rw [isFinite_ofFloat_pack_iff hu, hv, InRange]
  value_eq h := by
    rw [value_ofFloat_pack hu (bounded_of_isStored hu ((isFinite_ofFloat_pack_iff hu).mp h)), hv]

section Operations

variable {x y : Double}

/-- **The sum** of finite numbers is their exact sum, rounded once. -/
theorem rounds_add (hx : x.isFinite = true) (hy : y.isFinite = true) :
    Rounds (x.value + y.value) (x + y) := by
  obtain ⟨hstored, hnumber⟩ := numberOf_add (isStored_toFloat hx) (isStored_toFloat hy)
  rw [numberOf_toFloat hx, numberOf_toFloat hy] at hnumber
  exact rounds_ofFloat_pack hstored hnumber

/-- **The difference** of finite numbers is their exact difference, rounded once. -/
theorem rounds_sub (hx : x.isFinite = true) (hy : y.isFinite = true) :
    Rounds (x.value - y.value) (x - y) := by
  obtain ⟨hstored, hnumber⟩ := numberOf_sub (isStored_toFloat hx) (isStored_toFloat hy)
  rw [numberOf_toFloat hx, numberOf_toFloat hy] at hnumber
  exact rounds_ofFloat_pack hstored hnumber

/-- **The product** of finite numbers is their exact product, rounded once. -/
theorem rounds_mul (hx : x.isFinite = true) (hy : y.isFinite = true) :
    Rounds (x.value * y.value) (x * y) := by
  obtain ⟨hstored, hnumber⟩ := numberOf_mul (isStored_toFloat hx) (isStored_toFloat hy)
  rw [numberOf_toFloat hx, numberOf_toFloat hy] at hnumber
  exact rounds_ofFloat_pack hstored hnumber

/-- **The quotient** of finite numbers is their exact quotient, rounded once, unless the divisor is
zero. -/
theorem rounds_div (hx : x.isFinite = true) (hy : y.isFinite = true) (hne : y.value ≠ 0) :
    Rounds (x.value / y.value) (x / y) := by
  rw [← numberOf_toFloat hy] at hne
  obtain ⟨hstored, hnumber⟩ := numberOf_div (isStored_toFloat hx) (isStored_toFloat hy) hne
  rw [numberOf_toFloat hx, numberOf_toFloat hy] at hnumber
  exact rounds_ofFloat_pack hstored hnumber

end Operations

/-! ### Whole numbers -/

section Whole

variable {n : Nat}

/-- A whole number that fits a significand is an exact number times one. -/
theorem natCast_of_lt (h : n < 2 ^ 53) :
    (n : Double) = ofFloat (n.toUInt64.toFloat * Float.exactlyRepresentablePowersOfTen[0]) := by
  change ofFloat (Float.ofScientific n false 0) = _
  rw [Float.ofScientific, dif_pos ⟨h, by decide⟩]
  rfl

/-- A whole number that is rounded from its bits, which is kept folded: with a number that is not
known, unfolding it has no end. -/
@[irreducible] def roundedWhole (n : Nat) : UnpackedFloat :=
  roundWithAccuracy Format.binary64 .positive (n <<< 53) (-53) .exact

theorem roundedWhole_eq (n : Nat) : roundedWhole n =
    roundWithAccuracy Format.binary64 .positive (n <<< 53) (-53) .exact := by
  unfold roundedWhole
  rfl

/-- Any other whole number is rounded from its bits. -/
theorem natCast_of_le (h : 2 ^ 53 ≤ n) :
    (n : Double) = ofFloat (.ofModel (.pack (roundedWhole n))) := by
  have hpos : n ≠ 0 := by omega
  have hlow : ¬(0 : Int) < -(2 ^ 11 + n.log2) := by omega
  have hexponent : (if false = true then Int.negOfNat 0 else Int.ofNat 0) = 0 := rfl
  change ofFloat (Float.ofScientific n false 0) = _
  rw [Float.ofScientific, dif_neg (by omega)]
  simp only [hexponent, Float.Model.ofScientific, UnpackedFloat.ofScientific, dif_neg hpos]
  rw [if_neg (by decide), if_neg hlow, if_pos le_rfl, roundedWhole_eq,
    ← Nat.mul_one (n <<< 53)]
  rfl

/-- A whole number of 64 bits is far inside the range. -/
theorem inRange_natCast (h : n < 2 ^ 64) : InRange n :=
  inRange_of_le (k := 64) (Nat.cast_nonneg n) (by exact_mod_cast h.le) (by decide) (by decide)

/-- A small whole number is converted by a product with one, and it is rounded by that. -/
theorem rounds_natCast_of_lt (h : n < 2 ^ 53) : Rounds n (n : Double) := by
  rcases Nat.eq_zero_or_pos n with rfl | hpos
  · have hvalue : ((0 : Nat) : Double).value = 0 := by decide +kernel
    refine ⟨iff_of_true isFinite_zero (inRange_natCast (by decide)), fun _ => ?_⟩
    rw [hvalue, Nat.cast_zero, rounded_zero]
  · -- Both factors are exact: the number itself and the zeroth power of ten.
    obtain ⟨m₁, e₁, h₁, hunpack₁, hvalue₁, hlarge⟩ := exact_toFloat hpos h
    obtain ⟨m₂, e₂, h₂, hunpack₂, hvalue₂, -⟩ := exact_powerOfTen (k := 0) (by decide)
    have hfine := le_target_of_large (hlarge.trans (Nat.le_mul_of_pos_right _ h₂)) (e₁ + e₂)
    obtain ⟨hstored, hnumber⟩ := numberOf_product h₁ h₂ hfine .positive .positive
    have hproduct : n.toUInt64.toFloat * Float.exactlyRepresentablePowersOfTen[0] = .ofModel (.pack
        (UnpackedFloat.mul Format.binary64 n.toUInt64.toFloat.toModel.unpack
          Float.exactlyRepresentablePowersOfTen[0].toModel.unpack)) := rfl
    rw [signed, signed, hvalue₁, hvalue₂, pow_zero, mul_one] at hnumber
    rw [natCast_of_lt h, hproduct, hunpack₁, hunpack₂]
    exact rounds_ofFloat_pack hstored hnumber

theorem isFinite_natCast (h : n < 2 ^ 53) : (n : Double).isFinite = true :=
  (rounds_natCast_of_lt h).finite (inRange_natCast (h.trans (by decide)))

/-- A whole number that fits a significand is not rounded. -/
theorem value_natCast_of_lt (h : n < 2 ^ 53) : (n : Double).value = n :=
  (rounds_natCast_of_lt h).value_of_storable (storable_natCast h) (isFinite_natCast h)

/-- Shifted by 53 bits a large number has more bits than are kept. -/
theorem le_target_shiftLeft (h : 2 ^ 53 ≤ n) (e : Int) : e ≤ target (n <<< 53) e := by
  apply le_target_of_large
  rw [Nat.shiftLeft_eq]
  omega

/-- A large whole number is rounded to the nearest number that can be stored. -/
theorem numberOf_roundedWhole (h : 2 ^ 53 ≤ n) :
    IsStored (roundedWhole n) ∧ numberOf (roundedWhole n) = rounded n := by
  have hvalue : (n : ℚ) / (2 : ℚ) ^ (-53 : Int) = ((n <<< 53 : Nat) : ℚ) := by
    have hshift := shiftLeft_mul_zpow n 53 0
    rw [zpow_zero, mul_one] at hshift
    rw [← hshift]
    exact mul_div_cancel_right₀ _ (zpow_pos two_pos _).ne'
  rw [roundedWhole_eq]
  -- The shift is exact and its exponent undoes it, so rounding begins with the number itself.
  refine numberOf_roundWithAccuracy ?_ (le_target_shiftLeft h _) (Nat.cast_nonneg n) .positive
  rw [hvalue]
  exact .of_exact _

/-- **A whole number** is rounded once. -/
theorem rounds_natCast (n : Nat) : Rounds n (n : Double) := by
  rcases lt_or_ge n (2 ^ 53) with hsmall | hlarge
  · exact rounds_natCast_of_lt hsmall
  · obtain ⟨hstored, hnumber⟩ := numberOf_roundedWhole hlarge
    rw [natCast_of_le hlarge]
    exact rounds_ofFloat_pack hstored hnumber

end Whole

/-! ### Percentages -/

/-- A quotient of whole numbers is finite, not negative and not too large, and it is at most one if
the dividend is at most the divisor. -/
theorem quotient_natCast {n m : Nat} (hn : n < 2 ^ 64) (hpos : 0 < m) (hm : m < 2 ^ 64) :
    ((n : Double) / (m : Double)).isFinite = true ∧ 0 ≤ ((n : Double) / (m : Double)).value ∧
      ((n : Double) / (m : Double)).value ≤ 2 ^ (64 : Int) ∧
      (n ≤ m → ((n : Double) / (m : Double)).value ≤ 1) := by
  have hlimit : Storable (2 ^ (64 : Int)) := storable_two_zpow (by decide)
  -- The dividend and the divisor are rounded first.
  have hdividend := rounds_natCast n
  have hdivisor := rounds_natCast m
  have hfinite := hdividend.finite (inRange_natCast hn)
  have hfinite' := hdivisor.finite (inRange_natCast hm)
  have hnonneg : 0 ≤ (n : Double).value := hdividend.ge hfinite storable_zero (Nat.cast_nonneg n)
  have hle : (n : Double).value ≤ 2 ^ (64 : Int) :=
    hdividend.le hfinite hlimit (by exact_mod_cast hn.le)
  have hge : 1 ≤ (m : Double).value := hdivisor.ge hfinite' storable_one (by exact_mod_cast hpos)
  -- Then the quotient is.
  have hquotient_nonneg : 0 ≤ (n : Double).value / (m : Double).value := by positivity
  have hquotient_le : (n : Double).value / (m : Double).value ≤ 2 ^ (64 : Int) :=
    (div_le_self hnonneg hge).trans hle
  have hquotient := rounds_div hfinite hfinite' (by positivity)
  have hresult :=
    hquotient.finite (inRange_of_le hquotient_nonneg hquotient_le (by decide) (by decide))
  refine ⟨hresult, hquotient.ge hresult storable_zero hquotient_nonneg,
    hquotient.le hresult hlimit hquotient_le, fun hnm => hquotient.le hresult storable_one ?_⟩
  -- Rounding has kept the order of the two.
  have hrounded : (n : Double).value ≤ (m : Double).value := by
    rw [hdividend.value_eq hfinite, hdivisor.value_eq hfinite']
    exact rounded_mono (by exact_mod_cast hnm)
  exact div_le_one_of_le₀ hrounded (by positivity)

/-- **A percentage** of two whole numbers is finite and not negative, and it is at most a hundred if
the first number is at most the second. -/
theorem percentage {n m : Nat} (hn : n < 2 ^ 64) (hpos : 0 < m) (hm : m < 2 ^ 64) :
    ((n : Double) / (m : Double) * ((100 : Nat) : Double)).isFinite = true ∧
      0 ≤ ((n : Double) / (m : Double) * ((100 : Nat) : Double)).value ∧
      (n ≤ m → ((n : Double) / (m : Double) * ((100 : Nat) : Double)).value ≤ 100) := by
  obtain ⟨hfinite, hnonneg, hle, hle_one⟩ := quotient_natCast hn hpos hm
  -- The hundred is exact, so it is only the product that is rounded.
  have hhundred : ((100 : Nat) : Double).value = 100 := value_natCast_of_lt (by decide)
  have hrange : ((n : Double) / (m : Double)).value * 100 ≤ 2 ^ (71 : Int) :=
    calc ((n : Double) / (m : Double)).value * 100 ≤ 2 ^ (64 : Int) * 2 ^ (7 : Int) := by
          gcongr
          norm_num
      _ = 2 ^ (71 : Int) := by rw [← zpow_add₀ two_ne_zero]; rfl
  have hproduct := rounds_mul hfinite (isFinite_natCast (n := 100) (by decide))
  rw [hhundred] at hproduct
  have hresult := hproduct.finite (inRange_of_le (by positivity) hrange (by decide) (by decide))
  refine ⟨hresult, hproduct.ge hresult storable_zero (by positivity), fun hnm => ?_⟩
  have hstorable : Storable 100 := by exact_mod_cast storable_natCast (n := 100) (by decide)
  have hfactor := hle_one hnm
  exact hproduct.le hresult hstorable (by linarith)

end Double

end PinnedBench
