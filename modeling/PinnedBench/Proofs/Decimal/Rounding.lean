import PinnedBench.Proofs.Stats.Medians

/-!
# Rounding to the nearest number

The machine rounds a value by shifting its significand to the right and keeping two bits of what is
lost: the bit that was lost last, and whether any bit before it was set. These two bits say all
about the lost part that rounding asks for. `Represents em v` is what they say, with `v` the value
in units of the significand that is left.

A stored number `M · 2 ^ E` is what every value is rounded to that lies in its interval, `Nearest`:
half a unit to either side, but only a quarter of one below a power of two, and the ends only where
`M` is even (`roundWithAccuracy_eq`). The proof follows the exponent that the machine aims at. It is
that of the number, or one less where the value is just below a power of two; rounding then brings
in another bit, and the second shift takes it out again.
-/

namespace PinnedBench

open Float.Model Float.Model.UnpackedFloat

namespace Rounding

/-! ### Lost bits -/

/-- What a mantissa and the two bits beside it say about a value. -/
def Represents : ExtendedMantissa → ℚ → Prop
  | ⟨m, false, false⟩, v => v = m
  | ⟨m, false, true⟩, v => m < v ∧ v < m + 1 / 2
  | ⟨m, true, false⟩, v => v = m + 1 / 2
  | ⟨m, true, true⟩, v => m + 1 / 2 < v ∧ v < m + 1

/-- The mantissa is the whole part of the value. -/
theorem Represents.bounds {em : ExtendedMantissa} {v : ℚ} (h : Represents em v) :
    (em.mantissa : ℚ) ≤ v ∧ v < em.mantissa + 1 := by
  obtain ⟨m, r, s⟩ := em
  cases r <;> cases s <;> simp only [Represents] at h ⊢ <;> constructor <;> linarith

/-- One bit more is lost: it becomes the round bit, and the old round bit joins the rest. -/
theorem Represents.shiftRightOne {em : ExtendedMantissa} {v : ℚ} (h : Represents em v) :
    Represents em.shiftRightOne (v / 2) := by
  obtain ⟨m, r, s⟩ := em
  have hm : (m : ℚ) = 2 * (m / 2 : Nat) + (m % 2 : Nat) := by
    exact_mod_cast (Nat.div_add_mod m 2).symm
  -- The bit that is shifted out decides on which side of the middle the value lies.
  rcases Nat.mod_two_eq_zero_or_one m with hbit | hbit
  · have hround : (m % 2 != 0) = false := by simp [hbit]
    rw [hbit, Nat.cast_zero, add_zero] at hm
    cases r <;> cases s <;>
      simp only [Represents, ExtendedMantissa.shiftRightOne, hround, Bool.or_false, Bool.or_true]
        at h ⊢
    · linarith
    all_goals exact ⟨by linarith, by linarith⟩
  · have hround : (m % 2 != 0) = true := by simp [hbit]
    rw [hbit, Nat.cast_one] at hm
    cases r <;> cases s <;>
      simp only [Represents, ExtendedMantissa.shiftRightOne, hround, Bool.or_false, Bool.or_true]
        at h ⊢
    · linarith
    all_goals exact ⟨by linarith, by linarith⟩

/-- **Shifting** keeps what is said about a value, in larger units. -/
theorem Represents.shiftRight {em : ExtendedMantissa} {v : ℚ} (h : Represents em v) (n : Nat) :
    Represents (em >>> n) (v / 2 ^ n) := by
  induction n with
  | zero =>
    change Represents em _
    simpa using h
  | succ n ih =>
    have hunits : v / 2 ^ (n + 1) = v / 2 ^ n / 2 := by rw [pow_succ]; ring
    rw [hunits]
    exact ih.shiftRightOne

/-- Nothing has been lost of a value that is exact. -/
theorem Represents.of_exact (m : Nat) : Represents (.ofMantissaAndAccuracy m .exact) m := rfl

/-- **A quotient** and the comparison of its rest with half the divisor. -/
theorem represents_quotient (n : Nat) {d : Nat} (hd : 0 < d) :
    Represents (.ofMantissaAndAccuracy (n / d) (accuracyOfFraction (n % d) d)) (n / d : ℚ) := by
  have hpos : (0 : ℚ) < d := by exact_mod_cast hd
  have hsplit : (n : ℚ) = d * (n / d : Nat) + (n % d : Nat) := by
    exact_mod_cast (Nat.div_add_mod n d).symm
  -- The quotient is a whole number and the rest over the divisor, and it is the second one that is
  -- compared.
  have hvalue : (n / d : ℚ) = (n / d : Nat) + (n % d : Nat) / d := by
    rw [hsplit]
    field_simp
  have hlt : ((n % d : Nat) : ℚ) / d < 1 := by
    rw [div_lt_one hpos]
    exact_mod_cast Nat.mod_lt n hd
  rw [hvalue]
  generalize n / d = q at *
  generalize n % d = rest at *
  rw [accuracyOfFraction]
  split
  next hzero => simp [hzero, ExtendedMantissa.ofMantissaAndAccuracy, Represents]
  next hrest =>
    have hrest : (0 : ℚ) < rest / d := div_pos (by exact_mod_cast Nat.pos_of_ne_zero hrest) hpos
    -- Twice the rest against the divisor is the rest of the value against a half.
    cases hcompare : compare (2 * rest) d with
    | lt =>
      have hbelow : (2 * rest : ℚ) < d := by exact_mod_cast Nat.compare_eq_lt.mp hcompare
      have hbelow : (rest : ℚ) / d < 1 / 2 := by
        rw [div_lt_div_iff₀ hpos two_pos]
        linarith
      exact ⟨by linarith, by linarith⟩
    | eq =>
      have hmiddle : (2 * rest : ℚ) = d := by exact_mod_cast Nat.compare_eq_eq.mp hcompare
      have hmiddle : (rest : ℚ) / d = 1 / 2 := by
        rw [div_eq_div_iff hpos.ne' two_ne_zero]
        linarith
      change (_ : ℚ) = _
      rw [hmiddle]
    | gt =>
      have habove : (d : ℚ) < 2 * rest := by exact_mod_cast Nat.compare_eq_gt.mp hcompare
      have habove : (1 : ℚ) / 2 < rest / d := by
        rw [div_lt_div_iff₀ two_pos hpos]
        linarith
      exact ⟨by linarith, by linarith⟩

/-- **The value that is left** rounds to a whole number if it is at most half a unit away from it,
and the middle between two whole numbers belongs to the even one. -/
theorem Represents.roundedMantissa_eq {em : ExtendedMantissa} {v : ℚ} (h : Represents em v)
    {M : Nat} (hlow : (M : ℚ) - 1 / 2 ≤ v) (hhigh : v ≤ M + 1 / 2)
    (hends : M % 2 = 1 → (M : ℚ) - 1 / 2 < v ∧ v < M + 1 / 2) : em.roundedMantissa = M := by
  obtain ⟨m, r, s⟩ := em
  cases r <;> cases s <;>
    simp only [Represents, ExtendedMantissa.roundedMantissa, ExtendedMantissa.accuracy,
      Accuracy.roundToNearestEven] at h ⊢
  · -- The value is a whole number.
    have h₁ : (m : ℚ) < M + 1 := by linarith
    have h₂ : (M : ℚ) < m + 1 := by linarith
    norm_cast at h₁ h₂
    omega
  · have h₁ : (m : ℚ) < M + 1 := by linarith
    have h₂ : (M : ℚ) < m + 1 := by linarith
    norm_cast at h₁ h₂
    omega
  · -- The value is in the middle.
    have h₁ : (m : ℚ) < M + 1 := by linarith
    have h₂ : (M : ℚ) < m + 2 := by linarith
    norm_cast at h₁ h₂
    rcases Nat.mod_two_eq_zero_or_one M with heven | hodd
    · omega
    · obtain ⟨hlow, hhigh⟩ := hends hodd
      have h₃ : (m : ℚ) < M := by linarith
      have h₄ : (M : ℚ) < m + 1 := by linarith
      norm_cast at h₃ h₄
      omega
  · have h₁ : (m : ℚ) < M := by linarith
    have h₂ : (M : ℚ) < m + 2 := by linarith
    norm_cast at h₁ h₂
    omega

/-! ### The exponent that is aimed at -/

theorem mantissa_ofMantissaAndAccuracy (m : Nat) (a : Accuracy) :
    (ExtendedMantissa.ofMantissaAndAccuracy m a).mantissa = m := by
  cases a with
  | exact => rfl
  | inexact o => cases o <;> rfl

/-- The exponent at which a significand has all its bits. -/
def target (m : Nat) (e : Int) : Int := Format.binary64.targetExponent (totalExponent m e)

/-- The exponent that is aimed at puts the leading bit in its place, or is the smallest one. -/
theorem target_eq (m : Nat) (e : Int) : target m e = max (m.log2 + e - 52) (-1074) := by
  rw [target, targetExponent_binary64, totalExponent]
  omega

/-- A significand with all its bits is at least as fine as what is aimed at. -/
theorem le_target_of_large {m : Nat} (h : 2 ^ 52 ≤ m) (e : Int) : e ≤ target m e := by
  have := (Nat.le_log2 (lt_of_lt_of_le (by decide) h).ne').mpr h
  rw [target_eq]
  omega

section Shifting

variable {m : Nat} {e : Int} {a : Accuracy} {v : ℚ}

/-- A shift leads to the exponent that is aimed at, and keeps what is said about the value. -/
theorem exists_shiftToTargetExponent
    (hv : Represents (.ofMantissaAndAccuracy m a) (v / 2 ^ e)) (hfine : e ≤ target m e) :
    ∃ em, shiftToTargetExponent Format.binary64 m e a = (em, target m e) ∧
      Represents em (v / 2 ^ target m e) := by
  generalize hn : (target m e - e).toNat = n
  have hexponent : target m e = e + n := by omega
  refine ⟨ExtendedMantissa.ofMantissaAndAccuracy m a >>> n, ?_, ?_⟩
  · have htarget : Format.binary64.targetExponent (totalExponent m e) = target m e := rfl
    rw [shiftToTargetExponent, shiftToExponent, htarget, hn]
    simp only [hexponent]
  · have hunits : v / 2 ^ target m e = v / 2 ^ e / 2 ^ n := by
      rw [hexponent, zpow_add₀ two_ne_zero, zpow_natCast, div_div]
    rw [hunits]
    exact hv.shiftRight n

/-- The value has no bit above those of the exponent that is aimed at. -/
theorem lt_of_represents (hv : Represents (.ofMantissaAndAccuracy m a) (v / 2 ^ e)) :
    v < 2 ^ (target m e + 53) := by
  obtain ⟨-, hlt⟩ := hv.bounds
  rw [mantissa_ofMantissaAndAccuracy, div_lt_iff₀ (zpow_pos two_pos e)] at hlt
  have hm : (m : ℚ) + 1 ≤ 2 ^ (m.log2 + 1) := by exact_mod_cast Nat.lt_log2_self
  have hle : (m.log2 + 1 : Nat) + e ≤ target m e + 53 := by
    rw [target_eq]
    omega
  calc v < (m + 1) * 2 ^ e := hlt
    _ ≤ 2 ^ (m.log2 + 1) * 2 ^ e := mul_le_mul_of_nonneg_right hm (zpow_pos two_pos e).le
    _ = 2 ^ ((m.log2 + 1 : Nat) + e) := by rw [zpow_add₀ two_ne_zero, zpow_natCast]
    _ ≤ 2 ^ (target m e + 53) := zpow_le_zpow_right₀ one_le_two hle

/-- The value has the leading bit of the exponent that is aimed at, unless that is the smallest. -/
theorem le_of_represents (hv : Represents (.ofMantissaAndAccuracy m a) (v / 2 ^ e))
    (hfine : e ≤ target m e) (hlarge : -1074 < target m e) : 2 ^ (target m e + 52) ≤ v := by
  obtain ⟨hle, -⟩ := hv.bounds
  rw [mantissa_ofMantissaAndAccuracy, le_div_iff₀ (zpow_pos two_pos e)] at hle
  have htarget : target m e + 52 = m.log2 + e := by
    rw [target_eq] at hlarge ⊢
    omega
  have hm : m ≠ 0 := by
    rintro rfl
    rw [Nat.log2_zero] at htarget
    omega
  have hpow : (2 : ℚ) ^ m.log2 ≤ m := by exact_mod_cast Nat.log2_self_le hm
  calc (2 : ℚ) ^ (target m e + 52) = 2 ^ m.log2 * 2 ^ e := by
        rw [htarget, zpow_add₀ two_ne_zero, zpow_natCast]
    _ ≤ m * 2 ^ e := mul_le_mul_of_nonneg_right hpow (zpow_pos two_pos e).le
    _ ≤ v := hle

end Shifting

/-! ### Stored numbers and their intervals -/

/-- A significand and an exponent as they are stored: with the leading bit, or with the smallest
exponent. -/
structure Canonical (M : Nat) (E : Int) : Prop where
  /-- The number is not zero. -/
  pos : 0 < M
  /-- The significand fits. -/
  lt : M < 2 ^ 53
  /-- The exponent is not too small. -/
  le : -1074 ≤ E
  /-- The leading bit is there if it can be. -/
  leading : 2 ^ 52 ≤ M ∨ E = -1074

/-- **The interval of a stored number**, in units of its significand. -/
structure Nearest (M : Nat) (E : Int) (w : ℚ) : Prop where
  /-- Below a power of two, numbers stand half as far apart. -/
  low : (M : ℚ) - (if M = 2 ^ 52 ∧ -1074 < E then 1 / 4 else 1 / 2) ≤ w
  /-- The number above is a unit away. -/
  high : w ≤ M + 1 / 2
  /-- The ends belong to even numbers. -/
  ends : M % 2 = 1 → (M : ℚ) - 1 / 2 < w ∧ w < M + 1 / 2

/-- The interval starts at half a unit below the number, or later. -/
theorem Nearest.half_le {M : Nat} {E : Int} {w : ℚ} (h : Nearest M E w) :
    (M : ℚ) - 1 / 2 ≤ w := by
  have hlow := h.low
  split at hlow <;> linarith

/-! ### Rounding -/

/-- Rounding is a shift, and a second one if it has brought in another bit. -/
theorem roundWithAccuracy_of_shifts {m M : Nat} {e e' E : Int} {a : Accuracy}
    {em : ExtendedMantissa}
    (hfirst : shiftToTargetExponent Format.binary64 m e a = (em, e'))
    (hsecond : shiftToTargetExponent Format.binary64 em.roundedMantissa e' .exact =
      (⟨M, false, false⟩, E))
    (hM : 0 < M) (sign : Sign) :
    roundWithAccuracy Format.binary64 sign m e a = .finite sign M E hM := by
  rw [roundWithAccuracy]
  simp only [hfirst, hsecond, dif_neg hM.ne']

/-- A significand that fits is not shifted. -/
theorem shift_of_lt {M : Nat} {E : Int} (hM : M < 2 ^ 53) (hE : -1074 ≤ E) :
    shiftToTargetExponent Format.binary64 M E .exact = (⟨M, false, false⟩, E) := by
  have hlog : M.log2 ≤ 52 := by
    rcases Nat.eq_zero_or_pos M with rfl | hpos
    · simp
    · have := (Nat.log2_lt hpos.ne').mpr hM
      omega
  have htarget : (Format.binary64.targetExponent (totalExponent M E) - E).toNat = 0 := by
    change (target M E - E).toNat = 0
    rw [target_eq]
    omega
  rw [shiftToTargetExponent, shiftToExponent, htarget]
  simp only [Nat.cast_zero, Int.add_zero]
  rfl

theorem roundWithAccuracy_of_canonical {M : Nat} {E : Int} (h : Canonical M E) (sign : Sign) :
    roundWithAccuracy Format.binary64 sign M E .exact = .finite sign M E h.pos := by
  have hshift := shift_of_lt h.lt h.le
  exact roundWithAccuracy_of_shifts hshift hshift h.pos sign

/-- Another bit is shifted out again. -/
theorem shift_of_carry {E : Int} (h : -1074 < E) :
    shiftToTargetExponent Format.binary64 (2 ^ 53) (E - 1) .exact =
      (⟨2 ^ 52, false, false⟩, E) := by
  have htarget : Format.binary64.targetExponent (totalExponent (2 ^ 53) (E - 1)) = E := by
    change target (2 ^ 53) (E - 1) = E
    rw [target_eq, Nat.log2_two_pow]
    omega
  have hone : (E - (E - 1)).toNat = 1 := by omega
  rw [shiftToTargetExponent, shiftToExponent, htarget, hone]
  simp only [Nat.cast_one, Int.sub_add_cancel]
  rfl

section Aim

variable {M : Nat} {E t : Int} {v : ℚ}

/-- The number would have no room for the leading bit of a value that is aimed at in larger units.
-/
theorem Nearest.target_le (hnear : Nearest M E (v / 2 ^ E)) (hcanonical : Canonical M E)
    (hlower : -1074 < t → 2 ^ (t + 52) ≤ v) : t ≤ E := by
  by_contra hgt
  have hunit : (0 : ℚ) < 2 ^ E := zpow_pos two_pos E
  have hM : (M : ℚ) + 1 ≤ 2 ^ 53 := by exact_mod_cast hcanonical.lt
  have hhigh := (div_le_iff₀ hunit).mp hnear.high
  have hlow := hlower (lt_of_le_of_lt hcanonical.le (not_le.mp hgt))
  have hstep : (2 : ℚ) ^ (E + (53 : Nat)) ≤ 2 ^ (t + 52) :=
    zpow_le_zpow_right₀ one_le_two (by omega)
  -- So the value is at least `2 ^ 53` units, and the interval ends half a unit earlier.
  rw [zpow_add₀ two_ne_zero, zpow_natCast] at hstep
  nlinarith

/-- **Smaller units** are aimed at only just below a power of two, and then the next smaller ones.
-/
theorem Nearest.eq_pred_of_lt (hnear : Nearest M E (v / 2 ^ E)) (hcanonical : Canonical M E)
    (hupper : v < 2 ^ (t + 53)) (hsmallest : -1074 ≤ t) (hlt : t < E) :
    M = 2 ^ 52 ∧ t = E - 1 := by
  have hunit : (0 : ℚ) < 2 ^ E := zpow_pos two_pos E
  have hpow : ∀ n : Nat, (2 : ℚ) ^ (E + n) = 2 ^ n * 2 ^ E := fun n => by
    rw [zpow_add₀ two_ne_zero, zpow_natCast, mul_comm]
  have hleading := hcanonical.leading.resolve_right (by omega)
  have hM : M = 2 ^ 52 := by
    -- The interval of any larger significand starts above `2 ^ 52` units, where the value ends.
    by_contra hne
    have hM : (2 : ℚ) ^ 52 + 1 ≤ M := by exact_mod_cast (by omega : 2 ^ 52 + 1 ≤ M)
    have hle := (le_div_iff₀ hunit).mp hnear.half_le
    have hstep : (2 : ℚ) ^ (t + 53) ≤ 2 ^ (E + (52 : Nat)) :=
      zpow_le_zpow_right₀ one_le_two (by omega)
    rw [hpow] at hstep
    nlinarith
  subst hM
  refine ⟨rfl, ?_⟩
  -- That of the power itself starts a quarter of a unit below, far above half the power.
  by_contra hne
  have hlow := hnear.low
  rw [if_pos ⟨rfl, by omega⟩] at hlow
  have hle := (le_div_iff₀ hunit).mp hlow
  have hstep : (2 : ℚ) ^ (t + 53) ≤ 2 ^ (E + (51 : Nat)) :=
    zpow_le_zpow_right₀ one_le_two (by omega)
  rw [hpow] at hstep
  push_cast at hle
  nlinarith

/-- Just below a power of two, the value rounds to one bit more in the next smaller units. -/
theorem Nearest.roundedMantissa_eq {em : ExtendedMantissa}
    (hnear : Nearest (2 ^ 52) E (v / 2 ^ E)) (hE : -1074 < E)
    (hem : Represents em (v / 2 ^ (E - 1))) (hupper : v < 2 ^ (E - 1 + 53)) :
    em.roundedMantissa = 2 ^ 53 := by
  have hlow := hnear.low
  rw [if_pos ⟨rfl, hE⟩] at hlow
  have hunits : v / 2 ^ (E - 1) = 2 * (v / 2 ^ E) := by
    rw [zpow_sub_one₀ two_ne_zero]
    field_simp
  have hhigh : v / 2 ^ (E - 1) < 2 ^ 53 := by
    rw [div_lt_iff₀ (zpow_pos two_pos _)]
    calc v < 2 ^ (E - 1 + 53) := hupper
      _ = 2 ^ 53 * 2 ^ (E - 1) := by
        rw [zpow_add₀ two_ne_zero, mul_comm]
        rfl
  -- A quarter of the larger unit is half of the smaller one.
  refine hem.roundedMantissa_eq ?_ ?_ fun hodd => absurd hodd (by decide)
  · rw [hunits]
    push_cast at hlow ⊢
    linarith
  · push_cast
    linarith

end Aim

/-- **Every value in the interval of a stored number** is rounded to that number, if it is given in
units that are fine enough. -/
theorem roundWithAccuracy_eq {M m : Nat} {E e : Int} {a : Accuracy} {v : ℚ}
    (hcanonical : Canonical M E) (hnear : Nearest M E (v / 2 ^ E))
    (hv : Represents (.ofMantissaAndAccuracy m a) (v / 2 ^ e)) (hfine : e ≤ target m e)
    (sign : Sign) :
    roundWithAccuracy Format.binary64 sign m e a = .finite sign M E hcanonical.pos := by
  obtain ⟨em, hfirst, hem⟩ := exists_shiftToTargetExponent hv hfine
  have hupper := lt_of_represents hv
  have hlower := le_of_represents hv hfine
  have hsmallest : -1074 ≤ target m e := by
    rw [target_eq]
    omega
  generalize target m e = t at *
  rcases (hnear.target_le hcanonical hlower).eq_or_lt with rfl | hlt
  · -- The exponent is that of the number, and nothing is left to shift.
    refine roundWithAccuracy_of_shifts hfirst ?_ hcanonical.pos sign
    rw [hem.roundedMantissa_eq hnear.half_le hnear.high hnear.ends]
    exact shift_of_lt hcanonical.lt hcanonical.le
  · -- The value is just below a power of two, and rounding carries.
    obtain ⟨rfl, rfl⟩ := hnear.eq_pred_of_lt hcanonical hupper hsmallest hlt
    have hE : -1074 < E := by omega
    refine roundWithAccuracy_of_shifts hfirst ?_ hcanonical.pos sign
    rw [hnear.roundedMantissa_eq hE hem hupper]
    exact shift_of_carry hE

/-! ### Products and quotients -/

section Operations

variable {M m₁ m₂ : Nat} {E e₁ e₂ : Int}

/-- The product of the significands is the product in units of both factors. -/
theorem represents_product (m₁ m₂ : Nat) (e₁ e₂ : Int) :
    Represents (.ofMantissaAndAccuracy (m₁ * m₂) .exact)
      (m₁ * 2 ^ e₁ * (m₂ * 2 ^ e₂) / 2 ^ (e₁ + e₂) : ℚ) := by
  have hunits : (m₁ * 2 ^ e₁ * (m₂ * 2 ^ e₂) / 2 ^ (e₁ + e₂) : ℚ) = (m₁ * m₂ : Nat) := by
    have h₁ : (2 : ℚ) ^ e₁ ≠ 0 := (zpow_pos two_pos _).ne'
    have h₂ : (2 : ℚ) ^ e₂ ≠ 0 := (zpow_pos two_pos _).ne'
    rw [zpow_add₀ two_ne_zero]
    push_cast
    field_simp
  rw [hunits]
  exact .of_exact _

/-- **A product** is rounded to the number whose interval it lies in. -/
theorem mul_eq (hcanonical : Canonical M E) (h₁ : 0 < m₁) (h₂ : 0 < m₂)
    (hlarge : 2 ^ 52 ≤ m₁ * m₂) (hnear : Nearest M E (m₁ * 2 ^ e₁ * (m₂ * 2 ^ e₂) / 2 ^ E)) :
    UnpackedFloat.mul Format.binary64 (.finite .positive m₁ e₁ h₁) (.finite .positive m₂ e₂ h₂) =
      .finite .positive M E hcanonical.pos := by
  exact roundWithAccuracy_eq hcanonical hnear (represents_product m₁ m₂ e₁ e₂)
    (le_target_of_large hlarge _) .positive

/-- The quotient has all its bits in the units that the machine divides in. -/
theorem le_target_quotient (h₁ : 0 < m₁) (h₂ : 0 < m₂) {t : Int}
    (ht : t = min (e₁ - e₂) (Format.binary64.targetExponent
      (totalExponent m₁ e₁ - totalExponent m₂ e₂))) :
    t ≤ target (m₁ <<< (e₁ - e₂ - t).toNat / m₂) t := by
  rw [targetExponent_binary64, totalExponent, totalExponent] at ht
  rw [target_eq]
  by_cases hsmall : t ≤ -1074
  · omega
  · -- The dividend is shifted until it has more than fifty-two bits above those of the divisor.
    generalize hn : (e₁ - e₂ - t).toNat = n
    have hbits : m₂.log2 + 53 ≤ m₁.log2 + n := by omega
    have hquotient : 2 ^ 52 ≤ m₁ <<< n / m₂ := by
      rw [Nat.le_div_iff_mul_le h₂, Nat.shiftLeft_eq]
      calc 2 ^ 52 * m₂ ≤ 2 ^ 52 * 2 ^ (m₂.log2 + 1) := Nat.mul_le_mul_left _ Nat.lt_log2_self.le
        _ = 2 ^ (m₂.log2 + 53) := by rw [← pow_add]; congr 1; omega
        _ ≤ 2 ^ (m₁.log2 + n) := Nat.pow_le_pow_right two_pos hbits
        _ = 2 ^ m₁.log2 * 2 ^ n := pow_add _ _ _
        _ ≤ m₁ * 2 ^ n := Nat.mul_le_mul_right _ (Nat.log2_self_le h₁.ne')
    have hlog := (Nat.le_log2 (lt_of_lt_of_le (by decide) hquotient).ne').mpr hquotient
    omega

/-- The quotient of the shifted dividend is the quotient in the units that the machine divides in.
-/
theorem represents_shifted_quotient (h₂ : 0 < m₂) {t : Int} (ht : t ≤ e₁ - e₂) :
    Represents (.ofMantissaAndAccuracy (m₁ <<< (e₁ - e₂ - t).toNat / m₂)
        (accuracyOfFraction (m₁ <<< (e₁ - e₂ - t).toNat % m₂) m₂))
      (m₁ * 2 ^ e₁ / (m₂ * 2 ^ e₂) / 2 ^ t) := by
  have hunits : (m₁ * 2 ^ e₁ / (m₂ * 2 ^ e₂) / 2 ^ t : ℚ) =
      (m₁ <<< (e₁ - e₂ - t).toNat : Nat) / m₂ := by
    have hshift : e₁ = (e₁ - e₂ - t).toNat + e₂ + t := by omega
    have hm₂ : (m₂ : ℚ) ≠ 0 := by exact_mod_cast h₂.ne'
    have h₂ : (2 : ℚ) ^ e₂ ≠ 0 := (zpow_pos two_pos _).ne'
    have ht : (2 : ℚ) ^ t ≠ 0 := (zpow_pos two_pos _).ne'
    rw [Nat.shiftLeft_eq]
    push_cast
    generalize (e₁ - e₂ - t).toNat = n at hshift
    rw [hshift, zpow_add₀ two_ne_zero, zpow_add₀ two_ne_zero, zpow_natCast]
    field_simp
  rw [hunits]
  exact represents_quotient _ h₂

/-- **A quotient** is rounded to the number whose interval it lies in. -/
theorem div_eq (hcanonical : Canonical M E) (h₁ : 0 < m₁) (h₂ : 0 < m₂)
    (hnear : Nearest M E (m₁ * 2 ^ e₁ / (m₂ * 2 ^ e₂) / 2 ^ E)) :
    UnpackedFloat.div Format.binary64 (.finite .positive m₁ e₁ h₁) (.finite .positive m₂ e₂ h₂) =
      .finite .positive M E hcanonical.pos := by
  rw [UnpackedFloat.div, divCore]
  generalize ht : min (e₁ - e₂) (Format.binary64.targetExponent
    (totalExponent m₁ e₁ - totalExponent m₂ e₂)) = t
  refine roundWithAccuracy_eq hcanonical hnear ?_ (le_target_quotient h₁ h₂ ht.symm) .positive
  exact represents_shifted_quotient h₂ (by omega)

end Operations

end Rounding

end PinnedBench
