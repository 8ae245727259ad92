import Mathlib
import PinnedBench.Decimal.Fixed
import PinnedBench.Proofs.Double.Rounding
import PinnedBench.Proofs.Double.Values
import PinnedBench.Proofs.Json.Numbers

/-!
# What is printed with a fixed count of places

`Double.fixed places x` prints the exact value of a finite number, rounded to the nearest multiple
of `10 ^ -places`, a half going to the even one (`Double.fixed_eq`). So what is printed is off by
half a unit of the last place at most, and numbers that are printed alike are not more than one such
unit apart (`Double.abs_value_sub_le_of_fixed_eq`).

The rounding is done in whole numbers. That it is `Rounding.nearestWhole` of the exact value
(`roundHalfEven_eq`, `Double.scaledUnits_eq`) is where the fraction comes in. The text is cut from
the digits of the rounded number by counting, and that the cut is where the point belongs is an
induction on the count of places (`Double.paddedDigits_eq`).
-/

namespace PinnedBench

open Rounding

/-! ### Rounding quotients -/

/-- **Rounding a quotient of whole numbers.** Twice the rest is compared with the divisor, and that
is the comparison of the fractional part with a half. -/
theorem roundHalfEven_eq (num : Nat) {den : Nat} (hden : 0 < den) :
    (roundHalfEven num den : Int) = nearestWhole (num / den) := by
  have hpos : (0 : ℚ) < den := by exact_mod_cast hden
  have hsum : (num : ℚ) = den * (num / den : Nat) + (num % den : Nat) := by
    exact_mod_cast (Nat.div_add_mod num den).symm
  have hless : num % den < den := Nat.mod_lt num hden
  rw [hsum, add_div, mul_div_cancel_left₀ _ hpos.ne', roundHalfEven]
  generalize num / den = q at *
  generalize num % den = r at *
  have hlow : (0 : ℚ) ≤ r / den := by positivity
  have hhigh : (r : ℚ) / den < 1 := (div_lt_one hpos).mpr (by exact_mod_cast hless)
  -- The three cases of the comparison: below the middle, above it, or in it.
  cases hcompare : compare (2 * r) den with
  | lt =>
    have hhalf : (r : ℚ) / den < 1 / 2 := by
      have htwice := Nat.compare_eq_lt.mp hcompare
      rw [div_lt_div_iff₀ hpos two_pos]
      exact_mod_cast (by omega : r * 2 < 1 * den)
    refine (nearestWhole_of_abs_lt (abs_lt.mpr ⟨?_, ?_⟩)).symm <;> push_cast <;> linarith
  | gt =>
    have hhalf : 1 / 2 < (r : ℚ) / den := by
      have htwice := Nat.compare_eq_gt.mp hcompare
      rw [div_lt_div_iff₀ two_pos hpos]
      exact_mod_cast (by omega : 1 * den < r * 2)
    refine (nearestWhole_of_abs_lt (abs_lt.mpr ⟨?_, ?_⟩)).symm <;> push_cast <;> linarith
  | eq =>
    have hhalf : (r : ℚ) / den = 1 / 2 := by
      have htwice := Nat.compare_eq_eq.mp hcompare
      rw [div_eq_div_iff hpos.ne' two_ne_zero]
      exact_mod_cast (by omega : r * 2 = 1 * den)
    have hmiddle : nearestWhole ((q : ℚ) + 1 / 2) = q + (q : Int) % 2 := nearestWhole_middle q
    rw [hhalf, hmiddle]
    dsimp only
    split <;> push_cast <;> omega

/-- Numbers with the same nearest whole number are not more than one apart. -/
theorem abs_sub_le_one_of_nearestWhole_eq {v w : ℚ} (h : nearestWhole v = nearestWhole w) :
    |v - w| ≤ 1 := by
  have hv := abs_sub_nearestWhole_le v
  have hw := abs_sub_nearestWhole_le w
  rw [abs_sub_comm, ← h] at hw
  linarith [abs_sub_le v (nearestWhole v) w]

/-- A text that begins with digits does not begin with a minus. -/
theorem Json.IsWholePart.cons_minus_ne {ds rest rest' : List Char}
    (hds : Json.IsWholePart ds) : '-' :: rest' ≠ ds ++ rest := by
  obtain ⟨c, cs, rfl⟩ := List.exists_cons_of_ne_nil hds.ne_nil
  intro h
  have hc := hds.isDigit c List.mem_cons_self
  rw [← (List.cons.inj h).1] at hc
  exact absurd hc (by decide)

namespace Double

/-- **The units that are printed** are the exact value in units of the last place, rounded to the
nearest whole number. A scale below zero divides, any other one multiplies, so one of the two powers
of two is always one. -/
theorem scaledUnits_eq (places : Nat) (x : Double) :
    (x.scaledUnits places : Int) = nearestWhole (x.size * 10 ^ places) := by
  have hpower : (2 : ℚ) ^ x.scale = 2 ^ x.scale.toNat / 2 ^ (-x.scale).toNat := by
    rw [← zpow_natCast, ← zpow_natCast, ← zpow_sub₀ two_ne_zero]
    congr 1
    omega
  rw [scaledUnits, roundHalfEven_eq _ (powerOfTwo_pos _), size, hpower]
  congr 1
  have hten : powerOfTen places = 10 ^ places := rfl
  have htwo : ∀ n, powerOfTwo n = 2 ^ n := fun _ => rfl
  rw [hten, htwo, htwo]
  push_cast
  ring

/-! ### Cutting the digits -/

/-- One more place takes one more digit from the end of the number. -/
theorem paddedDigits_succ (places units : Nat) : paddedDigits (places + 1) units =
    paddedDigits places (units / 10) ++ [(units % 10).digitChar] := by
  rcases Nat.lt_or_ge units 10 with hlt | hge
  · -- There is one digit, and what stands before it are zeros.
    rw [paddedDigits, paddedDigits, Nat.div_eq_of_lt hlt, Nat.mod_eq_of_lt hlt,
      Nat.toDigits_of_lt_base hlt, Nat.toDigits_zero]
    simp [List.replicate_succ']
  · rw [paddedDigits, paddedDigits, Nat.toDigits_of_base_le (by decide) hge]
    simp

/-- **Where the point belongs.** The padded digits are those of the whole part, and behind them as
many digits as there are places, which tell what is left. The induction is on the places: each one
takes the last digit off. -/
theorem paddedDigits_eq (places units : Nat) : ∃ fraction : List Char,
    paddedDigits places units = Nat.toDigits 10 (units / 10 ^ places) ++ fraction ∧
      fraction.length = places ∧ (∀ c ∈ fraction, c.isDigit = true) ∧
      Nat.ofDigitChars 10 fraction 0 = units % 10 ^ places := by
  induction places generalizing units with
  | zero =>
    have hpos : 0 < (Nat.toDigits 10 units).length := List.length_pos_iff.mpr Nat.toDigits_ne_nil
    refine ⟨[], ?_, rfl, by simp, by simp [Nat.mod_one]⟩
    rw [paddedDigits, Nat.sub_eq_zero_of_le hpos]
    simp
  | succ places ih =>
    obtain ⟨fraction, hpadded, hlength, hdigits, hvalue⟩ := ih (units / 10)
    refine ⟨fraction ++ [(units % 10).digitChar], ?_, by simp [hlength], ?_, ?_⟩
    · rw [paddedDigits_succ, hpadded, Nat.div_div_eq_div_mul, ← Nat.pow_succ', List.append_assoc]
    · intro c hc
      rcases List.mem_append.mp hc with h | h
      · exact hdigits c h
      · rw [List.mem_singleton.mp h, Nat.isDigit_digitChar, decide_eq_true_eq]
        exact Nat.mod_lt units (by decide)
    · have hdigit : units % 10 < 10 := Nat.mod_lt units (by decide)
      rw [Nat.ofDigitChars_append, hvalue, Nat.ofDigitChars_cons_digitChar_of_lt_ten hdigit,
        Nat.ofDigitChars_nil, Nat.pow_succ', Nat.mod_mul, Nat.add_comm]

/-- The text of some units: the digits of the whole part, the point, and the digits behind it. -/
theorem unitsChars_eq {places : Nat} (hplaces : 0 < places) (units : Nat) :
    ∃ fraction : List Char,
      unitsChars places units = Nat.toDigits 10 (units / 10 ^ places) ++ '.' :: fraction ∧
        fraction.length = places ∧ (∀ c ∈ fraction, c.isDigit = true) ∧
        Nat.ofDigitChars 10 fraction 0 = units % 10 ^ places := by
  obtain ⟨fraction, hpadded, hlength, hrest⟩ := paddedDigits_eq places units
  refine ⟨fraction, ?_, hlength, hrest⟩
  have hcut : (paddedDigits places units).length - places =
      (Nat.toDigits 10 (units / 10 ^ places)).length := by
    rw [hpadded, List.length_append, hlength, Nat.add_sub_cancel]
  simp only [unitsChars, if_neg hplaces.ne', hcut]
  rw [hpadded, List.take_left, List.drop_left]

/-! ### What is printed -/

variable {x : Double} {places : Nat}

/-- **What is printed of a finite number.** First comes a minus if the sign is set, also for a
number that is rounded to zero. Then come the digits of the whole part, which begin with a zero only
if they are nothing else, a point, and as many digits as there are places. Without the point the
digits are those of the exact value in units of the last place, rounded to the nearest whole number,
of two that are equally near to the even one. -/
theorem fixed_eq (hfinite : x.isFinite = true) (hplaces : 0 < places) :
    ∃ whole fraction : List Char,
      x.fixed places = String.ofList
        ((if x.isNegative then ['-'] else []) ++ (whole ++ '.' :: fraction)) ∧
      Json.IsWholePart whole ∧ fraction.length = places ∧ (∀ c ∈ fraction, c.isDigit = true) ∧
      (Nat.ofDigitChars 10 (whole ++ fraction) 0 : Int) = nearestWhole (x.size * 10 ^ places) := by
  obtain ⟨fraction, htext, hlength, hdigits, hvalue⟩ :=
    unitsChars_eq hplaces (x.scaledUnits places)
  refine ⟨Nat.toDigits 10 (x.scaledUnits places / 10 ^ places), fraction, ?_,
    Json.isWholePart_toDigits _, hlength, hdigits, ?_⟩
  · rw [fixed, isUndefined_of_isFinite hfinite, hfinite, htext]
    cases x.isNegative <;> rfl
  · rw [← scaledUnits_eq]
    congr 1
    rw [Nat.ofDigitChars_append, Nat.ofDigitChars_ten_toDigits,
      Nat.ofDigitChars_eq_ofDigitChars_zero, hvalue, hlength, Nat.div_add_mod]

/-- Numbers on one side of zero are as far apart as their sizes. -/
theorem abs_value_sub {y : Double} (h : x.isNegative = y.isNegative) :
    |x.value - y.value| = |x.size - y.size| := by
  rw [value, value, h]
  cases y.isNegative
  · rfl
  · exact (congrArg abs (neg_sub_neg x.size y.size)).trans (abs_sub_comm _ _)

/-- **Numbers that are printed alike** have the same sign bit, and they are not more than one unit
of the last place apart: each of them is within half a unit of what is printed. -/
theorem abs_value_sub_le_of_fixed_eq {y : Double} (hx : x.isFinite = true) (hy : y.isFinite = true)
    (hplaces : 0 < places) (h : x.fixed places = y.fixed places) :
    x.isNegative = y.isNegative ∧ |x.value - y.value| ≤ 1 / 10 ^ places := by
  obtain ⟨whole, fraction, htext, hwhole, hlength, -, hvalue⟩ := fixed_eq hx hplaces
  obtain ⟨whole', fraction', htext', hwhole', hlength', -, hvalue'⟩ := fixed_eq hy hplaces
  rw [htext, htext', String.ofList_inj] at h
  -- No digit is a minus, so the sign can be seen from the first character.
  have hsign : x.isNegative = y.isNegative := by
    cases hnx : x.isNegative <;> cases hny : y.isNegative
    · rfl
    · exact absurd (by simpa [hnx, hny] using h.symm) hwhole.cons_minus_ne
    · exact absurd (by simpa [hnx, hny] using h) hwhole'.cons_minus_ne
    · rfl
  rw [hsign, List.append_cancel_left_eq] at h
  -- The digits behind the point are as many on both sides, so the parts agree one by one.
  obtain ⟨rfl, hrest⟩ := List.append_inj' h (by simp [hlength, hlength'])
  obtain rfl : fraction = fraction' := (List.cons.inj hrest).2
  have hnearest : nearestWhole (x.size * 10 ^ places) = nearestWhole (y.size * 10 ^ places) :=
    hvalue.symm.trans hvalue'
  refine ⟨hsign, ?_⟩
  have hpower : (0 : ℚ) < 10 ^ places := by positivity
  rw [abs_value_sub hsign, le_div_iff₀ hpower]
  calc |x.size - y.size| * 10 ^ places = |x.size * 10 ^ places - y.size * 10 ^ places| := by
        rw [← sub_mul, abs_mul, abs_of_pos hpower]
    _ ≤ 1 := abs_sub_le_one_of_nearestWhole_eq hnearest

end Double

end PinnedBench
