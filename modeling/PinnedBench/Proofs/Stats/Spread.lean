import Mathlib
import PinnedBench.Proofs.Stats.Compensation
import PinnedBench.Proofs.Stats.Positions

/-!
# The spread of stored samples

The deviation of finite samples is not below zero as it is stored, and neither is their coefficient
of variation (`Statistics.zero_le_spread`), however many samples there are and however large.

Both are square roots and quotients of numbers that are not below zero, so that the one thing to be
shown is that each of them is a number. A mean is finite (`isFinite_sampleMean`): where the plain
one leaves the range, the mean in units of the largest magnitude is at most one. Squared deviations
that leave the range are taken again in these units, and there they are small, since the mean is not
much larger than the largest sample (`abs_sampleMean_le_mul`).
-/

namespace PinnedBench

open Rounding

variable {samples : List Double} {q : Int}

/-! ### The unit -/

/-- **The unit** is finite, and no sample is larger. -/
theorem largestMagnitude_spec (hfinite : ∀ x ∈ samples, x.isFinite = true) :
    (largestMagnitude samples).isFinite = true ∧ 0 ≤ (largestMagnitude samples).value ∧
      ∀ x ∈ samples, |x.value| ≤ (largestMagnitude samples).value := by
  -- The unit is the largest of a list of numbers that begins with zero.
  have hfold : largestMagnitude samples =
      (samples.map magnitude).foldl Double.maximum ((0 : Nat) : Double) := by
    rw [List.foldl_map]
    rfl
  have hdefined : ∀ y ∈ samples.map magnitude, y.isUndefined = false := by
    intro y hy
    obtain ⟨x, hx, rfl⟩ := List.mem_map.mp hy
    exact Double.isUndefined_of_isFinite (Double.isFinite_magnitude.trans (hfinite x hx))
  obtain ⟨hmem, hbound⟩ :=
    Double.foldl_maximum (Double.isUndefined_of_isFinite isFinite_zero) hdefined
  rw [← hfold] at hmem hbound
  refine ⟨?_, ?_, fun x hx => ?_⟩
  · -- It is zero or the magnitude of a sample, and either is finite.
    rcases List.mem_cons.mp hmem with h | h
    · rw [h]
      exact isFinite_zero
    · obtain ⟨x, hx, hmagnitude⟩ := List.mem_map.mp h
      rw [← hmagnitude]
      exact Double.isFinite_magnitude.trans (hfinite x hx)
  · exact Double.value_nonneg (hbound _ List.mem_cons_self)
  · rw [← Double.value_magnitude]
    exact Double.value_le_of_le (hbound _ (List.mem_cons_of_mem _ (List.mem_map_of_mem hx)))

/-- Samples in units of the largest magnitude are finite and at most one. -/
theorem scaled_spec (hfinite : ∀ x ∈ samples, x.isFinite = true)
    (hunit : 0 < (largestMagnitude samples).value) :
    ∀ y ∈ samples.map (· / largestMagnitude samples), y.isFinite = true ∧ |y.value| ≤ 1 := by
  obtain ⟨hunitfinite, -, hbound⟩ := largestMagnitude_spec hfinite
  intro y hy
  obtain ⟨x, hx, rfl⟩ := List.mem_map.mp hy
  have hrounds := Double.rounds_div (hfinite x hx) hunitfinite hunit.ne'
  -- The quotient is at most one, and rounding does not cross one.
  have hle : |x.value / (largestMagnitude samples).value| ≤ 1 := by
    rw [abs_div, abs_of_pos hunit]
    exact div_le_one_of_le₀ (hbound x hx) hunit.le
  have hresult := hrounds.finite
    (Double.inRange_of_abs_le_storable storable_one hle (one_lt_zpow₀ one_lt_two (by decide)))
  exact ⟨hresult, (hrounds.value_eq hresult) ▸ abs_rounded_le storable_one hle⟩

/-! ### The mean -/

/-- **The plain mean** of samples that are not too large is finite. -/
theorem plainMean_spec (h : samples ≠ []) (hlow : -1074 ≤ q) (hhigh : q ≤ 969)
    (hsamples : ∀ x ∈ samples, x.isFinite = true ∧ |x.value| ≤ 2 ^ q) :
    (plainMean samples).isFinite = true ∧ |(plainMean samples).value| ≤ 2 ^ (q + 54) := by
  -- The sum is finite, and dividing it by a count makes it no larger.
  obtain ⟨hsum, hle⟩ := isFinite_stableSum hlow hhigh hsamples
  obtain ⟨hquotient, hsmaller, -⟩ :=
    Double.isFinite_div_natCast hsum (List.length_pos_iff.mpr h)
  exact ⟨hquotient, hsmaller.trans hle⟩

/-- **The mean in units of the largest magnitude** is finite and not larger than this. -/
theorem scaledMean_spec (h : samples ≠ []) (hfinite : ∀ x ∈ samples, x.isFinite = true)
    (hunit : 0 < (largestMagnitude samples).value) :
    (scaledMean samples).isFinite = true ∧
      |(scaledMean samples).value| ≤ (largestMagnitude samples).value := by
  have hunitfinite := (largestMagnitude_spec hfinite).1
  obtain ⟨hsum, hle⟩ := abs_stableSum_le (scaled_spec hfinite hunit)
  rw [List.length_map] at hle
  obtain ⟨hquotient, -, hone⟩ := Double.isFinite_div_natCast hsum (List.length_pos_iff.mpr h)
  have hrounds := Double.rounds_mul hquotient hunitfinite
  -- The mean is at most one, so the product is at most the unit.
  have hproduct := mul_le_mul_of_nonneg_right (hone hle) hunit.le
  rw [one_mul, ← abs_of_pos hunit, ← abs_mul, abs_of_pos hunit] at hproduct
  have hstorable := (largestMagnitude samples).storable_value
  have hrange := Double.abs_value_lt hunitfinite
  rw [abs_of_pos hunit] at hrange
  have hresult := hrounds.finite (Double.inRange_of_abs_le_storable hstorable hproduct hrange)
  refine ⟨hresult, ?_⟩
  rw [scaledMean, hrounds.value_eq hresult]
  exact abs_rounded_le hstorable hproduct

/-- The mean is the plain one unless that is not finite; then there is a unit. -/
theorem sampleMean_cases (h : samples ≠ []) (hfinite : ∀ x ∈ samples, x.isFinite = true) :
    ((plainMean samples).isFinite = true ∧ sampleMean samples = plainMean samples) ∨
      0 < (largestMagnitude samples).value ∧ sampleMean samples = scaledMean samples := by
  rw [sampleMean]
  split
  next hplain => exact .inl ⟨hplain, rfl⟩
  next hplain =>
    refine .inr ⟨?_, rfl⟩
    -- Samples without a unit are zeros, whose plain mean would have been finite.
    by_contra hnone
    obtain ⟨-, -, hbound⟩ := largestMagnitude_spec hfinite
    refine hplain (plainMean_spec (q := 0) h (by decide) (by decide) fun x hx =>
      ⟨hfinite x hx, ?_⟩).1
    rw [zpow_zero]
    exact (hbound x hx).trans ((not_lt.mp hnone).trans zero_le_one)

/-- **The mean** of finite samples is finite. -/
theorem isFinite_sampleMean (h : samples ≠ []) (hfinite : ∀ x ∈ samples, x.isFinite = true) :
    (sampleMean samples).isFinite = true := by
  rcases sampleMean_cases h hfinite with ⟨hplain, hmean⟩ | ⟨hunit, hmean⟩
  · rw [hmean]
    exact hplain
  · rw [hmean]
    exact (scaledMean_spec h hfinite hunit).1

theorem abs_sampleMean_le (h : samples ≠ []) (hlow : -1074 ≤ q) (hhigh : q ≤ 969)
    (hsamples : ∀ x ∈ samples, x.isFinite = true ∧ |x.value| ≤ 2 ^ q) :
    |(sampleMean samples).value| ≤ 2 ^ (q + 54) := by
  obtain ⟨hplain, hle⟩ := plainMean_spec h hlow hhigh hsamples
  have hmean : sampleMean samples = plainMean samples := if_pos hplain
  rwa [hmean]

/-- **The mean is not much larger** than the largest sample. -/
theorem abs_sampleMean_le_mul (h : samples ≠ []) (hfinite : ∀ x ∈ samples, x.isFinite = true)
    (hunit : 0 < (largestMagnitude samples).value) :
    |(sampleMean samples).value| ≤ 2 ^ (55 : Int) * (largestMagnitude samples).value := by
  obtain ⟨hunitfinite, -, hbound⟩ := largestMagnitude_spec hfinite
  rcases sampleMean_cases h hfinite with ⟨hplain, hmean⟩ | ⟨-, hmean⟩
  · -- The powers of two around the unit.
    generalize hq : Int.clog 2 (largestMagnitude samples).value = q
    have habove : (largestMagnitude samples).value ≤ 2 ^ q :=
      hq ▸ Int.self_le_zpow_clog one_lt_two _
    have hbelow : 2 ^ (q - 1) < (largestMagnitude samples).value :=
      hq ▸ Int.zpow_pred_clog_lt_self one_lt_two hunit
    -- In the middle of the range the plain mean has a bound; above it any finite number will do.
    rcases le_or_gt q 969 with hsmall | hlarge
    · have hlow : -1074 ≤ q := (zpow_le_zpow_iff_right₀ one_lt_two).mp
        (((largestMagnitude samples).storable_value.le_of_pos hunit).trans habove)
      have hle := abs_sampleMean_le h hlow hsmall fun x hx =>
        ⟨hfinite x hx, (hbound x hx).trans habove⟩
      calc |(sampleMean samples).value| ≤ 2 ^ (q + 54) := hle
        _ = 2 ^ (55 : Int) * 2 ^ (q - 1) := by rw [← zpow_add₀ two_ne_zero]; congr 1; ring
        _ ≤ 2 ^ (55 : Int) * (largestMagnitude samples).value :=
          mul_le_mul_of_nonneg_left hbelow.le (by positivity)
    · have hrange := Double.abs_value_lt (isFinite_sampleMean h hfinite)
      calc |(sampleMean samples).value| ≤ 2 ^ (1024 : Int) := hrange.le
        _ = 2 ^ (55 : Int) * 2 ^ (969 : Int) := by rw [← zpow_add₀ two_ne_zero]; rfl
        _ ≤ 2 ^ (55 : Int) * 2 ^ (q - 1) := mul_le_mul_of_nonneg_left
          (zpow_le_zpow_right₀ one_le_two (by omega)) (by positivity)
        _ ≤ 2 ^ (55 : Int) * (largestMagnitude samples).value :=
          mul_le_mul_of_nonneg_left hbelow.le (by positivity)
  · rw [hmean]
    refine (scaledMean_spec h hfinite hunit).2.trans (le_mul_of_one_le_left hunit.le ?_)
    exact one_le_zpow₀ one_le_two (by decide)

/-! ### Squared deviations -/

/-- Finite squared deviations are not below zero. -/
theorem zero_le_squaredDeviations {mean : Double}
    (h : (squaredDeviations mean samples).isFinite = true) :
    ((0 : Nat) : Double) ≤ squaredDeviations mean samples := by
  refine Double.zero_le_of_value h (stableSum_nonneg h ?_)
  intro y hy hfinite
  obtain ⟨x, -, rfl⟩ := List.mem_map.mp hy
  exact Double.value_mul_self_nonneg hfinite

/-- **Squared deviations** from a mean that is not too large, of samples that are not, are finite.
-/
theorem isFinite_squaredDeviations {mean : Double} (hlow : 0 ≤ q) (hhigh : 2 * q ≤ 967)
    (hsamples : ∀ x ∈ samples, x.isFinite = true ∧ |x.value| ≤ 2 ^ q) (hmean : mean.isFinite = true)
    (hle : |mean.value| ≤ 2 ^ q) : (squaredDeviations mean samples).isFinite = true := by
  refine (isFinite_stableSum (q := 2 * q + 2) (by omega) (by omega) ?_).1
  intro y hy
  obtain ⟨x, hx, rfl⟩ := List.mem_map.mp hy
  obtain ⟨hfinite, hbound⟩ := hsamples x hx
  -- Each sample is not far from the mean,
  have hdifference : |x.value - mean.value| ≤ 2 ^ (q + 1) := by
    rw [zpow_add_one₀ two_ne_zero, mul_two]
    exact (abs_sub _ _).trans (add_le_add hbound hle)
  have hsub := Double.rounds_sub hfinite hmean
  have hsubfinite := hsub.finite (Double.inRange_of_abs_le hdifference (by omega) (by omega))
  -- and the square of what is stored of that is far below the end of the range.
  have hsquare : |(x - mean).value * (x - mean).value| ≤ 2 ^ (2 * q + 2) := by
    have hrounded : |(x - mean).value| ≤ 2 ^ (q + 1) :=
      hsub.value_eq hsubfinite ▸ abs_rounded_le (storable_two_zpow (by omega)) hdifference
    rw [abs_mul, show 2 * q + 2 = q + 1 + (q + 1) by ring, zpow_add₀ two_ne_zero]
    exact mul_le_mul hrounded hrounded (abs_nonneg _) (by positivity)
  have hmul := Double.rounds_mul hsubfinite hsubfinite
  have hmulfinite := hmul.finite (Double.inRange_of_abs_le hsquare (by omega) (by omega))
  refine ⟨hmulfinite, ?_⟩
  rw [square, hmul.value_eq hmulfinite]
  exact abs_rounded_le (storable_two_zpow (by omega)) hsquare

/-- **Squared deviations in units of the largest magnitude** are finite. -/
theorem isFinite_scaledDeviations (h : samples ≠ []) (hfinite : ∀ x ∈ samples, x.isFinite = true)
    (hunit : 0 < (largestMagnitude samples).value) :
    (squaredDeviations (sampleMean samples / largestMagnitude samples)
      (samples.map (· / largestMagnitude samples))).isFinite = true := by
  have hunitfinite := (largestMagnitude_spec hfinite).1
  have hrounds := Double.rounds_div (isFinite_sampleMean h hfinite) hunitfinite hunit.ne'
  -- The mean in units is at most `2 ^ 55`, and so its square leaves room for any number of samples.
  have hle : |(sampleMean samples).value / (largestMagnitude samples).value| ≤ 2 ^ (55 : Int) := by
    rw [abs_div, abs_of_pos hunit, div_le_iff₀ hunit]
    exact abs_sampleMean_le_mul h hfinite hunit
  have hresult := hrounds.finite (Double.inRange_of_abs_le hle (by decide) (by decide))
  refine isFinite_squaredDeviations (q := 55) (by decide) (by decide) (fun y hy => ?_) hresult ?_
  · obtain ⟨hy, hone⟩ := scaled_spec hfinite hunit y hy
    exact ⟨hy, hone.trans (one_le_zpow₀ one_le_two (by decide))⟩
  · rw [hrounds.value_eq hresult]
    exact abs_rounded_le (storable_two_zpow (by decide)) hle

/-! ### Deviation and variation -/

/-- **The deviation** of finite samples is not below zero. -/
theorem zero_le_sampleDeviation (h : samples ≠ []) (hfinite : ∀ x ∈ samples, x.isFinite = true) :
    ((0 : Nat) : Double) ≤ sampleDeviation (sampleMean samples) samples := by
  rw [sampleDeviation]
  split
  next hmany =>
    have hfreedom : 0 < samples.length - 1 := by omega
    dsimp only
    split
    next hsquares =>
      -- The squares are finite, so the deviation is a root of a quotient by a count.
      exact Double.zero_le_squareRoot (Double.zero_le_div_natCast hsquares
        (zero_le_squaredDeviations hsquares) hfreedom)
    next hsquares =>
      obtain ⟨hunitfinite, -, hbound⟩ := largestMagnitude_spec hfinite
      -- Without a unit the samples would be small, and so would be their squared deviations.
      have hunit : 0 < (largestMagnitude samples).value := by
        by_contra hnone
        have hsmall : ∀ x ∈ samples, x.isFinite = true ∧ |x.value| ≤ 2 ^ (0 : Int) := fun x hx =>
          ⟨hfinite x hx, (hbound x hx).trans ((not_lt.mp hnone).trans (by norm_num))⟩
        refine hsquares (isFinite_squaredDeviations (q := 54) (by decide) (by decide)
          (fun x hx => ⟨hfinite x hx, ?_⟩) (isFinite_sampleMean h hfinite) ?_)
        · exact (hsmall x hx).2.trans (zpow_le_zpow_right₀ one_le_two (by decide))
        · exact abs_sampleMean_le h (by decide) (by decide) hsmall
      have hscaled := isFinite_scaledDeviations h hfinite hunit
      refine Double.zero_le_mul (Double.zero_le_squareRoot ?_) hunitfinite hunit
      exact Double.zero_le_div_natCast hscaled (zero_le_squaredDeviations hscaled) hfreedom
  next => exact Double.le_self (Double.isUndefined_of_isFinite isFinite_zero)

/-- **The coefficient of variation** is not below zero if the deviation is not. -/
theorem zero_le_variationOf {mean deviation : Double} (hmean : mean.isFinite = true)
    (h : ((0 : Nat) : Double) ≤ deviation) : ((0 : Nat) : Double) ≤ variationOf mean deviation := by
  have hhundred : ((100 : Nat) : Double).value = 100 := Double.value_natCast_of_lt (by decide)
  rw [variationOf]
  -- A mean that is not positive gives zero; otherwise the deviation is divided by it.
  split
  next hpos =>
    refine Double.zero_le_mul (Double.zero_le_div h hmean (Double.value_pos hpos))
      (Double.isFinite_natCast (by decide)) ?_
    rw [hhundred]
    norm_num
  next => exact Double.le_self (Double.isUndefined_of_isFinite isFinite_zero)

/-- **The spread of finite samples** is not below zero as it is stored. -/
theorem Statistics.zero_le_spread (h : samples ≠ []) (hfinite : ∀ x ∈ samples, x.isFinite = true) :
    ((0 : Nat) : Double) ≤ (Statistics.of samples).deviation ∧
      ((0 : Nat) : Double) ≤ (Statistics.of samples).variation := by
  have hdeviation := zero_le_sampleDeviation h hfinite
  rw [of_eq h]
  exact ⟨hdeviation, zero_le_variationOf (isFinite_sampleMean h hfinite) hdeviation⟩

end PinnedBench
