import Mathlib
import PinnedBench.Proofs.Stats.Scaling

/-!
# Sums that leave the range

The sum of some samples may leave the range of stored numbers although the samples do not, and the
sum of their squared deviations more easily still. The mean and the deviation are then computed
again in units of the largest magnitude. Which way is taken is decided by the test for finite
numbers alone, and only extreme samples take the second one.

In exact arithmetic both ways lead to the plain figures, which are the arithmetic mean and the
deviation with Bessel's correction (`fallbacks_agree`). The test may answer as it likes: the
statistics under another test are the same statistics (`Statistics.ofTested_eq`).
-/

namespace PinnedBench

variable {K : Type} [Field K]

/-! ### Plain figures -/

/-- The arithmetic mean: the sum by the count. -/
def arithmeticMean (samples : List K) : K := samples.sum / samples.length

/-- One less than the count is not cut off at zero if there are samples. -/
theorem freedom_eq {samples : List K} (h : samples ≠ []) :
    (freedom samples : K) = samples.length - 1 := by
  unfold freedom
  exact Nat.cast_pred (List.length_pos_iff.mpr h)

variable [LinearOrder K]

/-- The deviation with Bessel's correction: the root of the squared deviations from the mean, summed
up and divided by one less than the count. -/
def besselDeviation [Analysis K] (samples : List K) : K :=
  squareRoot ((samples.map fun x => (x - arithmeticMean samples) ^ 2).sum / (samples.length - 1))

/-- A deviation in percent of a mean, if the mean is positive. -/
def percentOfMean (mean deviation : K) : K := if 0 < mean then deviation / mean * 100 else 0

/-- The coefficient of variation is the deviation in percent of the mean. -/
theorem variationOf_eq (mean deviation : K) :
    variationOf mean deviation = percentOfMean mean deviation := by
  unfold variationOf percentOfMean
  simp only [Nat.cast_zero, Nat.cast_ofNat]

/-- The plain mean is the arithmetic mean, since compensation has nothing to make up for. -/
theorem plainMean_eq_arithmeticMean [Analysis K] (samples : List K) :
    plainMean samples = arithmeticMean samples := by
  unfold plainMean arithmeticMean
  rw [stableSum_eq]

theorem root_squaredDeviations_eq [Analysis K] {samples : List K} (h : samples ≠ []) :
    squareRoot (squaredDeviations (arithmeticMean samples) samples / freedom samples) =
      besselDeviation samples := by
  unfold besselDeviation
  simp only [squaredDeviations_eq, freedom_eq h, sq]

/-! ### Other tests for finite numbers -/

/-- The same arithmetic with another test for finite numbers. -/
@[reducible]
def Analysis.retested (test : K → Bool) (a : Analysis K) : Analysis K := { a with finite := test }

/-- The statistics of samples when another test tells which sums are in range. -/
def Statistics.ofTested [a : Analysis K] (test : K → Bool) (samples : List K) : Statistics K :=
  letI := Analysis.retested test a
  Statistics.of samples

section Exact

variable [a : Analysis K] [hexact : ExactAnalysis K]

-- Nothing is asked of the test, so exact arithmetic is exact under every test.
theorem exactAnalysis_retested (test : K → Bool) :
    @ExactAnalysis K _ _ (Analysis.retested test a) :=
  letI := Analysis.retested test a
  { magnitude_eq := hexact.magnitude_eq
    larger_eq := hexact.larger_eq
    precedes_iff := hexact.precedes_iff
    squareRoot_mul := hexact.squareRoot_mul
    wholePart_le := hexact.wholePart_le
    lt_wholePart := hexact.lt_wholePart }

variable [IsStrictOrderedRing K]

/-! ### The same figures both ways -/

/-- The mean in units of the largest magnitude is the arithmetic mean too, -/
theorem scaledMean_eq_arithmeticMean (samples : List K) :
    scaledMean samples = arithmeticMean samples :=
  scaledMean_eq samples

/-- and so the mean is, whichever way the test has it computed. -/
theorem sampleMean_eq_arithmeticMean (samples : List K) :
    sampleMean samples = arithmeticMean samples :=
  sampleMean_eq samples

/-- The deviation in units of the largest magnitude is the one with Bessel's correction. -/
theorem scaledDeviation_eq_besselDeviation {samples : List K} (h : samples ≠ []) :
    scaledDeviation (arithmeticMean samples) samples = besselDeviation samples := by
  rw [← root_squaredDeviations_eq h, ← sampleMean_eq_arithmeticMean]
  exact scaledDeviation_eq samples

/-- The unit is a magnitude that some sample has, so it vanishes only with all of them. -/
theorem largestMagnitude_pos {samples : List K} (h : ∃ x ∈ samples, x ≠ 0) :
    0 < largestMagnitude samples := by
  obtain ⟨x, hx, hne⟩ := h
  refine lt_of_le_of_ne (largestMagnitude_nonneg samples) fun hzero => hne ?_
  -- If the unit vanished, all samples would be zero.
  have hzeros := eq_replicate_of_largestMagnitude hzero.symm
  rw [hzeros] at hx
  exact List.eq_of_mem_replicate hx

/-- The statistics with the plain mean and the plain deviation. -/
def Statistics.plain (samples : List K) : Statistics K :=
  let mean := arithmeticMean samples
  let deviation := if 1 < samples.length then besselDeviation samples else 0
  { median := sortedMedian (sortSamples samples)
    mean := mean
    deviation := deviation
    variation := percentOfMean mean deviation
    p10 := nearestRank (sortSamples samples) 0.1
    p90 := nearestRank (sortSamples samples) 0.9 }

theorem Statistics.of_eq_plain {samples : List K} (h : samples ≠ []) :
    Statistics.of samples = plain samples := by
  unfold plain
  rw [of_eq h, sampleDeviation_eq, sampleMean_eq_arithmeticMean, root_squaredDeviations_eq h,
    variationOf_eq]

/-- **Another test** for finite numbers changes no figure. -/
theorem Statistics.ofTested_eq (test : K → Bool) (samples : List K) :
    Statistics.ofTested test samples = Statistics.of samples := by
  -- Without samples the test is not asked.
  by_cases h : samples = []
  · subst h
    rfl
  · have hexact' := exactAnalysis_retested (a := a) test
    -- The plain figures do not read the test, so they are the same under both.
    calc Statistics.ofTested test samples
      _ = Statistics.plain samples :=
        @Statistics.of_eq_plain K _ _ (.retested test a) hexact' _ samples h
      _ = Statistics.of samples := (Statistics.of_eq_plain h).symm

/-- **The fallbacks agree.** In exact arithmetic, for two or more samples that are not all zero: the
unit of the fallbacks is positive, and a compensated sum is the sum. So the mean is the arithmetic
mean and the deviation is the one with Bessel's correction, computed plainly as well as in units of
the largest magnitude; and whatever a test answers about the sums, mean, deviation and coefficient
of variation are these, and the statistics are the same. -/
theorem fallbacks_agree {samples : List K} (hmany : 2 ≤ samples.length)
    (hsome : ∃ x ∈ samples, x ≠ 0) :
    0 < largestMagnitude samples ∧
    (∀ terms : List K, stableSum terms = terms.sum) ∧
    (plainMean samples = arithmeticMean samples ∧ scaledMean samples = arithmeticMean samples) ∧
    (squareRoot (squaredDeviations (arithmeticMean samples) samples / freedom samples) =
        besselDeviation samples ∧
      scaledDeviation (arithmeticMean samples) samples = besselDeviation samples) ∧
    ∀ test : K → Bool,
      Statistics.ofTested test samples = Statistics.of samples ∧
      (Statistics.ofTested test samples).mean = arithmeticMean samples ∧
      (Statistics.ofTested test samples).deviation = besselDeviation samples ∧
      (Statistics.ofTested test samples).variation =
        percentOfMean (arithmeticMean samples) (besselDeviation samples) := by
  have hne : samples ≠ [] := List.length_pos_iff.mp (by omega)
  refine ⟨largestMagnitude_pos hsome, stableSum_eq, ?_, ?_, ?_⟩
  · exact ⟨plainMean_eq_arithmeticMean samples, scaledMean_eq_arithmeticMean samples⟩
  · exact ⟨root_squaredDeviations_eq hne, scaledDeviation_eq_besselDeviation hne⟩
  · intro test
    -- Under any test the statistics are the plain ones, off which the figures are read.
    have hplain : Statistics.ofTested test samples = Statistics.plain samples :=
      (Statistics.ofTested_eq test samples).trans (Statistics.of_eq_plain hne)
    have hdeviation : (Statistics.plain samples).deviation = besselDeviation samples :=
      if_pos hmany
    refine ⟨Statistics.ofTested_eq test samples, ?_, ?_, ?_⟩
    · rw [hplain]
      rfl
    · rw [hplain, hdeviation]
    · rw [hplain, ← hdeviation]
      rfl

end Exact

/-- Two real durations, with a test that lets no sum pass. -/
theorem fallbacks_agree_on_two :
    2 ≤ [3, (1 : ℝ)].length ∧ (∃ x ∈ [3, (1 : ℝ)], x ≠ 0) ∧
    scaledMean [3, (1 : ℝ)] = 2 ∧
    (Statistics.ofTested (fun _ => false) [3, (1 : ℝ)]).deviation = √2 := by
  have hmany : 2 ≤ [3, (1 : ℝ)].length := le_rfl
  have hsome : ∃ x ∈ [3, (1 : ℝ)], x ≠ 0 := ⟨3, List.mem_cons_self, three_ne_zero⟩
  obtain ⟨-, -, ⟨-, hscaled⟩, -, htested⟩ := fallbacks_agree hmany hsome
  obtain ⟨-, -, hdeviation, -⟩ := htested fun _ => false
  -- The mean is 2, from which both samples are 1 away.
  have hmean : arithmeticMean [3, (1 : ℝ)] = 2 := by
    norm_num [arithmeticMean]
  refine ⟨hmany, hsome, hscaled.trans hmean, hdeviation.trans ?_⟩
  unfold besselDeviation
  rw [hmean]
  show √_ = √2
  norm_num

end PinnedBench
