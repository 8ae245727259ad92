import Mathlib
import PinnedBench.Conversion.Build
import PinnedBench.Proofs.Random.Draws
import PinnedBench.Proofs.Report.Audit
import PinnedBench.Proofs.Stats.Ordering

/-!
# Samples that share their noise

A conversion makes the samples of both sides from one row of draws, each time with a new generator
of the same seed. So noise never turns a comparison round: the side that takes less time has the
smaller sample for every draw, and with it the smaller median. Where the lower bound of samples
plays no part both sides are the same numbers in different units, so that the gain is that of the
times and both sides vary by the same percentage (`Collection.comparison_of_shared_noise`).

`Comparison.ofTimes` is that comparison for any source of noise and any numbers. A report has it for
stored numbers and the seeded generator; its meaning is stated in exact arithmetic.
-/

namespace PinnedBench

open List (Forall₂)

/-- The comparison of two times whose samples are made of the same draws. -/
def Comparison.ofTimes {α σ : Type} [Add α] [Sub α] [Mul α] [Div α] [NatCast α] [OfScientific α]
    [LT α] [DecidableLT α] [LE α] [DecidableLE α] [Analysis α] (noise : Noise σ α) (s : σ)
    (baseline optimized : α) : Comparison α :=
  .of (noisyTimes noise baseline Collection.sampleCount s)
    (noisyTimes noise optimized Collection.sampleCount s)

variable {K σ : Type} [Field K] {noise : Noise σ K} {s : σ} {count : Nat}

section Draws

variable [LinearOrder K] [IsStrictOrderedRing K]

/-- A draw above this bound takes away less than the whole time. -/
theorem noise_pos {z : K} (hz : -200 < z) : 0 < 1 + 0.005 * z := by
  norm_num
  linarith

/-- A time whose samples reach the bound without help is positive. -/
theorem time_pos (hcount : 0 < count) (hdraws : ∀ z ∈ (draws noise.normal count s).1, -200 < z)
    {time : K} (h : ∀ z ∈ (draws noise.normal count s).1, 0.1 ≤ time + time * 0.005 * z) :
    0 < time := by
  obtain ⟨z, hz⟩ := exists_mem_draws noise.normal hcount s
  have hscaled : time + time * 0.005 * z = time * (1 + 0.005 * z) := by ring
  -- A sample that reaches the bound is a positive part of the time, for one draw at least.
  have hpos : 0 < time * (1 + 0.005 * z) := by
    rw [← hscaled]
    exact lt_of_lt_of_le (by norm_num) (h z hz)
  exact pos_of_mul_pos_left hpos (noise_pos (hdraws z hz)).le

end Draws

/-- There are samples where some are asked for. -/
theorem noisyTimes_ne_nil [LT K] [DecidableLT K] [Analysis K] (hcount : 0 < count) (time : K) :
    noisyTimes noise time count s ≠ [] := by
  rw [← List.length_pos_iff, noisyTimes, List.length_map, length_draws]
  exact hcount

variable [LinearOrder K] [IsStrictOrderedRing K] [Analysis K] [ExactAnalysis K]

/-! ### Samples -/

/-- A sample is the time with a relative noise, raised to the bound if it is below it. -/
theorem noisyTime_eq (time z : K) : noisyTime time z = max 0.1 (time * (1 + 0.005 * z)) := by
  rw [noisyTime, ExactAnalysis.larger_eq]
  congr 1
  ring

/-- No sample is below the bound. -/
theorem floor_le_noisyTime (time z : K) : 0.1 ≤ noisyTime time z := by
  rw [noisyTime_eq]
  exact le_max_left _ _

/-- The same draw keeps the order of two times. -/
theorem noisyTime_le_noisyTime {z a b : K} (hz : -200 < z) (hab : a ≤ b) :
    noisyTime a z ≤ noisyTime b z := by
  rw [noisyTime_eq, noisyTime_eq]
  have hscaled := mul_le_mul_of_nonneg_right hab (noise_pos hz).le
  exact max_le_max le_rfl hscaled

/-- **The same draws** keep the order of the times. -/
theorem noisyTimes_le_noisyTimes (hdraws : ∀ z ∈ (draws noise.normal count s).1, -200 < z) {a b : K}
    (hab : a ≤ b) : Forall₂ (· ≤ ·) (noisyTimes noise a count s) (noisyTimes noise b count s) := by
  rw [noisyTimes, noisyTimes, List.forall₂_map_left_iff, List.forall₂_map_right_iff,
    List.forall₂_same]
  intro z hz
  exact noisyTime_le_noisyTime (hdraws z hz) hab

/-- The median of the samples is not below their bound, so a gain over it is a quotient. -/
theorem floor_le_median (hcount : 0 < count) (time : K) :
    0.1 ≤ (Statistics.of (noisyTimes noise time count s)).median := by
  apply Statistics.le_median (noisyTimes_ne_nil hcount time)
  intro x hx
  obtain ⟨z, -, rfl⟩ := List.mem_map.mp hx
  exact floor_le_noisyTime time z

/-- Where the lower bound plays no part, a sample is what the draw leaves of a unit, times the
time. -/
theorem noisyTimes_eq_map {time : K}
    (h : ∀ z ∈ (draws noise.normal count s).1, 0.1 ≤ time + time * 0.005 * z) :
    noisyTimes noise time count s =
      ((draws noise.normal count s).1.map fun z => 1 + 0.005 * z).map (time * ·) := by
  rw [noisyTimes, List.map_map]
  apply List.map_congr_left
  intro z hz
  have hscaled : time + time * 0.005 * z = time * (1 + 0.005 * z) := by ring
  rw [noisyTime_eq, max_eq_right (hscaled ▸ h z hz)]
  rfl

/-! ### Comparisons -/

namespace Collection

/-- **Noise never turns a comparison round.** The two sides of a report share their draws. With any
thirty draws that do not take away a whole time, each sample of the side that takes less time is at
most that of the other side, and the difference and the gain have the sign that follows. The gain is
a quotient, since the median of the baseline is not below the bound of the samples. If no sample is
raised to that bound, the gain is that of the times and both sides vary alike. -/
theorem comparison_of_shared_noise (noise : Noise σ K) (s : σ)
    (hdraws : ∀ z ∈ (draws noise.normal sampleCount s).1, -200 < z) (b o : K) :
    (∀ (x : Collection) (baseline optimized : String) (dataset : Option DatasetIdentity)
        (stamp : Stamp) (r : Report), x.report baseline optimized dataset stamp = .ok r →
      ∃ e f, x.find baseline = .ok e ∧ x.find optimized = .ok f ∧
        r.baseline.durations = noisyTimes .seeded e.time sampleCount (.ofSeed sampleSeed) ∧
        r.optimized.durations = noisyTimes .seeded f.time sampleCount (.ofSeed sampleSeed) ∧
        r.finding.comparison = .ofTimes .seeded (.ofSeed sampleSeed) e.time f.time) ∧
    (o ≤ b →
      Forall₂ (· ≤ ·) (noisyTimes noise o sampleCount s) (noisyTimes noise b sampleCount s) ∧
        0 ≤ (Comparison.ofTimes noise s b o).delta ∧ 0 ≤ (Comparison.ofTimes noise s b o).gain) ∧
    (b ≤ o →
      Forall₂ (· ≤ ·) (noisyTimes noise b sampleCount s) (noisyTimes noise o sampleCount s) ∧
        (Comparison.ofTimes noise s b o).delta ≤ 0 ∧ (Comparison.ofTimes noise s b o).gain ≤ 0) ∧
    0.1 ≤ (Comparison.ofTimes noise s b o).baseline.median ∧
    (Comparison.ofTimes noise s b o).gain = (Comparison.ofTimes noise s b o).delta /
      (Comparison.ofTimes noise s b o).baseline.median * 100 ∧
    ((∀ z ∈ (draws noise.normal sampleCount s).1,
        0.1 ≤ b + b * 0.005 * z ∧ 0.1 ≤ o + o * 0.005 * z) →
      (Comparison.ofTimes noise s b o).gain = (1 - o / b) * 100 ∧
        (Comparison.ofTimes noise s b o).baseline.variation =
          (Comparison.ofTimes noise s b o).optimized.variation) := by
  have hcount : 0 < sampleCount := by decide
  have hmedian : 0.1 ≤ (Statistics.of (noisyTimes noise b sampleCount s)).median :=
    floor_le_median hcount b
  have hpos : 0 < (Statistics.of (noisyTimes noise b sampleCount s)).median :=
    lt_of_lt_of_le (by norm_num) hmedian
  refine ⟨?_, ?_, ?_, hmedian, Comparison.gain_eq hpos, ?_⟩
  · -- A report makes the samples of either side with a generator of the same seed.
    intro x baseline optimized dataset stamp r h
    obtain ⟨e, f, he, hf, rfl⟩ := report_eq_ok h
    exact ⟨e, f, he, hf, rfl, rfl, rfl⟩
  · -- Sample by sample the optimized side is not above the other, and medians keep that order.
    intro hob
    have hsamples := noisyTimes_le_noisyTimes hdraws hob
    have hdelta : 0 ≤ (Comparison.ofTimes noise s b o).delta :=
      sub_nonneg.mpr (Statistics.median_le_median hsamples)
    exact ⟨hsamples, hdelta, Comparison.gain_nonneg hpos hdelta⟩
  · -- The other way round it is the same with the two sides changed.
    intro hbo
    have hsamples := noisyTimes_le_noisyTimes hdraws hbo
    have hdelta : (Comparison.ofTimes noise s b o).delta ≤ 0 :=
      sub_nonpos.mpr (Statistics.median_le_median hsamples)
    exact ⟨hsamples, hdelta, Comparison.gain_nonpos hpos hdelta⟩
  · intro hfloor
    have hb := time_pos hcount hdraws fun z hz => (hfloor z hz).1
    have ho := time_pos hcount hdraws fun z hz => (hfloor z hz).2
    -- Both sides are the same numbers in units of their times.
    rw [Comparison.ofTimes, noisyTimes_eq_map fun z hz => (hfloor z hz).1,
      noisyTimes_eq_map fun z hz => (hfloor z hz).2]
    rw [noisyTimes_eq_map fun z hz => (hfloor z hz).1] at hpos
    generalize (draws noise.normal sampleCount s).1.map (fun z => 1 + 0.005 * z) = units at hpos
    rw [Statistics.of_map_mul hb] at hpos
    refine ⟨Comparison.gain_map_mul hb ho (pos_of_mul_pos_right hpos hb.le), ?_⟩
    show (Statistics.of (units.map (b * ·))).variation =
      (Statistics.of (units.map (o * ·))).variation
    rw [Statistics.of_map_mul hb, Statistics.of_map_mul ho]
    rfl

/-- A source whose normal draws are one, minus one, one, and so on. -/
noncomputable def alternating : Noise Nat ℝ where
  normal n := ((-1) ^ n, n + 1)
  toTen n := (0, n + 1)

/-- Every draw of this source is one or minus one. -/
theorem neg_one_le_of_mem_draws {count n : Nat} {z : ℝ}
    (hz : z ∈ (draws alternating.normal count n).1) : -1 ≤ z := by
  refine of_mem_draws (p := fun z => -1 ≤ z) ?_ hz
  intro k
  exact (abs_le.mp (abs_neg_one_pow k).le).1

/-- Half the time is half gained. -/
theorem half_the_time_gains_half :
    0 ≤ (Comparison.ofTimes alternating 0 2 1).delta ∧
      (Comparison.ofTimes alternating 0 2 1).gain = 50 ∧
      (Comparison.ofTimes alternating 0 2 1).baseline.variation =
        (Comparison.ofTimes alternating 0 2 1).optimized.variation := by
  obtain ⟨-, hfaster, -, -, -, hexact⟩ := comparison_of_shared_noise alternating 0
    (fun z hz => lt_of_lt_of_le (by norm_num) (neg_one_le_of_mem_draws hz)) 2 1
  obtain ⟨-, hdelta, -⟩ := hfaster (by norm_num)
  obtain ⟨hgain, hvariation⟩ := hexact (by
    intro z hz
    have := neg_one_le_of_mem_draws hz
    constructor <;> norm_num <;> linarith)
  refine ⟨hdelta, ?_, hvariation⟩
  rw [hgain]
  norm_num

end Collection

end PinnedBench
