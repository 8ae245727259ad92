import Mathlib
import PinnedBench.Conversion.Synthesis
import PinnedBench.Double
import PinnedBench.Proofs.Arithmetic
import PinnedBench.Proofs.Profile.Curves
import PinnedBench.Proofs.Random.Draws

/-!
# Averages and peaks of profiles

A profile is consistent if its averages are not above its peaks and no point of its curve is above
the peak of its column (`Profile.Consistent`).

The profile of a series is consistent: all of its figures are taken from the same samples
(`Profile.consistent_of`). A profile that is made of an entry has peaks that bound its curve, but
its averages are the figures of the entry and not those of the curve. They are below the peaks
exactly if some draw does not take away from each of them and the load is not above the load that
points are cut off at (`profile_consistency`).
-/

namespace PinnedBench

/-! ### Peaks and averages of numbers -/

/-- Adding up from the first number on gives the sum. The empty list is where the two differ in how
they begin. -/
theorem sumFrom_eq {K : Type} [Field K] (xs : List K) : sumFrom xs = xs.sum := by
  have hfold : ∀ (l : List K) (a : K), l.foldl (· + ·) a = a + l.sum := by
    intro l
    induction l with
    | nil => simp
    | cons x l ih =>
      intro a
      rw [List.foldl_cons, ih, List.sum_cons, add_assoc]
  cases xs with
  | nil => exact Nat.cast_zero
  | cons x xs => rw [sumFrom, hfold, List.sum_cons]

/-- A column of a curve is a part of the column of its series. -/
theorem mem_of_mem_column {α : Type} {points : Nat} {samples : List (Sample α)} {f : Reading α → α}
    {x : α} (hx : x ∈ ((picked points samples).map (·.reading)).map f) :
    x ∈ (samples.map (·.reading)).map f := by
  rw [List.map_map] at hx ⊢
  obtain ⟨s, hs, rfl⟩ := List.mem_map.mp hx
  exact List.mem_map_of_mem (mem_of_mem_picked hs)

/-- The figures of a summary are taken from whole columns of the series, if there is a sample. -/
theorem Summary.of_eq {K : Type} [Field K] [LT K] [DecidableLT K] [Analysis K]
    {samples : List (Sample K)} (h : samples ≠ []) :
    (Summary.of samples).cpuAverage = average ((samples.map (·.reading)).map (·.cpu)) ∧
      (Summary.of samples).cpuPeak = peak ((samples.map (·.reading)).map (·.cpu)) ∧
      (Summary.of samples).ramAverage = average ((samples.map (·.reading)).map (·.ram)) ∧
      (Summary.of samples).ramPeak = peak ((samples.map (·.reading)).map (·.ram)) := by
  obtain ⟨first, rest, rfl⟩ := List.exists_cons_of_ne_nil h
  obtain ⟨last, hlast⟩ : ∃ last, (first :: rest).getLast? = some last := ⟨_, List.getLast?_cons⟩
  unfold Summary.of
  rw [hlast]
  exact ⟨rfl, rfl, rfl, rfl⟩

section Made

variable {α σ : Type}

/-- The draws that the loads of a made profile come from. -/
def loadDraws (noise : Noise σ α) (s : σ) : List α :=
  (draws noise.normal Profile.madePoints s).1

/-- The draws that its memory comes from, which follow those of the loads. -/
def memoryDraws (noise : Noise σ α) (s : σ) : List α :=
  (draws noise.normal Profile.madePoints (draws noise.normal Profile.madePoints s).2).1

/-- The columns of a made profile are made of draws, and its peaks are those of its columns. -/
theorem Profile.made_columns [Add α] [Mul α] [NatCast α] [OfScientific α] [LT α] [DecidableLT α]
    [Analysis α] (noise : Noise σ α) (e : Entry α) (s : σ) :
    (Profile.made noise e s).curve.cpu = (loadDraws noise s).map (noisyLoad e.load) ∧
      (Profile.made noise e s).curve.ram = (memoryDraws noise s).map (noisyMemory e.memory) ∧
      (Profile.made noise e s).summary.cpuPeak = peak (Profile.made noise e s).curve.cpu ∧
      (Profile.made noise e s).summary.ramPeak = peak (Profile.made noise e s).curve.ram := by
  unfold Profile.made Curve.made loadDraws memoryDraws
  -- Nothing depends on the number of points, and the draws need not be made to see it.
  generalize Profile.madePoints = n
  exact ⟨rfl, rfl, rfl, rfl⟩

end Made

variable {K σ : Type} [Field K] [LinearOrder K]

/-- A draw keeps a load if it does not take away from it and the load is not cut off. -/
theorem le_noisyLoad_iff [IsStrictOrderedRing K] {load z : K} (hload : 0 ≤ load) :
    load ≤ noisyLoad load z ↔ load = 0 ∨ load ≤ 100 ∧ 0 ≤ z := by
  have hclamp : noisyLoad load z = max 0 (min 100 (load + 2 * z)) := by
    rw [noisyLoad, clampLoad, Nat.cast_zero, Nat.cast_ofNat, Nat.cast_ofNat]
    split
    next h => rw [max_eq_left ((min_le_right _ _).trans h.le)]
    next h =>
      have hnonneg : 0 ≤ load + 2 * z := not_lt.mp h
      split
      next h' => rw [min_eq_left h'.le, max_eq_right (by norm_num)]
      next h' => rw [min_eq_right (not_lt.mp h'), max_eq_right hnonneg]
  have hzero : load ≤ 0 ↔ load = 0 := ⟨fun h => le_antisymm h hload, le_of_eq⟩
  rw [hclamp, le_max_iff, le_min_iff, hzero, le_add_iff_nonneg_right,
    mul_nonneg_iff_of_pos_left two_pos]

variable [Analysis K]

/-- **A consistent profile**: the averages are not above the peaks, and the peaks bound the curve.
-/
structure Profile.Consistent (p : Profile K) : Prop where
  /-- The average load is not above the peak, -/
  cpuAverage_le : p.summary.cpuAverage ≤ p.summary.cpuPeak
  /-- nor is the average memory. -/
  ramAverage_le : p.summary.ramAverage ≤ p.summary.ramPeak
  /-- No point of the curve has more load than the peak, -/
  cpu_le : ∀ x ∈ p.curve.cpu, x ≤ p.summary.cpuPeak
  /-- and none more memory. -/
  ram_le : ∀ x ∈ p.curve.ram, x ≤ p.summary.ramPeak

variable [ExactAnalysis K]

/-- The peak reaches a bound if one of the numbers does, or the number that the search begins with.
-/
theorem le_peak_iff {xs : List K} {b : K} :
    b ≤ peak xs ↔ b ≤ Analysis.lowest ∨ ∃ x ∈ xs, b ≤ x :=
  le_foldl_larger_iff

theorem le_peak {xs : List K} {x : K} (hx : x ∈ xs) : x ≤ peak xs :=
  le_peak_iff.mpr (.inr ⟨x, hx, le_rfl⟩)

/-- The peak of made points reaches the figure that they are made of if one of them does. -/
theorem le_peak_map_iff {f : K → K} {zs : List K} {b : K} (hlowest : (Analysis.lowest : K) < 0)
    (hb : 0 ≤ b) : b ≤ peak (zs.map f) ↔ ∃ z ∈ zs, b ≤ f z := by
  rw [le_peak_iff]
  constructor
  · rintro (h | ⟨x, hx, h⟩)
    · exact absurd (h.trans_lt hlowest) (not_lt.mpr hb)
    · obtain ⟨z, hz, rfl⟩ := List.mem_map.mp hx
      exact ⟨z, hz, h⟩
  · rintro ⟨z, hz, h⟩
    exact .inr ⟨f z, List.mem_map_of_mem hz, h⟩

variable [IsStrictOrderedRing K]

/-- **The average** of numbers is at most their peak. -/
theorem average_le_peak {xs : List K} (h : xs ≠ []) : average xs ≤ peak xs := by
  have hcount : (0 : K) < (xs.length : K) := Nat.cast_pos.mpr (List.length_pos_iff.mpr h)
  rw [average, sumFrom_eq, div_le_iff₀ hcount]
  calc xs.sum ≤ xs.length • peak xs := List.sum_le_card_nsmul xs _ fun x hx => le_peak hx
    _ = peak xs * xs.length := by rw [nsmul_eq_mul, mul_comm]

/-! ### Profiles of series -/

/-- **The profile of a series** is consistent. -/
theorem Profile.consistent_of {samples : List (Sample K)} (h : samples ≠ []) :
    (Profile.of samples).Consistent := by
  obtain ⟨hcpuAverage, hcpuPeak, hramAverage, hramPeak⟩ := Summary.of_eq h
  have hcolumn : ∀ f : Reading K → K, (samples.map (·.reading)).map f ≠ [] := by
    intro f
    simpa using h
  constructor
  · show (Summary.of samples).cpuAverage ≤ (Summary.of samples).cpuPeak
    rw [hcpuAverage, hcpuPeak]
    exact average_le_peak (hcolumn _)
  · show (Summary.of samples).ramAverage ≤ (Summary.of samples).ramPeak
    rw [hramAverage, hramPeak]
    exact average_le_peak (hcolumn _)
  · intro x hx
    show x ≤ (Summary.of samples).cpuPeak
    rw [hcpuPeak]
    exact le_peak (mem_of_mem_column hx)
  · intro x hx
    show x ≤ (Summary.of samples).ramPeak
    rw [hramPeak]
    exact le_peak (mem_of_mem_column hx)

/-! ### Made profiles -/

/-- A draw keeps the memory if it does not take away from it; memory is not cut off. -/
theorem le_noisyMemory_iff {memory z : K} (hmemory : 0 ≤ memory) :
    memory ≤ noisyMemory memory z ↔ memory = 0 ∨ 0 ≤ z := by
  rw [noisyMemory, ExactAnalysis.larger_eq, Nat.cast_zero, le_max_iff, le_add_iff_nonneg_right]
  rcases hmemory.eq_or_lt with rfl | hpos
  · simp
  · have hscale : 0 < memory * 0.05 := mul_pos hpos (by norm_num)
    rw [mul_nonneg_iff_of_pos_left hscale]
    exact or_congr ⟨fun h => le_antisymm h hmemory, le_of_eq⟩ Iff.rfl

/-- **Consistency of profiles.** The profile of any series is consistent. In a profile that is made
of figures that are not negative, the peaks bound the curve, but the averages are the figures of the
entry: the load is at most its peak exactly if it is zero, or not above 100 and one of its draws is
not negative, and the memory is at most its peak exactly if it is zero or one of its draws is not
negative. -/
theorem profile_consistency (hlowest : (Analysis.lowest : K) < 0) :
    (∀ samples : List (Sample K), samples ≠ [] → (Profile.of samples).Consistent) ∧
    ∀ (noise : Noise σ K) (s : σ) (e : Entry K), 0 ≤ e.load → 0 ≤ e.memory →
      (∀ x ∈ (Profile.made noise e s).curve.cpu, x ≤ (Profile.made noise e s).summary.cpuPeak) ∧
      (∀ x ∈ (Profile.made noise e s).curve.ram, x ≤ (Profile.made noise e s).summary.ramPeak) ∧
      ((Profile.made noise e s).summary.cpuAverage ≤ (Profile.made noise e s).summary.cpuPeak ↔
        e.load = 0 ∨ e.load ≤ 100 ∧ ∃ z ∈ loadDraws noise s, 0 ≤ z) ∧
      ((Profile.made noise e s).summary.ramAverage ≤ (Profile.made noise e s).summary.ramPeak ↔
        e.memory = 0 ∨ ∃ z ∈ memoryDraws noise s, 0 ≤ z) := by
  have hpoints : 0 < Profile.madePoints := by decide
  refine ⟨fun samples h => Profile.consistent_of h, ?_⟩
  intro noise s e hload hmemory
  obtain ⟨hcpu, hram, hcpuPeak, hramPeak⟩ := Profile.made_columns noise e s
  rw [hcpuPeak, hramPeak, hcpu, hram]
  refine ⟨fun x hx => le_peak hx, fun x hx => le_peak hx, ?_, ?_⟩
  · -- The average is the load of the entry, so it is held against what the draws make of that load.
    show e.load ≤ _ ↔ _
    rw [le_peak_map_iff hlowest hload]
    simp only [le_noisyLoad_iff hload]
    constructor
    · rintro ⟨z, hz, hzero | ⟨hle, hnonneg⟩⟩
      · exact .inl hzero
      · exact .inr ⟨hle, z, hz, hnonneg⟩
    · rintro (hzero | ⟨hle, z, hz, hnonneg⟩)
      · -- A load of zero is reached by any draw, and there is one.
        obtain ⟨z, hz⟩ := exists_mem_draws noise.normal hpoints s
        exact ⟨z, hz, .inl hzero⟩
      · exact ⟨z, hz, .inr ⟨hle, hnonneg⟩⟩
  · show e.memory ≤ _ ↔ _
    rw [le_peak_map_iff hlowest hmemory]
    simp only [le_noisyMemory_iff hmemory]
    constructor
    · rintro ⟨z, hz, hzero | hnonneg⟩
      · exact .inl hzero
      · exact .inr ⟨z, hz, hnonneg⟩
    · rintro (hzero | ⟨z, hz, hnonneg⟩)
      · obtain ⟨z, hz⟩ := exists_mem_draws noise.normal hpoints _
        exact ⟨z, hz, .inl hzero⟩
      · exact ⟨z, hz, .inr hnonneg⟩

/-- Noise that neither adds nor takes away. -/
def silence {α : Type} [NatCast α] : Noise Unit α where
  normal _ := (((0 : Nat) : α), ())
  toTen _ := (((0 : Nat) : α), ())

/-- The figures of an implementation with such a load. -/
def rayonOf {α : Type} [NatCast α] (load : α) : Entry α where
  implementation := "rust-rayon"
  language := "rust"
  time := ((30 : Nat) : α)
  load := load
  memory := ((40 : Nat) : α)
  speedup := ((50 : Nat) : α)
  cores := some 8

/-- A series, and an entry whose load one processor can have. -/
theorem load_of_one_processor_is_consistent :
    (Profile.of (countedSeries 3 : List (Sample ℝ))).Consistent ∧
      (Profile.made silence (rayonOf (98 : ℝ)) ()).summary.cpuAverage ≤
        (Profile.made silence (rayonOf (98 : ℝ)) ()).summary.cpuPeak ∧
      ∀ x ∈ (Profile.made silence (rayonOf (98 : ℝ)) ()).curve.cpu,
        x ≤ (Profile.made silence (rayonOf (98 : ℝ)) ()).summary.cpuPeak := by
  have hlowest : (Analysis.lowest : ℝ) < 0 := by
    show -((2 ^ 53 - 1) * 2 ^ 971 : ℝ) < 0
    norm_num
  obtain ⟨hseries, hmade⟩ := profile_consistency hlowest
  obtain ⟨hcurve, -, hload, -⟩ := hmade silence () (rayonOf 98)
    (by show (0 : ℝ) ≤ 98; norm_num) (Nat.cast_nonneg 40)
  obtain ⟨z, hz⟩ := exists_mem_draws (silence (α := ℝ)).normal (n := Profile.madePoints)
    (by decide) ()
  have hnonneg : 0 ≤ z := by
    refine of_mem_draws (p := fun z => 0 ≤ z) ?_ hz
    intro _
    exact Nat.cast_nonneg 0
  refine ⟨hseries _ ?_, hload.mpr (.inr ⟨?_, z, hz, hnonneg⟩), hcurve⟩
  · exact List.ne_nil_of_length_eq_add_one (length_countedSeries 3)
  · show (98 : ℝ) ≤ 100
    norm_num

/-- **The load of eight processors** is reported as the average of a curve that is cut off at 100,
which is its peak. -/
theorem load_of_eight_processors_is_above_peak :
    (rayonOf ((780 : Nat) : Double)).load.isFinite = true ∧
      ((0 : Nat) : Double) ≤ (rayonOf ((780 : Nat) : Double)).load ∧
      ((0 : Nat) : Double) ≤ (rayonOf ((780 : Nat) : Double)).memory ∧
      ¬(Profile.made silence (rayonOf ((780 : Nat) : Double)) ()).summary.cpuAverage ≤
        (Profile.made silence (rayonOf ((780 : Nat) : Double)) ()).summary.cpuPeak := by
  decide +kernel

end PinnedBench
