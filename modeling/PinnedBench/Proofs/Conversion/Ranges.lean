import Mathlib
import PinnedBench.Proofs.Double.Order
import PinnedBench.Proofs.Profile.Peaks
import PinnedBench.Proofs.Random.Bounds

/-!
# Made profiles are in range

A profile that is made of an entry has points in the ranges that a plot shows, whatever the figures
of the entry are, as long as its load is finite and no draw for a load is infinite: loads are cut
off on both sides, memory on one, and what is drawn for the disk is taken as it is
(`Profile.InRange`). The bounds are those of stored numbers, with every operation rounded. A sum of
a load and a draw may be too large to be stored, but it is never undefined, so it is cut off like
any other.

Of the seeded generator that reports are made with, only the draws for the loads need be looked at:
what it draws for the disk is in range anyway (`Profile.inRange_made_seeded`).

The draws of a profile come in one row, first those for the loads, then those for the memory, then
those for the disk, so that no curve depends on a figure of another one (`made_profile_in_range`).
-/

namespace PinnedBench

section Draws

variable {α σ : Type}

/-- The draws that the disk traffic of a made profile is, which follow those of the memory. -/
def diskDraws (noise : Noise σ α) (s : σ) : List α :=
  (draws noise.toTen Profile.madePoints (draws noise.normal (2 * Profile.madePoints) s).2).1

/-- The normal draws of a profile are those for the loads and then those for the memory. -/
theorem normal_draws (noise : Noise σ α) (s : σ) :
    (draws noise.normal (2 * Profile.madePoints) s).1 =
      loadDraws noise s ++ memoryDraws noise s := by
  rw [two_mul, draws_add]
  rfl

/-- There is one draw for the load of each point, -/
theorem length_loadDraws (noise : Noise σ α) (s : σ) :
    (loadDraws noise s).length = Profile.madePoints :=
  length_draws _ _ _

/-- one for its memory -/
theorem length_memoryDraws (noise : Noise σ α) (s : σ) :
    (memoryDraws noise s).length = Profile.madePoints :=
  length_draws _ _ _

/-- and one for its disk traffic. -/
theorem length_diskDraws (noise : Noise σ α) (s : σ) :
    (diskDraws noise s).length = Profile.madePoints :=
  length_draws _ _ _

/-- What a made profile has besides its loads and its memory. -/
theorem Profile.made_others [Add α] [Mul α] [NatCast α] [OfScientific α] [LT α] [DecidableLT α]
    [Analysis α] (noise : Noise σ α) (e : Entry α) (s : σ) :
    (Profile.made noise e s).curve.times =
        (List.range Profile.madePoints).map (fun i => ((2 * i : Nat) : α)) ∧
      (Profile.made noise e s).curve.disk = diskDraws noise s ∧
      (Profile.made noise e s).curve.gpu = List.replicate Profile.madePoints ((0 : Nat) : α) ∧
      (Profile.made noise e s).summary.diskTotal = sumFrom (diskDraws noise s) := by
  unfold diskDraws Profile.made Curve.made
  rw [two_mul, draws_add]
  -- As for the other columns, the draws need not be made to see it.
  generalize Profile.madePoints = n
  exact ⟨rfl, rfl, rfl, rfl⟩

end Draws

/-! ### Points -/

section Points

variable {x z : Double}

theorem isUndefined_zero : ((0 : Nat) : Double).isUndefined = false :=
  Double.isUndefined_natCast (by decide)

/-- **A load** that is a number is cut off at both ends. -/
theorem clampLoad_between (hx : x.isUndefined = false) :
    ((0 : Nat) : Double) ≤ clampLoad x ∧ clampLoad x ≤ ((100 : Nat) : Double) := by
  have hhundred : ((100 : Nat) : Double).isUndefined = false :=
    Double.isUndefined_natCast (by decide)
  have hbounds : ((0 : Nat) : Double) ≤ ((100 : Nat) : Double) :=
    Double.le_of_lt (Double.natCast_lt_natCast (by decide) (by decide))
  rw [clampLoad]
  -- Below zero and above a hundred the ends are taken; in between the load is, since it can be
  -- compared with both.
  split
  next h => exact ⟨Double.le_self isUndefined_zero, hbounds⟩
  next h =>
    split
    next h' => exact ⟨hbounds, Double.le_self hhundred⟩
    next h' =>
      exact ⟨Double.le_of_not_lt isUndefined_zero hx h,
        Double.le_of_not_lt hx hhundred h'⟩

/-- A load with noise is cut off at both ends, however large the noise is. -/
theorem noisyLoad_between {load : Double} (hload : load.isFinite = true) (hz : z.isFinite = true) :
    ((0 : Nat) : Double) ≤ noisyLoad load z ∧ noisyLoad load z ≤ ((100 : Nat) : Double) := by
  -- The noise may be too large to be stored, but it stays a number.
  have hnoise : (((2 : Nat) : Double) * z).isUndefined = false :=
    Double.isUndefined_mul (Double.isFinite_natCast (n := 2) (by decide)) hz
  exact clampLoad_between (Double.isUndefined_add hload hnoise)

/-- Memory with noise is the larger of that and zero, even if that is no number. -/
theorem noisyMemory_nonneg (memory z : Double) : ((0 : Nat) : Double) ≤ noisyMemory memory z :=
  Double.le_maximum isUndefined_zero _

/-- **The peak** of numbers that are not negative is one of them and bounds them all. -/
theorem peak_of_nonneg {xs : List Double} (hne : xs ≠ [])
    (h : ∀ x ∈ xs, ((0 : Nat) : Double) ≤ x) : peak xs ∈ xs ∧ ∀ x ∈ xs, x ≤ peak xs := by
  have hlowest : (Analysis.lowest : Double).isUndefined = false := by decide +kernel
  have hbelow : ¬((0 : Nat) : Double) ≤ Analysis.lowest := by decide +kernel
  obtain ⟨hmem, hbound⟩ : peak xs ∈ Analysis.lowest :: xs ∧
      ∀ x ∈ Analysis.lowest :: xs, x ≤ peak xs :=
    Double.foldl_maximum hlowest fun x hx => (Double.le_iff.mp (h x hx)).1.2
  have hpoints : ∀ x ∈ xs, x ≤ peak xs := fun x hx => hbound x (List.mem_cons_of_mem _ hx)
  refine ⟨?_, hpoints⟩
  rcases List.mem_cons.mp hmem with heq | hmem
  · -- The start of the search is below all points, and there is one.
    obtain ⟨x, hx⟩ := List.exists_mem_of_ne_nil xs hne
    rw [heq] at hpoints
    exact absurd (Double.le_trans (h x hx) (hpoints x hx)) hbelow
  · exact hmem

end Points

/-! ### Profiles -/

/-- **A profile in range**: so many points at increasing times, each of them in its bounds, and a
summary whose peaks and total are those of the points. -/
structure Profile.InRange (p : Profile Double) : Prop where
  /-- There are so many times, and as many points -/
  length_times : p.curve.times.length = Profile.madePoints
  /-- of the load of the processor, -/
  length_cpu : p.curve.cpu.length = Profile.madePoints
  /-- of the memory, -/
  length_ram : p.curve.ram.length = Profile.madePoints
  /-- of the disk traffic -/
  length_disk : p.curve.disk.length = Profile.madePoints
  /-- and of the load of the graphics card. -/
  length_gpu : p.curve.gpu.length = Profile.madePoints
  /-- Each time is later than the ones before it. -/
  times_increasing : p.curve.times.Pairwise (· < ·)
  /-- Times are parts of a hundred. -/
  times_between : ∀ t ∈ p.curve.times, ((0 : Nat) : Double) ≤ t ∧ t ≤ ((100 : Nat) : Double)
  /-- Loads are parts of a hundred, too, however large the figure of the entry is. -/
  cpu_between : ∀ x ∈ p.curve.cpu, ((0 : Nat) : Double) ≤ x ∧ x ≤ ((100 : Nat) : Double)
  /-- Memory is not negative, even if the figure of the entry is. -/
  ram_nonneg : ∀ x ∈ p.curve.ram, ((0 : Nat) : Double) ≤ x
  /-- Disk traffic is what has been drawn for it. -/
  disk_between : ∀ x ∈ p.curve.disk, ((0 : Nat) : Double) ≤ x ∧ x < ((10 : Nat) : Double)
  /-- The peak of the loads is one of them, -/
  cpuPeak_mem : p.summary.cpuPeak ∈ p.curve.cpu
  /-- and none is above it. -/
  le_cpuPeak : ∀ x ∈ p.curve.cpu, x ≤ p.summary.cpuPeak
  /-- The peak of the memory is one of its points, -/
  ramPeak_mem : p.summary.ramPeak ∈ p.curve.ram
  /-- and none is above it. -/
  le_ramPeak : ∀ x ∈ p.curve.ram, x ≤ p.summary.ramPeak
  /-- The total is the sum of the points, added up from the first one on. -/
  diskTotal : ∃ first rest, p.curve.disk = first :: rest ∧
    p.summary.diskTotal = rest.foldl (· + ·) first

/-- The times of a made profile are even numbers below a hundred. -/
theorem madeTimes_increasing :
    ((List.range Profile.madePoints).map fun i => ((2 * i : Nat) : Double)).Pairwise (· < ·) := by
  rw [List.pairwise_map]
  apply List.pairwise_lt_range.imp_of_mem
  intro i j hi hj hij
  have hj : j < 50 := List.mem_range.mp hj
  exact Double.natCast_lt_natCast (by omega) (by omega)

/-- Every time is a part of a hundred. -/
theorem madeTimes_between {t : Double}
    (ht : t ∈ (List.range Profile.madePoints).map fun i => ((2 * i : Nat) : Double)) :
    ((0 : Nat) : Double) ≤ t ∧ t ≤ ((100 : Nat) : Double) := by
  obtain ⟨i, hi, rfl⟩ := List.mem_map.mp ht
  have hi : i < 50 := List.mem_range.mp hi
  constructor
  · rcases Nat.eq_zero_or_pos i with rfl | hpos
    · exact Double.le_self isUndefined_zero
    · exact Double.le_of_lt (Double.natCast_lt_natCast (by omega) (by omega))
  · exact Double.le_of_lt (Double.natCast_lt_natCast (by omega) (by omega))

variable {σ : Type}

/-- **A made profile is in range** if its load and the draws for it are finite and those for the
disk are from zero to ten. -/
theorem Profile.inRange_made (noise : Noise σ Double) (s : σ) (e : Entry Double)
    (hload : e.load.isFinite = true) (hloads : ∀ z ∈ loadDraws noise s, z.isFinite = true)
    (hdisk : ∀ x ∈ diskDraws noise s, ((0 : Nat) : Double) ≤ x ∧ x < ((10 : Nat) : Double)) :
    (Profile.made noise e s).InRange := by
  have hpoints : 0 < Profile.madePoints := by decide
  obtain ⟨hcpu, hram, hcpuPeak, hramPeak⟩ := Profile.made_columns noise e s
  obtain ⟨htimes, hdiskCurve, hgpu, hdiskTotal⟩ := Profile.made_others noise e s
  have hcpuLength : (Profile.made noise e s).curve.cpu.length = Profile.madePoints := by
    rw [hcpu, List.length_map, length_loadDraws]
  have hramLength : (Profile.made noise e s).curve.ram.length = Profile.madePoints := by
    rw [hram, List.length_map, length_memoryDraws]
  have hcpuBetween : ∀ x ∈ (Profile.made noise e s).curve.cpu,
      ((0 : Nat) : Double) ≤ x ∧ x ≤ ((100 : Nat) : Double) := by
    intro x hx
    rw [hcpu] at hx
    obtain ⟨z, hz, rfl⟩ := List.mem_map.mp hx
    exact noisyLoad_between hload (hloads z hz)
  have hramNonneg : ∀ x ∈ (Profile.made noise e s).curve.ram, ((0 : Nat) : Double) ≤ x := by
    intro x hx
    rw [hram] at hx
    obtain ⟨z, -, rfl⟩ := List.mem_map.mp hx
    exact noisyMemory_nonneg e.memory z
  -- No point is negative, so the peaks are found among the points and not at the start of the
  -- search.
  obtain ⟨hcpuMem, hcpuLe⟩ := peak_of_nonneg (List.length_pos_iff.mp (hcpuLength ▸ hpoints))
    fun x hx => (hcpuBetween x hx).1
  obtain ⟨hramMem, hramLe⟩ :=
    peak_of_nonneg (List.length_pos_iff.mp (hramLength ▸ hpoints)) hramNonneg
  rw [← hcpuPeak] at hcpuMem hcpuLe
  rw [← hramPeak] at hramMem hramLe
  exact {
    length_times := by rw [htimes, List.length_map, List.length_range]
    length_cpu := hcpuLength
    length_ram := hramLength
    length_disk := by rw [hdiskCurve, length_diskDraws]
    length_gpu := by rw [hgpu, List.length_replicate]
    times_increasing := htimes ▸ madeTimes_increasing
    times_between := fun t ht => madeTimes_between (htimes ▸ ht)
    cpu_between := hcpuBetween
    ram_nonneg := hramNonneg
    disk_between := hdiskCurve ▸ hdisk
    cpuPeak_mem := hcpuMem
    le_cpuPeak := hcpuLe
    ramPeak_mem := hramMem
    le_ramPeak := hramLe
    diskTotal := by
      rw [hdiskCurve, hdiskTotal]
      obtain ⟨first, rest, hdraws⟩ := List.exists_cons_of_length_eq_add_one
        ((length_diskDraws noise s).trans (Nat.succ_pred hpoints.ne').symm)
      exact ⟨first, rest, hdraws, by rw [hdraws, sumFrom]⟩ }

/-- With the noise of reports, nothing is asked of the draws for the disk. -/
theorem Profile.inRange_made_seeded (g : Generator) (e : Entry Double)
    (hload : e.load.isFinite = true) (hloads : ∀ z ∈ loadDraws .seeded g, z.isFinite = true) :
    (Profile.made .seeded e g).InRange :=
  Profile.inRange_made .seeded g e hload hloads fun _ hx =>
    of_mem_draws (p := fun x => ((0 : Nat) : Double) ≤ x ∧ x < ((10 : Nat) : Double))
      Generator.toTen_between hx

/-- **Made profiles.** For any entry with a finite load and any noise whose draws for the loads are
finite and whose draws for the disk are from zero to ten, the made profile is in range. Its draws
are one row of normal draws, the first half for the loads and the second half for the memory, and
after them those for the disk. So the loads depend on no other figure of the entry, the memory on no
other figure either, and the disk traffic on none at all. -/
theorem made_profile_in_range (noise : Noise σ Double) (s : σ) (e : Entry Double)
    (hload : e.load.isFinite = true) (hloads : ∀ z ∈ loadDraws noise s, z.isFinite = true)
    (hdisk : ∀ x ∈ diskDraws noise s, ((0 : Nat) : Double) ≤ x ∧ x < ((10 : Nat) : Double)) :
    (Profile.made noise e s).InRange ∧
    ((draws noise.normal (2 * Profile.madePoints) s).1 = loadDraws noise s ++ memoryDraws noise s ∧
      (Profile.made noise e s).curve.cpu = (loadDraws noise s).map (noisyLoad e.load) ∧
      (Profile.made noise e s).curve.ram = (memoryDraws noise s).map (noisyMemory e.memory) ∧
      (Profile.made noise e s).curve.disk =
        (draws noise.toTen Profile.madePoints
          (draws noise.normal (2 * Profile.madePoints) s).2).1) ∧
    ∀ f : Entry Double,
      (f.load = e.load →
        (Profile.made noise f s).curve.cpu = (Profile.made noise e s).curve.cpu ∧
          (Profile.made noise f s).summary.cpuPeak = (Profile.made noise e s).summary.cpuPeak) ∧
      (f.memory = e.memory →
        (Profile.made noise f s).curve.ram = (Profile.made noise e s).curve.ram ∧
          (Profile.made noise f s).summary.ramPeak = (Profile.made noise e s).summary.ramPeak) ∧
      (Profile.made noise f s).curve.disk = (Profile.made noise e s).curve.disk ∧
      (Profile.made noise f s).summary.diskTotal =
        (Profile.made noise e s).summary.diskTotal := by
  obtain ⟨hcpu, hram, hcpuPeak, hramPeak⟩ := Profile.made_columns noise e s
  obtain ⟨-, hdiskCurve, -, hdiskTotal⟩ := Profile.made_others noise e s
  refine ⟨Profile.inRange_made noise s e hload hloads hdisk,
    ⟨normal_draws noise s, hcpu, hram, hdiskCurve⟩, ?_⟩
  intro f
  obtain ⟨hcpu', hram', hcpuPeak', hramPeak'⟩ := Profile.made_columns noise f s
  obtain ⟨-, hdiskCurve', -, hdiskTotal'⟩ := Profile.made_others noise f s
  -- The draws are the same for both entries, so a curve with the same figure is the same curve.
  refine ⟨fun hsame => ?_, fun hsame => ?_, ?_, ?_⟩
  · have hcurve : (Profile.made noise f s).curve.cpu = (Profile.made noise e s).curve.cpu := by
      rw [hcpu', hcpu, hsame]
    exact ⟨hcurve, by rw [hcpuPeak', hcpuPeak, hcurve]⟩
  · have hcurve : (Profile.made noise f s).curve.ram = (Profile.made noise e s).curve.ram := by
      rw [hram', hram, hsame]
    exact ⟨hcurve, by rw [hramPeak', hramPeak, hcurve]⟩
  · rw [hdiskCurve', hdiskCurve]
  · rw [hdiskTotal', hdiskTotal]

/-- Noise that takes the same few numbers in turn. -/
def sawtooth : Noise Nat Double where
  normal k := (((k % 7 : Nat) : Double) - ((3 : Nat) : Double), k + 1)
  toTen k := (((k % 10 : Nat) : Double), k + 1)

/-- An implementation with a load of more than one processor and a figure for memory that is none.
-/
def oddFigures : Entry Double :=
  { rayonOf ((780 : Nat) : Double) with memory := ((0 : Nat) : Double) - ((40 : Nat) : Double) }

/-- Whatever the turn, a normal draw of this noise is finite. -/
theorem isFinite_sawtooth (k : Nat) : (sawtooth.normal k).1.isFinite = true := by
  have hturn : ∀ r < 7, (((r : Nat) : Double) - ((3 : Nat) : Double)).isFinite = true := by
    decide +kernel
  exact hturn (k % 7) (Nat.mod_lt k (by decide))

/-- Whatever the turn, a draw for the disk is from zero to ten. -/
theorem sawtooth_between (k : Nat) :
    ((0 : Nat) : Double) ≤ (sawtooth.toTen k).1 ∧ (sawtooth.toTen k).1 < ((10 : Nat) : Double) := by
  have hturn : ∀ r < 10, ((0 : Nat) : Double) ≤ ((r : Nat) : Double) ∧
      ((r : Nat) : Double) < ((10 : Nat) : Double) := by
    decide +kernel
  exact hturn (k % 10) (Nat.mod_lt k (by decide))

/-- Such figures make a profile in range, with the loads of any other figure for memory. -/
theorem odd_figures_make_profile_in_range :
    oddFigures.load.isFinite = true ∧
      (∀ z ∈ loadDraws sawtooth 0, z.isFinite = true) ∧
      (∀ x ∈ diskDraws sawtooth 0, ((0 : Nat) : Double) ≤ x ∧ x < ((10 : Nat) : Double)) ∧
      (Profile.made sawtooth oddFigures 0).InRange ∧
      (Profile.made sawtooth (rayonOf ((780 : Nat) : Double)) 0).curve.cpu =
        (Profile.made sawtooth oddFigures 0).curve.cpu := by
  have hload : oddFigures.load.isFinite = true := by decide +kernel
  have hloads : ∀ z ∈ loadDraws sawtooth 0, z.isFinite = true := fun z hz =>
    of_mem_draws (p := fun z => z.isFinite = true) isFinite_sawtooth hz
  have hdisk : ∀ x ∈ diskDraws sawtooth 0,
      ((0 : Nat) : Double) ≤ x ∧ x < ((10 : Nat) : Double) := fun x hx =>
    of_mem_draws (p := fun x => ((0 : Nat) : Double) ≤ x ∧ x < ((10 : Nat) : Double))
      sawtooth_between hx
  obtain ⟨hrange, -, hothers⟩ := made_profile_in_range sawtooth 0 oddFigures hload hloads hdisk
  exact ⟨hload, hloads, hdisk, hrange, ((hothers (rayonOf ((780 : Nat) : Double))).1 rfl).1⟩

end PinnedBench
