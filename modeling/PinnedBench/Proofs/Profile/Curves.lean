import Mathlib
import PinnedBench.Double
import PinnedBench.Profile.Series

/-!
# Curves of series

A curve has a point for every sample of a short series, and otherwise as many points as were asked
for, taken every so many samples from the first sample on (`pickedPositions`). All of its columns
tell of the same samples (`Curve.shows_of`), and in exact arithmetic its times run from 0 to 100
unless time stands still between the first point and the last (`curve_of_chronological`).

The distance between the points is rounded down, so a curve ends before the series does unless the
number of samples is a multiple of the number of points: the rest of the division stands behind the
last distance (`curve_leaves_rest`). Of 99 samples, the fifty points of a profile show the first
fifty (`half_of_series_is_left_out`).
-/

namespace PinnedBench

/-! ### Positions -/

/-- The positions of the samples that are picked for so many points. -/
def pickedPositions (points count : Nat) : List Nat :=
  (List.range (min points count)).map (· * stride points count)

/-- The distance between the points: one in a short series, and otherwise the rounded quotient. -/
theorem stride_eq (points count : Nat) :
    stride points count = if count ≤ points then 1 else count / points := by
  rw [stride]
  by_cases h : points < count
  · rw [if_pos h, if_neg (Nat.not_le.mpr h)]
  · rw [if_neg h, if_pos (Nat.not_lt.mp h)]

/-- **Every position** that is picked is inside the series. -/
theorem position_lt {points count i : Nat} (hi : i < min points count) :
    i * stride points count < count := by
  obtain ⟨hpoint, hcount⟩ := lt_min_iff.mp hi
  rw [stride_eq]
  split
  · rwa [Nat.mul_one]
  · have hstride : 0 < count / points := Nat.div_pos (by omega) (by omega)
    calc i * (count / points) < points * (count / points) :=
          Nat.mul_lt_mul_of_pos_right hpoint hstride
      _ ≤ count := Nat.mul_div_le count points

/-- The last position is one distance short for every point but the first. -/
theorem getLast?_pickedPositions {points count : Nat} (h : 0 < min points count) :
    (pickedPositions points count).getLast? =
      some ((min points count - 1) * stride points count) := by
  rw [pickedPositions, List.getLast?_map, List.getLast?_range, if_neg h.ne']
  rfl

/-! ### Picked samples -/

section Picked

variable {α : Type} {points : Nat} {samples : List (Sample α)}

/-- Where nothing is filtered out, filtering is mapping. -/
theorem map_some_filterMap {β γ : Type} {f : β → Option γ} {l : List β}
    (h : ∀ x ∈ l, ∃ y, f x = some y) : (l.filterMap f).map some = l.map f := by
  induction l with
  | nil => rfl
  | cons x l ih =>
    obtain ⟨y, hy⟩ := h x List.mem_cons_self
    rw [List.filterMap_cons_some hy, List.map_cons, List.map_cons, hy,
      ih fun z hz => h z (List.mem_cons_of_mem x hz)]

/-- No position is skipped, since all of them are inside the series. -/
theorem map_some_picked (points : Nat) (samples : List (Sample α)) :
    (picked points samples).map some =
      (pickedPositions points samples.length).map (samples[·]?) := by
  rw [picked, map_some_filterMap, pickedPositions, List.map_map]
  · rfl
  · intro i hi
    exact ⟨_, List.getElem?_eq_getElem (position_lt (List.mem_range.mp hi))⟩

/-- There are as many points as were asked for, or as there are samples. -/
theorem length_picked (points : Nat) (samples : List (Sample α)) :
    (picked points samples).length = min points samples.length := by
  have h := congrArg List.length (map_some_picked points samples)
  rwa [List.length_map, List.length_map, pickedPositions, List.length_map, List.length_range] at h

/-- The sample of a point is the one at its position. -/
theorem getElem?_picked {i : Nat} (hi : i < min points samples.length) :
    (picked points samples)[i]? = samples[i * stride points samples.length]? := by
  have h := congrArg (·[i]?) (map_some_picked points samples)
  simp only [pickedPositions, List.getElem?_map, List.getElem?_range hi] at h
  rw [← length_picked] at hi
  rw [List.getElem?_eq_getElem hi] at h ⊢
  exact Option.some.inj h

theorem getLast?_picked (h : 0 < min points samples.length) :
    (picked points samples).getLast? =
      samples[(min points samples.length - 1) * stride points samples.length]? := by
  rw [List.getLast?_eq_getElem?, length_picked, getElem?_picked (by omega)]

theorem mem_of_mem_picked {x : Sample α} (hx : x ∈ picked points samples) : x ∈ samples := by
  obtain ⟨i, -, hi⟩ := List.mem_filterMap.mp hx
  exact List.mem_of_getElem? hi

/-- A relation between earlier and later items holds for their positions, and for a position and
itself. -/
theorem rel_of_pairwise {β : Type} {R : β → β → Prop} {l : List β} (hrefl : ∀ x, R x x)
    (h : l.Pairwise R) {i j : Nat} {x y : β} (hij : i ≤ j) (hx : l[i]? = some x)
    (hy : l[j]? = some y) : R x y := by
  rcases hij.lt_or_eq with hlt | rfl
  · obtain ⟨hi, rfl⟩ := List.getElem?_eq_some_iff.mp hx
    obtain ⟨hj, rfl⟩ := List.getElem?_eq_some_iff.mp hy
    exact List.pairwise_iff_getElem.mp h i j hi hj hlt
  · obtain rfl := Option.some.inj (hx.symm.trans hy)
    exact hrefl x

/-- **Picking** keeps the order of a series. -/
theorem pairwise_picked {R : Sample α → Sample α → Prop} (hrefl : ∀ x, R x x)
    (h : samples.Pairwise R) : (picked points samples).Pairwise R := by
  rw [picked, List.pairwise_filterMap]
  refine List.pairwise_lt_range.imp ?_
  intro i j hij x hx y hy
  exact rel_of_pairwise hrefl h (Nat.mul_le_mul_right _ hij.le) hx hy

/-- A series whose times never go back. -/
def Chronological [LE α] (samples : List (Sample α)) : Prop :=
  samples.Pairwise fun x y => x.elapsed ≤ y.elapsed

theorem Chronological.le [Preorder α] (h : Chronological samples) {i j : Nat} {x y : Sample α}
    (hij : i ≤ j) (hx : samples[i]? = some x) (hy : samples[j]? = some y) :
    x.elapsed ≤ y.elapsed :=
  rel_of_pairwise (R := fun x y : Sample α => x.elapsed ≤ y.elapsed) (fun _ => le_rfl) h hij hx hy

/-- All times lie between those of the first sample and of the last. -/
theorem Chronological.between [Preorder α] (h : Chronological samples) {first last x : Sample α}
    (hfirst : samples[0]? = some first) (hlast : samples[samples.length - 1]? = some last)
    (hx : x ∈ samples) : first.elapsed ≤ x.elapsed ∧ x.elapsed ≤ last.elapsed := by
  obtain ⟨i, hi⟩ := List.mem_iff_getElem?.mp hx
  obtain ⟨hlength, -⟩ := List.getElem?_eq_some_iff.mp hi
  exact ⟨h.le (Nat.zero_le i) hfirst hi, h.le (Nat.le_sub_one_of_lt hlength) hi hlast⟩

end Picked

/-! ### Columns -/

section Columns

variable {α : Type} [Add α] [Sub α] [Mul α] [Div α] [NatCast α] [LT α] [DecidableLT α]
  {points : Nat} {samples : List (Sample α)}

/-- What the columns of a curve tell at one place, if they tell of one sample. -/
structure Curve.Shows (c : Curve α) (i : Nat) (x : Sample α) : Prop where
  /-- The load of the processor is that of the sample, -/
  cpu : c.cpu[i]? = some x.reading.cpu
  /-- the memory is, -/
  ram : c.ram[i]? = some x.reading.ram
  /-- the disk traffic is what was read and written, -/
  disk : c.disk[i]? = some (x.reading.diskRead + x.reading.diskWritten)
  /-- and so is the load of the graphics card. -/
  gpu : c.gpu[i]? = some x.reading.gpu

/-- **A row of a curve** tells of one sample, the one at a multiple of the stride. -/
theorem Curve.shows_of {i : Nat} (hi : i < min points samples.length) :
    ∃ x, samples[i * stride points samples.length]? = some x ∧
      (picked points samples)[i]? = some x ∧ (Curve.of points samples).Shows i x := by
  have hget := List.getElem?_eq_getElem (position_lt hi)
  have hpicked := (getElem?_picked hi).trans hget
  refine ⟨_, hget, hpicked, ?_⟩
  constructor <;> simp only [Curve.of, List.getElem?_map, hpicked, Option.map_some]

/-- The last load of a curve is that of the sample at the last position. -/
theorem getLast?_cpu (h : 0 < min points samples.length) :
    (Curve.of points samples).cpu.getLast? =
      (samples[(min points samples.length - 1) * stride points samples.length]?).map
        (·.reading.cpu) := by
  rw [Curve.of, List.getLast?_map, List.getLast?_map, getLast?_picked h, Option.map_map]
  rfl

/-- **What a curve leaves out.** A curve shows the samples at the picked positions. Behind the last
of them, in a series with more samples than points, there are the samples of its distance and the
rest that the division by the number of points leaves. So what is left out there fits into one
distance exactly if the number of samples is a multiple of the number of points. -/
theorem curve_leaves_rest (hpoints : 1 ≤ points) (hcount : points < samples.length) :
    (picked points samples).map some =
      (pickedPositions points samples.length).map (samples[·]?) ∧
    ∃ last x, (pickedPositions points samples.length).getLast? = some last ∧
      samples[last]? = some x ∧ (Curve.of points samples).cpu.getLast? = some x.reading.cpu ∧
      samples.length - 1 - last =
        (samples.length / points - 1) + samples.length % points ∧
      (samples.length - 1 - last < samples.length / points ↔ points ∣ samples.length) := by
  have hmin : min points samples.length = points := min_eq_left hcount.le
  have hstride : stride points samples.length = samples.length / points := by
    rw [stride_eq, if_neg (Nat.not_le.mpr hcount)]
  have hpos : 0 < min points samples.length := by rwa [hmin]
  have hlast := getLast?_pickedPositions hpos
  have hcpu := getLast?_cpu hpos
  have hlt := position_lt (Nat.sub_lt hpos one_pos)
  rw [hmin, hstride] at hlast hcpu hlt
  have hget := List.getElem?_eq_getElem hlt
  rw [hget] at hcpu
  refine ⟨map_some_picked points samples, _, _, hlast, hget, hcpu, ?_⟩
  -- The series is as long as all distances and the rest together.
  have hparts := Nat.div_add_mod samples.length points
  have hone : 1 ≤ samples.length / points := Nat.div_pos hcount.le hpoints
  have hdistances : points * (samples.length / points) =
      (points - 1) * (samples.length / points) + samples.length / points := by
    rw [← Nat.succ_mul, Nat.succ_eq_add_one, Nat.sub_add_cancel hpoints]
  rw [Nat.dvd_iff_mod_eq_zero]
  omega

end Columns

/-- A series of so many readings, whose times and loads count them. -/
def countedSeries {α : Type} [NatCast α] (n : Nat) : List (Sample α) :=
  let zero : α := ((0 : Nat) : α)
  (List.range n).map fun (i : Nat) => ⟨(i : α), ⟨(i : α), zero, zero, zero, zero⟩⟩

@[simp]
theorem length_countedSeries {α : Type} [NatCast α] (n : Nat) :
    (countedSeries n : List (Sample α)).length = n := by
  rw [countedSeries, List.length_map, List.length_range]

/-- Two hundred samples are four for each of fifty points, and three are left out. -/
theorem multiple_of_points_is_covered :
    ∃ last, (pickedPositions Profile.points 200).getLast? = some last ∧
      (Profile.of (countedSeries 200 : List (Sample Double))).curve.cpu.getLast? =
        ((countedSeries 200 : List (Sample Double))[last]?).map (·.reading.cpu) ∧
      200 - 1 - last = 3 ∧ 3 < 200 / Profile.points := by
  have hcount : Profile.points < (countedSeries 200 : List (Sample Double)).length := by
    rw [length_countedSeries]
    decide
  obtain ⟨-, last, x, hlast, hx, hcpu, hleft, -⟩ := curve_leaves_rest (by decide) hcount
  rw [length_countedSeries] at hlast hleft
  refine ⟨last, hlast, ?_, hleft, by decide⟩
  rw [hx]
  exact hcpu

/-- **Of 99 samples**, the curve of a profile shows the first fifty, although there is one for each
point and more: 49 samples are left out behind the last point. -/
theorem half_of_series_is_left_out :
    ∃ last, (pickedPositions Profile.points 99).getLast? = some last ∧
      (Profile.of (countedSeries 99 : List (Sample Double))).curve.cpu.getLast? =
        some ((last : Nat) : Double) ∧
      99 - 1 - last = 49 ∧ ¬99 - 1 - last < 99 / Profile.points := by
  refine ⟨49, by decide, ?_, by decide, by decide⟩
  have hlength : (countedSeries 99 : List (Sample Double)).length = 99 := length_countedSeries 99
  have hpicked : 0 < min Profile.points (countedSeries 99 : List (Sample Double)).length := by
    rw [hlength]
    decide
  have hcpu := getLast?_cpu hpicked
  rw [hlength] at hcpu
  exact hcpu

/-! ### Times -/

section Times

variable {K : Type} [Field K] [LinearOrder K] {points : Nat} {samples : List (Sample K)}

/-- What the times of a curve are divided by. -/
def timeSpan (first last : Sample K) : K :=
  if first.elapsed < last.elapsed then last.elapsed - first.elapsed else 1

/-- The times are what has gone by since the first sample, in parts of the span. -/
theorem scaledTimes_eq {chosen : List (Sample K)} {first last : Sample K}
    (hfirst : chosen.head? = some first) (hlast : chosen.getLast? = some last) :
    scaledTimes chosen =
      chosen.map fun x => (x.elapsed - first.elapsed) / timeSpan first last * 100 := by
  rw [scaledTimes, hfirst, hlast, timeSpan, Nat.cast_one, Nat.cast_ofNat]

variable [IsStrictOrderedRing K]

/-- The span is positive, because it is one where no time has gone by. -/
theorem timeSpan_pos (first last : Sample K) : 0 < timeSpan first last := by
  rw [timeSpan]
  split
  next h => exact sub_pos.mpr h
  next => exact one_pos

/-- A time up to the last is at most the span behind the first. -/
theorem sub_le_timeSpan {first last x : Sample K} (h : x.elapsed ≤ last.elapsed) :
    x.elapsed - first.elapsed ≤ timeSpan first last := by
  rw [timeSpan]
  split
  next => exact sub_le_sub_right h _
  next hno => linarith

/-- **The times** of samples in order of time: they start at 0, never go back and never pass 100,
which the last sample reaches unless no time has gone by. -/
theorem scaledTimes_of_chronological {chosen : List (Sample K)} (h : Chronological chosen)
    {first last : Sample K} (hfirst : chosen[0]? = some first)
    (hlast : chosen[chosen.length - 1]? = some last) :
    (scaledTimes chosen).Pairwise (· ≤ ·) ∧ (∀ t ∈ scaledTimes chosen, 0 ≤ t ∧ t ≤ 100) ∧
      (scaledTimes chosen).head? = some 0 ∧
      (first.elapsed < last.elapsed → (scaledTimes chosen).getLast? = some 100) ∧
      (¬first.elapsed < last.elapsed → ∀ t ∈ scaledTimes chosen, t = 0) := by
  have hspan := timeSpan_pos first last
  have hhead : chosen.head? = some first := by rwa [List.head?_eq_getElem?]
  have hend : chosen.getLast? = some last := by rwa [List.getLast?_eq_getElem?]
  rw [scaledTimes_eq hhead hend]
  -- Scaling by a positive span keeps the order, and everything else is said of single times.
  refine ⟨?_, ?_, ?_, ?_, ?_⟩
  · rw [List.pairwise_map]
    refine h.imp ?_
    intro x y hxy
    gcongr
  · intro t ht
    obtain ⟨x, hx, rfl⟩ := List.mem_map.mp ht
    obtain ⟨hge, hle⟩ := h.between hfirst hlast hx
    have hnonneg : 0 ≤ x.elapsed - first.elapsed := sub_nonneg.mpr hge
    have hone : (x.elapsed - first.elapsed) / timeSpan first last ≤ 1 :=
      (div_le_one hspan).mpr (sub_le_timeSpan hle)
    constructor
    · positivity
    · linarith
  · rw [List.head?_map, hhead, Option.map_some, sub_self, zero_div, zero_mul]
  · intro hlt
    have hdiff : last.elapsed - first.elapsed ≠ 0 := (sub_pos.mpr hlt).ne'
    rw [List.getLast?_map, hend, Option.map_some, timeSpan, if_pos hlt, div_self hdiff, one_mul]
  · intro hno t ht
    obtain ⟨x, hx, rfl⟩ := List.mem_map.mp ht
    obtain ⟨hge, hle⟩ := h.between hfirst hlast hx
    have hsame : x.elapsed = first.elapsed := le_antisymm (hle.trans (not_lt.mp hno)) hge
    rw [hsame, sub_self, zero_div, zero_mul]

/-- **The shape of a curve** of samples whose times never go back. All columns have a point for each
sample that is picked, and the points tell of the samples at the multiples of the stride, which are
inside the series. What the times are divided by is positive. -/
theorem curve_of_chronological (points : Nat) (h : Chronological samples) :
    ((Curve.of points samples).times.length = min points samples.length ∧
      (Curve.of points samples).cpu.length = min points samples.length ∧
      (Curve.of points samples).ram.length = min points samples.length ∧
      (Curve.of points samples).disk.length = min points samples.length ∧
      (Curve.of points samples).gpu.length = min points samples.length) ∧
    stride points samples.length =
      (if samples.length ≤ points then 1 else samples.length / points) ∧
    (∀ i < min points samples.length, ∃ x,
      samples[i * stride points samples.length]? = some x ∧
        (Curve.of points samples).Shows i x) ∧
    (Curve.of points samples).times.Pairwise (· ≤ ·) ∧
    (∀ t ∈ (Curve.of points samples).times, 0 ≤ t ∧ t ≤ 100) ∧
    (0 < min points samples.length → ∃ first last,
      samples[0]? = some first ∧
        samples[(min points samples.length - 1) * stride points samples.length]? = some last ∧
        0 < timeSpan first last ∧
        (∀ i < min points samples.length, ∃ x,
          samples[i * stride points samples.length]? = some x ∧
            (Curve.of points samples).times[i]? =
              some ((x.elapsed - first.elapsed) / timeSpan first last * 100)) ∧
        (Curve.of points samples).times.head? = some 0 ∧
        (first.elapsed < last.elapsed → (Curve.of points samples).times.getLast? = some 100) ∧
        (¬first.elapsed < last.elapsed → ∀ t ∈ (Curve.of points samples).times, t = 0)) := by
  have hpicked : Chronological (picked points samples) := pairwise_picked (fun _ => le_rfl) h
  have hlength := length_picked points samples
  have hrows : ∀ i < min points samples.length, ∃ x,
      samples[i * stride points samples.length]? = some x ∧
        (Curve.of points samples).Shows i x := by
    intro i hi
    obtain ⟨x, hx, -, hshows⟩ := Curve.shows_of hi
    exact ⟨x, hx, hshows⟩
  rcases Nat.eq_zero_or_pos (min points samples.length) with hzero | hpos
  · -- Nothing is picked, and no column has a point.
    have hnil : picked points samples = [] := List.eq_nil_of_length_eq_zero (hlength.trans hzero)
    have hcurve : Curve.of points samples = .empty := by
      rw [Curve.of, hnil]
      rfl
    rw [hzero] at hrows ⊢
    rw [hcurve] at hrows ⊢
    exact ⟨⟨rfl, rfl, rfl, rfl, rfl⟩, stride_eq _ _, hrows, .nil, by simp [Curve.empty],
      fun hno => absurd hno (lt_irrefl 0)⟩
  · -- The first and the last sample that are picked are where the times begin and end.
    obtain ⟨first, hfirst, hfirstPicked, -⟩ := Curve.shows_of hpos
    obtain ⟨last, hlast, hlastPicked, -⟩ := Curve.shows_of (Nat.sub_lt hpos one_pos)
    rw [Nat.zero_mul] at hfirst
    rw [← hlength] at hlastPicked
    have htimes : (Curve.of points samples).times = (picked points samples).map
        fun x => (x.elapsed - first.elapsed) / timeSpan first last * 100 :=
      scaledTimes_eq (by rwa [List.head?_eq_getElem?]) (by rwa [List.getLast?_eq_getElem?])
    obtain ⟨hsorted, hbounds, hstart, hfinish, hstill⟩ :=
      scaledTimes_of_chronological hpicked hfirstPicked hlastPicked
    refine ⟨?_, stride_eq _ _, hrows, hsorted, hbounds, fun _ => ?_⟩
    · refine ⟨?_, ?_, ?_, ?_, ?_⟩
      · rw [htimes, List.length_map, hlength]
      all_goals simp only [Curve.of, List.length_map, hlength]
    · refine ⟨first, last, hfirst, hlast, timeSpan_pos first last, ?_, hstart, hfinish, hstill⟩
      intro i hi
      obtain ⟨x, hx, hxPicked, -⟩ := Curve.shows_of hi
      refine ⟨x, hx, ?_⟩
      rw [htimes, List.getElem?_map, hxPicked, Option.map_some]

/-- Three samples of which two are picked: the second one stands at the end of the curve. -/
theorem three_samples_for_two_points :
    (Curve.of 2 (countedSeries 3 : List (Sample ℚ))).times.head? = some 0 ∧
      (Curve.of 2 (countedSeries 3 : List (Sample ℚ))).times.getLast? = some 100 ∧
      (Curve.of 2 (countedSeries 3 : List (Sample ℚ))).cpu.length = 2 := by
  have hseries : Chronological (countedSeries 3 : List (Sample ℚ)) := by
    simp [Chronological, countedSeries, List.range_succ]
  obtain ⟨⟨-, hlength, -⟩, -, -, -, -, hends⟩ := curve_of_chronological 2 hseries
  obtain ⟨first, last, hfirst, hlast, -, -, hstart, hfinish, -⟩ := hends (by decide)
  obtain rfl := Option.some.inj hfirst
  obtain rfl := Option.some.inj hlast
  exact ⟨hstart, hfinish (by norm_num), hlength⟩

end Times

end PinnedBench
