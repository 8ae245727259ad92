import Mathlib
import PinnedBench.Profile.Counters
import PinnedBench.Proofs.Double.Quotients

/-!
# Loads over runs

The load is measured again and again while a benchmark runs, each time from the counters of the
processors and those that could be read last. Some readings fail, and counters may stand still or
even fall.

`CpuMemory.loads` is such a run. What is remembered in it are the latest times that could be read
(`CpuMemory.memory_loads`), so each load is taken against those, over any gap in between
(`CpuMemory.getElem?_loads`). `IsLoad` says what may be relied on of one load in exact arithmetic,
`IsStoredLoad` what is left of that for stored numbers, and `CpuMemory.loads_of_run` says both of
all loads of a run.
-/

namespace PinnedBench

/-- The time in which the processors were idle. -/
def CpuTimes.idle (t : CpuTimes) : Nat := t.total.toNat - t.busy.toNat

/-- The growth of the total is that of the busy time and that of the idle time. -/
theorem CpuTimes.busy_sub_le {last now : CpuTimes} (h : last.total < now.total)
    (hnow : now.busy ≤ now.total) (hidle : last.idle ≤ now.idle) :
    now.busy.toNat - last.busy.toNat ≤ now.total.toNat - last.total.toNat := by
  -- Times are words of 64 bits; from here on it is about whole numbers.
  have hlt : last.total.toNat < now.total.toNat := UInt64.lt_iff_toNat_lt.mp h
  have hbusy : now.busy.toNat ≤ now.total.toNat := UInt64.le_iff_toNat_le.mp hnow
  unfold CpuTimes.idle at hidle
  omega

/-- The times of a run that could be read last. -/
def latestTimes (readings : List (Option CpuTimes)) : Option CpuTimes :=
  readings.reduceOption.getLast?

/-- The first reading counts if none of the later ones could be read. -/
theorem latestTimes_cons (r : Option CpuTimes) (readings : List (Option CpuTimes)) :
    latestTimes (r :: readings) = (latestTimes readings).or r := by
  unfold latestTimes
  cases r with
  | none => rw [List.reduceOption_cons_of_none, Option.or_none]
  | some t =>
    rw [List.reduceOption_cons_of_some, List.getLast?_cons]
    -- The last of the later readings wins where there is one.
    cases readings.reduceOption.getLast? <;> rfl

namespace CpuMemory

/-! ### Runs -/

section Run

variable {α : Type} [NatCast α] [Div α] [Mul α]

/-- What is remembered are the times that are read, or else those from before. -/
theorem memory_load (memory : CpuMemory) (r : Option CpuTimes) :
    (memory.load (α := α) r).2 = r.or memory := by
  cases r <;> rfl

/-- The load is a quotient where the total has grown, and zero everywhere else. -/
theorem load_eq (last now : CpuTimes) :
    (load (α := α) (some last) (some now)).1 =
      if last.total < now.total then
        ((now.busy.toNat - last.busy.toNat : Nat) : α) /
          ((now.total.toNat - last.total.toNat : Nat) : α) * ((100 : Nat) : α)
      else ((0 : Nat) : α) := rfl

/-- **The loads of a run**, one for each reading, and what is remembered at its end. -/
def loads (memory : CpuMemory) : List (Option CpuTimes) → List α × CpuMemory
  | [] => ([], memory)
  | r :: rest =>
    let (x, next) := memory.load r
    let (xs, last) := loads next rest
    (x :: xs, last)

theorem loads_cons (memory : CpuMemory) (r : Option CpuTimes) (rest : List (Option CpuTimes)) :
    memory.loads (α := α) (r :: rest) =
      ((memory.load r).1 :: (loads (r.or memory) rest).1,
        (loads (α := α) (r.or memory) rest).2) := by
  rw [← memory_load (α := α) memory r]
  rfl

/-- **What is remembered** are the latest times that could be read. -/
theorem memory_loads (memory : CpuMemory) (readings : List (Option CpuTimes)) :
    (memory.loads (α := α) readings).2 = (latestTimes readings).or memory := by
  -- What is remembered changes with every reading, so the induction is over any memory.
  induction readings generalizing memory with
  | nil => rfl
  | cons r rest ih => rw [loads_cons, ih, latestTimes_cons, Option.or_assoc]

/-- **Each load** is taken against the latest times before it. -/
theorem getElem?_loads (memory : CpuMemory) (readings : List (Option CpuTimes)) (i : Nat) :
    (memory.loads (α := α) readings).1[i]? =
      readings[i]?.map fun r => (load ((latestTimes (readings.take i)).or memory) r).1 := by
  -- The load at the front is taken against the memory, and the others run on what the front leaves.
  induction readings generalizing memory i with
  | nil => rfl
  | cons r rest ih =>
    rw [loads_cons]
    cases i with
    | zero => rfl
    | succ i =>
      -- The readings before `i + 1` are the front and those before `i` in the rest.
      rw [List.getElem?_cons_succ, List.getElem?_cons_succ, List.take_succ_cons, ih,
        latestTimes_cons, Option.or_assoc]

/-- There is a load for every reading, whether it could be read or not. -/
theorem length_loads (memory : CpuMemory) (readings : List (Option CpuTimes)) :
    (memory.loads (α := α) readings).1.length = readings.length := by
  induction readings generalizing memory with
  | nil => rfl
  | cons r rest ih => rw [loads_cons, List.length_cons, ih, List.length_cons]

end Run

/-! ### Exact loads -/

section Exact

variable {K : Type} [Field K] [LinearOrder K] [IsStrictOrderedRing K]

/-- **What a load says**, given the times that could be read last and those that are read now, if
any. Where the total has grown, its growth is a word that has not wrapped around and is not zero. -/
structure IsLoad (last now : Option CpuTimes) (x : K) : Prop where
  /-- No load is negative, also where a counter went back. -/
  nonneg : 0 ≤ x
  /-- What cannot be read is no load. -/
  unread : now = none → x = 0
  /-- There is nothing to compare the first times with. -/
  first : last = none → x = 0
  /-- A total that has not grown is no time that could have been busy. -/
  stalled : ∀ a ∈ last, ∀ b ∈ now, b.total ≤ a.total → x = 0
  /-- Where the total has grown, the load is the growth of the busy time in hundredths of it, and a
  busy time that went back counts as one that has not grown. -/
  grown : ∀ a ∈ last, ∀ b ∈ now, a.total < b.total →
    a.total.toNat + (b.total - a.total).toNat = b.total.toNat ∧ 0 < (b.total - a.total).toNat ∧
      x = (b.busy.toNat - a.busy.toNat : Nat) / ((b.total - a.total).toNat : K) * 100
  /-- If the idle time has not shrunk, the busy time has not grown more than the total. -/
  le_hundred : ∀ a ∈ last, ∀ b ∈ now, a.total < b.total → a.idle ≤ b.idle → x ≤ 100
  /-- If the busy time has not shrunk either, the load is the quotient of the two growths. -/
  eq_of_busy_le : ∀ a ∈ last, ∀ b ∈ now, a.total < b.total → a.busy ≤ b.busy →
    x = 100 * (b.busy.toNat - a.busy.toNat) / (b.total.toNat - a.total.toNat)

omit [IsStrictOrderedRing K] in
/-- No load is right wherever the total has not grown, or one of the two times is missing. -/
theorem isLoad_zero {last now : Option CpuTimes}
    (h : ∀ a ∈ last, ∀ b ∈ now, b.total ≤ a.total) : IsLoad last now (0 : K) where
  nonneg := le_rfl
  unread _ := rfl
  first _ := rfl
  stalled _ _ _ _ _ := rfl
  grown a ha b hb hlt := absurd hlt (UInt64.not_lt.mpr (h a ha b hb))
  le_hundred a ha b hb hlt := absurd hlt (UInt64.not_lt.mpr (h a ha b hb))
  eq_of_busy_le a ha b hb hlt := absurd hlt (UInt64.not_lt.mpr (h a ha b hb))

/-- A quotient of a growth of the total is as a load should be. -/
theorem isLoad_quotient {last now : CpuTimes} (h : last.total < now.total)
    (hnow : now.busy ≤ now.total) :
    IsLoad (some last) (some now) (((now.busy.toNat - last.busy.toNat : Nat) : K) /
      ((now.total.toNat - last.total.toNat : Nat) : K) * 100) := by
  have hlt : last.total.toNat < now.total.toNat := UInt64.lt_iff_toNat_lt.mp h
  -- The total has grown, so the difference of the words does not wrap around.
  have hgrowth : (now.total - last.total).toNat = now.total.toNat - last.total.toNat :=
    UInt64.toNat_sub_of_le _ _ (UInt64.le_of_lt h)
  have hpos : (0 : K) < ((now.total.toNat - last.total.toNat : Nat) : K) := by
    exact_mod_cast Nat.sub_pos_of_lt hlt
  -- There are times to compare with on both sides; what is left is about the quotient.
  constructor
  case nonneg => positivity
  case unread => exact nofun
  case first => exact nofun
  case stalled =>
    rintro _ ⟨⟩ _ ⟨⟩ hle
    exact absurd h (UInt64.not_lt.mpr hle)
  case grown =>
    rintro _ ⟨⟩ _ ⟨⟩ -
    rw [hgrowth]
    exact ⟨by omega, by omega, rfl⟩
  case le_hundred =>
    rintro _ ⟨⟩ _ ⟨⟩ - hidle
    have hle := CpuTimes.busy_sub_le h hnow hidle
    -- The growth of the busy time is a part of that of the total, as the idle time has not shrunk.
    have hone : ((now.busy.toNat - last.busy.toNat : Nat) : K) /
        ((now.total.toNat - last.total.toNat : Nat) : K) ≤ 1 := by
      rw [div_le_one hpos]
      exact_mod_cast hle
    linarith
  case eq_of_busy_le =>
    rintro _ ⟨⟩ _ ⟨⟩ - hbusy
    -- Neither difference is cut off at zero, so both may be taken of the numbers.
    rw [Nat.cast_sub (UInt64.le_iff_toNat_le.mp hbusy), Nat.cast_sub hlt.le]
    ring

/-- **Each load** is right, whatever is remembered and whatever is read. -/
theorem isLoad_load (memory : CpuMemory) {r : Option CpuTimes}
    (h : ∀ t ∈ r, t.busy ≤ t.total) : IsLoad memory r (memory.load (α := K) r).1 := by
  cases r with
  | none =>
    -- Times that cannot be read count as no load.
    have hzero : (memory.load (α := K) none).1 = 0 := Nat.cast_zero
    rw [hzero]
    exact isLoad_zero fun _ _ _ => nofun
  | some now =>
    cases memory with
    | none =>
      -- There is nothing to compare the first times with.
      have hzero : (load (α := K) none (some now)).1 = 0 := Nat.cast_zero
      rw [hzero]
      exact isLoad_zero fun _ => nofun
    | some last =>
      rw [load_eq]
      -- The total decides: it has grown, or the load is set to zero.
      split
      next hlt =>
        rw [Nat.cast_ofNat]
        exact isLoad_quotient hlt (h now rfl)
      next hle =>
        rw [Nat.cast_zero]
        apply isLoad_zero
        rintro _ ⟨⟩ _ ⟨⟩
        exact UInt64.not_lt.mp hle

end Exact

/-! ### Stored loads -/

/-- **What a load says as a stored number**: it is finite and not negative, and it is at most a
hundred where the total has grown and the idle time has not shrunk, in spite of rounding. -/
structure IsStoredLoad (last now : Option CpuTimes) (x : Double) : Prop where
  /-- No division by zero and no overflow comes about. -/
  finite : x.isFinite = true
  /-- No load is negative. -/
  nonneg : 0 ≤ x.value
  /-- What cannot be read is no load. -/
  unread : now = none → x = ((0 : Nat) : Double)
  /-- There is nothing to compare the first times with. -/
  first : last = none → x = ((0 : Nat) : Double)
  /-- A total that has not grown is no time that could have been busy. -/
  stalled : ∀ a ∈ last, ∀ b ∈ now, b.total ≤ a.total → x = ((0 : Nat) : Double)
  /-- Rounding does not take a load above a hundred. -/
  le_hundred : ∀ a ∈ last, ∀ b ∈ now, a.total < b.total → a.idle ≤ b.idle → x.value ≤ 100

/-- No load is right as a stored number too, and zero is stored as it is. -/
theorem isStoredLoad_zero (last now : Option CpuTimes) :
    IsStoredLoad last now ((0 : Nat) : Double) := by
  have hzero : ((0 : Nat) : Double).value = 0 := Double.value_natCast_of_lt (by decide)
  constructor
  case finite => exact isFinite_zero
  case nonneg => exact hzero.ge
  case le_hundred =>
    intro a _ b _ _ _
    rw [hzero]
    norm_num
  all_goals intros; rfl

/-- **Each stored load** is right, whatever is remembered and whatever is read. -/
theorem isStoredLoad_load (memory : CpuMemory) {r : Option CpuTimes}
    (h : ∀ t ∈ r, t.busy ≤ t.total) : IsStoredLoad memory r (memory.load r).1 := by
  cases r with
  | none => exact isStoredLoad_zero memory none
  | some now =>
    cases memory with
    | none => exact isStoredLoad_zero none (some now)
    | some last =>
      rw [load_eq]
      split
      next hlt =>
        have hgrown : last.total.toNat < now.total.toNat := UInt64.lt_iff_toNat_lt.mp hlt
        have hbusy := now.busy.toNat_lt
        have htotal := now.total.toNat_lt
        -- Both growths are below `2 ^ 64`, so their quotient is far from overflow, and rounding is
        -- monotone and keeps the hundred.
        obtain ⟨hfinite, hnonneg, hhundred⟩ := Double.percentage
          (n := now.busy.toNat - last.busy.toNat) (m := now.total.toNat - last.total.toNat)
          (by omega) (by omega) (by omega)
        constructor
        case finite => exact hfinite
        case nonneg => exact hnonneg
        case unread => exact nofun
        case first => exact nofun
        case stalled =>
          rintro _ ⟨⟩ _ ⟨⟩ hle
          exact absurd hlt (UInt64.not_lt.mpr hle)
        case le_hundred =>
          rintro _ ⟨⟩ _ ⟨⟩ - hidle
          exact hhundred (CpuTimes.busy_sub_le hlt (h now rfl) hidle)
      next => exact isStoredLoad_zero (some last) (some now)

/-! ### All loads of a run -/

/-- **What is said of a run**: there is a load for each reading, what is remembered on the way are
always the latest times that could be read, and of each load `P` is true with those times and the
ones that are read. -/
structure LoadsSatisfy {α : Type} [NatCast α] [Div α] [Mul α]
    (P : Option CpuTimes → Option CpuTimes → α → Prop) (readings : List (Option CpuTimes)) :
    Prop where
  /-- There is a load for each reading. -/
  length : (loads (α := α) none readings).1.length = readings.length
  /-- What is remembered before a reading are the latest times that were read. -/
  latest : ∀ i, (loads (α := α) none (readings.take i)).2 = latestTimes (readings.take i)
  /-- Each load is one of these times and its reading. -/
  load : ∀ i r x, readings[i]? = some r → (loads (α := α) none readings).1[i]? = some x →
    P (latestTimes (readings.take i)) r x

theorem loadsSatisfy_of_load {α : Type} [NatCast α] [Div α] [Mul α]
    {P : Option CpuTimes → Option CpuTimes → α → Prop} {readings : List (Option CpuTimes)}
    (h : ∀ memory : CpuMemory, ∀ r ∈ readings, P memory r (memory.load r).1) :
    LoadsSatisfy P readings := by
  refine ⟨length_loads none readings, fun i => ?_, fun i r x hr hx => ?_⟩
  · rw [memory_loads, Option.or_none]
  · -- The run begins with nothing in memory, so the latest times before `i` are all there is.
    rw [getElem?_loads, hr, Option.or_none] at hx
    obtain rfl := Option.some.inj hx
    exact h _ r (List.mem_of_getElem? hr)

/-- **The loads of a run** are what they should be, exactly and as stored numbers, where no times
that are read are busier than all time. -/
theorem loads_of_run {K : Type} [Field K] [LinearOrder K] [IsStrictOrderedRing K]
    {readings : List (Option CpuTimes)} (h : ∀ r ∈ readings, ∀ t ∈ r, t.busy ≤ t.total) :
    LoadsSatisfy (IsLoad (K := K)) readings ∧ LoadsSatisfy IsStoredLoad readings :=
  ⟨loadsSatisfy_of_load fun memory r hr => isLoad_load memory (h r hr),
    loadsSatisfy_of_load fun memory r hr => isStoredLoad_load memory (h r hr)⟩

/-- Counters that are read, then not read, then grow, stand still, fall and grow again. -/
def unsteadyReadings : List (Option CpuTimes) :=
  [some ⟨10, 100⟩, none, some ⟨30, 200⟩, some ⟨30, 200⟩, some ⟨5, 150⟩, some ⟨25, 170⟩]

/-- The load after the gap is taken over the gap, and counters that fall or stand still give no
load. -/
theorem load_over_gap : (loads (α := ℚ) none unsteadyReadings).1 = [0, 0, 20, 0, 0, 100] ∧
    IsLoad (some ⟨10, 100⟩) (some ⟨30, 200⟩) (20 : ℚ) := by
  have hreadings : ∀ r ∈ unsteadyReadings, ∀ t ∈ r, t.busy ≤ t.total := by decide
  have hloads : (loads (α := ℚ) none unsteadyReadings).1 = [0, 0, 20, 0, 0, 100] := by
    decide +kernel
  obtain ⟨hexact, -⟩ := loads_of_run (K := ℚ) hreadings
  refine ⟨hloads, hexact.load 2 _ 20 rfl ?_⟩
  rw [hloads]
  rfl

end CpuMemory

end PinnedBench
