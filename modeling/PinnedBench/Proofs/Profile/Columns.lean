import Mathlib
import PinnedBench.Proofs.Profile.Loads

/-!
# Columns of the line of the processors

Behind the first word, the line of the processors has a column for each kind of work, and the fourth
and the fifth column are the idle ones. Reading takes the columns that are counters, in order, and
counts the fourth and the fifth of those as idle (`CpuTimes.idle_of_parse`).

So the idle columns are told apart by what is left, and not by where they stand. They are those of
the line as it is written only if no column is left out that moves them (`idleColumns_eq_iff`): a
column before them that is no counter makes other columns idle
(`CpuTimes.refused_column_moves_idle`).
-/

namespace PinnedBench

/-! ### Sums of words -/

/-- The sum of words, which need not fit a word. -/
def wordSum (words : List UInt64) : Nat := (words.map UInt64.toNat).sum

theorem wordSum_cons (x : UInt64) (xs : List UInt64) :
    wordSum (x :: xs) = x.toNat + wordSum xs := by
  rw [wordSum, List.map_cons, List.sum_cons, wordSum]

/-- **Adding up words** gives their sum if it fits a word. -/
theorem toNat_foldl_add {xs : List UInt64} {x : UInt64} (h : x.toNat + wordSum xs < 2 ^ 64) :
    (xs.foldl (· + ·) x).toNat = x.toNat + wordSum xs := by
  -- The induction is on the words that are left, with the sum so far left open.
  induction xs generalizing x with
  | nil => rfl
  | cons y xs ih =>
    rw [wordSum_cons] at h ⊢
    -- The sum so far fits, because the rest only makes it larger.
    have hsum : (x + y).toNat = x.toNat + y.toNat := by
      rw [UInt64.toNat_add]
      exact Nat.mod_eq_of_lt (by omega)
    rw [List.foldl_cons, ih (by omega), hsum, Nat.add_assoc]

/-- The same from zero on, as the total of the counters is computed. -/
theorem toNat_foldl_zero {xs : List UInt64} (h : wordSum xs < 2 ^ 64) :
    (xs.foldl (· + ·) 0).toNat = wordSum xs := by
  have hfold := @toNat_foldl_add xs 0
  rw [UInt64.toNat_zero, Nat.zero_add] at hfold
  exact hfold h

/-! ### Counters and their columns -/

/-- The counter in a column, if the column is there and is one. -/
def counterIn (columns : List (List Char)) (i : Nat) : Option UInt64 := columns[i]?.bind readCounter

/-- The number in a column. A column that is no counter is a zero in its place. -/
def numberIn (columns : List (List Char)) (i : Nat) : Nat := ((counterIn columns i).getD 0).toNat

/-- Whether a column is a counter. -/
def IsCounter (columns : List (List Char)) (i : Nat) : Prop := (counterIn columns i).isSome = true

instance (columns : List (List Char)) (i : Nat) : Decidable (IsCounter columns i) :=
  inferInstanceAs (Decidable ((counterIn columns i).isSome = true))

/-- The sum of all columns. -/
def columnSum (columns : List (List Char)) : Nat :=
  ((List.range columns.length).map (numberIn columns)).sum

/-- Where the counters stand among the columns. -/
def counterColumns (columns : List (List Char)) : List Nat :=
  (List.range columns.length).filter (IsCounter columns ·)

/-- The columns that are counted as idle: those of the fourth and of the fifth counter. -/
def idleColumns (columns : List (List Char)) : List Nat := ((counterColumns columns).drop 3).take 2

section Columns

variable (columns : List (List Char))

/-- The columns one by one, through their positions. -/
theorem filterMap_counterIn :
    (List.range columns.length).filterMap (counterIn columns) = columns.filterMap readCounter := by
  have hcolumns : (List.range columns.length).filterMap (fun i => columns[i]?) = columns := by
    apply List.ext_getElem?
    intro i
    rw [List.filterMap_congr (g := some ∘ fun i => columns.getD i []), List.filterMap_eq_map]
    · by_cases hi : i < columns.length
      · simp [List.getElem?_range hi, List.getElem?_eq_getElem hi]
      · simp [List.getElem?_eq_none (Nat.le_of_not_lt hi)]
        omega
    · intro j hj
      simp [List.getElem?_eq_getElem (List.mem_range.mp hj)]
  conv_rhs => rw [← hcolumns, List.filterMap_filterMap]
  rfl

variable {columns} in
/-- A column with a counter is one, and its number is that counter. -/
theorem isCounter_of_eq_some {i : Nat} {x : UInt64} (h : counterIn columns i = some x) :
    IsCounter columns i ∧ numberIn columns i = x.toNat := by
  rw [IsCounter, numberIn, h]
  exact ⟨rfl, rfl⟩

variable {columns} in
/-- A column without a counter is none, and counts as a zero. -/
theorem not_isCounter_of_eq_none {i : Nat} (h : counterIn columns i = none) :
    ¬IsCounter columns i ∧ numberIn columns i = 0 := by
  rw [IsCounter, numberIn, h]
  exact ⟨by simp, rfl⟩

/-- **The counters of a line** are the numbers in their columns. -/
theorem map_toNat_counters :
    (columns.filterMap readCounter).map UInt64.toNat =
      (counterColumns columns).map (numberIn columns) := by
  rw [← filterMap_counterIn, counterColumns]
  induction List.range columns.length with
  | nil => rfl
  | cons i positions ih =>
    cases hcounter : counterIn columns i with
    | none =>
      obtain ⟨hnot, -⟩ := not_isCounter_of_eq_none hcounter
      rw [List.filterMap_cons_none hcounter, List.filter_cons_of_neg (by simpa using hnot), ih]
    | some x =>
      obtain ⟨his, hnumber⟩ := isCounter_of_eq_some hcounter
      rw [List.filterMap_cons_some hcounter, List.filter_cons_of_pos (by simpa using his),
        List.map_cons, List.map_cons, ih, hnumber]

/-- A column that is no counter adds nothing to a sum of columns. -/
theorem sum_numberIn_filter (positions : List Nat) :
    ((positions.filter (IsCounter columns ·)).map (numberIn columns)).sum =
      (positions.map (numberIn columns)).sum := by
  induction positions with
  | nil => rfl
  | cons i positions ih =>
    cases hcounter : counterIn columns i with
    | none =>
      obtain ⟨hnot, hzero⟩ := not_isCounter_of_eq_none hcounter
      rw [List.filter_cons_of_neg (by simpa using hnot), List.map_cons, List.sum_cons, hzero, ih,
        Nat.zero_add]
    | some x =>
      obtain ⟨his, -⟩ := isCounter_of_eq_some hcounter
      rw [List.filter_cons_of_pos (by simpa using his), List.map_cons, List.sum_cons, ih,
        List.map_cons, List.sum_cons]

/-- **The sum of the counters** is that of all columns. -/
theorem wordSum_counters :
    wordSum (columns.filterMap readCounter) = columnSum columns := by
  rw [wordSum, map_toNat_counters, counterColumns, sum_numberIn_filter, columnSum]

/-! ### Idle columns as they are written -/

/-- The fourth and the fifth column, as far as they are counters. -/
def writtenIdleColumns : List Nat := [3, 4].filter (IsCounter columns ·)

/-- The columns with counters are some of the first three, some of the next two and some behind
these. -/
theorem counterColumns_eq :
    ∃ behind, counterColumns columns =
        (List.range 3).filter (IsCounter columns ·) ++ (writtenIdleColumns columns ++ behind) ∧
      ∀ i, i ∈ behind ↔ 5 ≤ i ∧ IsCounter columns i := by
  -- No column behind the last one is a counter, so it does no harm to look at five and more.
  have hmore : counterColumns columns =
      (List.range (5 + columns.length)).filter (IsCounter columns ·) := by
    have hlast : ((List.range 5).map (columns.length + ·)).filter (IsCounter columns ·) = [] := by
      apply List.filter_eq_nil_iff.mpr
      intro i hi
      obtain ⟨j, -, rfl⟩ := List.mem_map.mp hi
      simp [IsCounter, counterIn]
    rw [Nat.add_comm, List.range_add, List.filter_append, hlast, List.append_nil, counterColumns]
  refine ⟨((List.range columns.length).map (5 + ·)).filter (IsCounter columns ·), ?_, ?_⟩
  · have hfive : List.range 5 = List.range 3 ++ [3, 4] := rfl
    rw [hmore, List.range_add, List.filter_append, hfive, List.filter_append, List.append_assoc,
      writtenIdleColumns]
  · intro i
    rw [List.mem_filter, decide_eq_true_iff, List.mem_map]
    constructor
    · rintro ⟨⟨j, -, rfl⟩, hcounter⟩
      exact ⟨Nat.le_add_right 5 j, hcounter⟩
    · rintro ⟨hi, hcounter⟩
      have hlt : i < columns.length := by
        by_contra hbehind
        rw [IsCounter, counterIn, List.getElem?_eq_none (Nat.le_of_not_lt hbehind)] at hcounter
        exact absurd hcounter (by simp)
      exact ⟨⟨i - 5, List.mem_range.mpr (by omega), by omega⟩, hcounter⟩

variable {columns}

/-- **The idle columns are the written ones** if and only if none of the first three columns is left
out, and the next two are not either unless nothing behind them could stand in for them. -/
theorem idleColumns_eq_iff (hcount : 4 ≤ (counterColumns columns).length) :
    idleColumns columns = writtenIdleColumns columns ↔
      (∀ i < 3, IsCounter columns i) ∧
        ((IsCounter columns 3 ∧ IsCounter columns 4) ∨ ∀ i, 5 ≤ i → ¬IsCounter columns i) := by
  obtain ⟨behind, hcolumns, hbehind⟩ := counterColumns_eq columns
  generalize hfirst : (List.range 3).filter (IsCounter columns ·) = first at hcolumns
  have hthree : first.length = 3 ↔ ∀ i < 3, IsCounter columns i := by
    have hall := List.length_filter_eq_length_iff (p := (IsCounter columns ·)) (l := List.range 3)
    rw [hfirst, List.length_range] at hall
    simpa using hall
  have htwo : (writtenIdleColumns columns).length = 2 ↔
      IsCounter columns 3 ∧ IsCounter columns 4 := by
    have hall := List.length_filter_eq_length_iff (p := (IsCounter columns ·)) (l := [3, 4])
    rw [writtenIdleColumns]
    simpa using hall
  have hle : (writtenIdleColumns columns).length ≤ 2 := List.length_filter_le _ _
  have hnone : behind = [] ↔ ∀ i, 5 ≤ i → ¬IsCounter columns i := by
    simp [List.eq_nil_iff_forall_not_mem, hbehind]
  rw [idleColumns, hcolumns, ← hthree, ← htwo, ← hnone]
  by_cases hmoved : first.length = 3
  · -- The written columns come next, and what is behind them only fills up.
    rw [List.drop_left' hmoved, List.take_append, List.take_of_length_le hle,
      List.append_right_eq_self, List.take_eq_nil_iff, and_iff_right hmoved]
    have hfull : 2 - (writtenIdleColumns columns).length = 0 ↔
        (writtenIdleColumns columns).length = 2 := by omega
    rw [hfull]
  · -- Otherwise the first written column comes too early to be among the idle ones.
    have hlength : first.length ≤ 3 := by
      rw [← hfirst]
      exact List.length_filter_le _ _
    have hnodup : (writtenIdleColumns columns ++ behind).Nodup := by
      have hall : (counterColumns columns).Nodup := List.nodup_range.filter _
      rw [hcolumns] at hall
      exact (List.nodup_append.mp hall).2.1
    obtain ⟨k, hk⟩ : ∃ k, 3 - first.length = k + 1 := ⟨2 - first.length, by omega⟩
    rw [hcolumns, List.length_append] at hcount
    rw [List.drop_append, List.drop_eq_nil_of_le hlength, List.nil_append, hk]
    refine iff_of_false ?_ fun h => hmoved h.1
    intro hsame
    cases hwritten : writtenIdleColumns columns with
    | nil =>
      -- There would be no idle column, but there is a fourth counter.
      have hlengths := congrArg List.length hsame
      rw [List.length_take, List.length_drop, hwritten] at hlengths
      rw [hwritten] at hcount
      simp only [List.length_nil] at hlengths
      omega
    | cons i rest =>
      rw [hwritten, List.cons_append] at hnodup hsame
      rw [List.drop_succ_cons] at hsame
      have hmem : i ∈ ((rest ++ behind).drop k).take 2 := by
        rw [hsame]
        exact List.mem_cons_self
      exact (List.nodup_cons.mp hnodup).1 (List.mem_of_mem_drop (List.mem_of_mem_take hmem))

end Columns

/-! ### Times that are read -/

namespace CpuTimes

/-- **The times that counters stand for**: all of them together, and of these the fourth and the
fifth are idle. -/
theorem idle_of_ofCounters {counters : List UInt64} {t : CpuTimes}
    (h : ofCounters counters = some t)
    (hsum : wordSum counters < 2 ^ 64) :
    4 ≤ counters.length ∧ t.total.toNat = wordSum counters ∧ t.busy ≤ t.total ∧
      t.idle = wordSum ((counters.drop 3).take 2) := by
  match counters with
  | [] | [_] | [_, _] | [_, _, _] => exact absurd h (by simp [ofCounters])
  | a :: b :: c :: idle :: rest =>
    obtain rfl := Option.some.inj h
    generalize hcounters : a :: b :: c :: idle :: rest = counters at hsum ⊢
    have htotal : (counters.foldl (· + ·) 0).toNat = wordSum counters := toNat_foldl_zero hsum
    have hidle : wordSum ((counters.drop 3).take 2) = idle.toNat + (rest.headD 0).toNat := by
      rw [← hcounters]
      cases rest <;> rfl
    -- The idle counters are two of the counters, so they fit as well and can be taken off.
    have hle : wordSum ((counters.drop 3).take 2) ≤ wordSum counters := by
      have hparts := ((List.take_sublist 2 _).trans (List.drop_sublist 3 counters)).map UInt64.toNat
      exact hparts.sum_le_sum fun _ _ => Nat.zero_le _
    have hfits : (idle + rest.headD 0).toNat = idle.toNat + (rest.headD 0).toNat := by
      rw [UInt64.toNat_add]
      exact Nat.mod_eq_of_lt (by omega)
    have hless : idle + rest.headD 0 ≤ counters.foldl (· + ·) 0 := by
      rw [UInt64.le_iff_toNat_le, htotal, hfits, ← hidle]
      exact hle
    refine ⟨by simp [← hcounters], htotal, ?_, ?_⟩
    · exact UInt64.sub_le hless
    · rw [CpuTimes.idle, UInt64.toNat_sub_of_le _ _ hless, htotal, hfits, hidle]
      omega

/-- The columns of a line: its words behind the first one. -/
def columnsOf (line : List Char) : List (List Char) := (words line).tail

/-- The times of a line are those of the counters behind its first word. -/
theorem ofCounters_of_parse {line : List Char} {t : CpuTimes} (h : parse line = some t) :
    ofCounters ((columnsOf line).filterMap readCounter) = some t := by
  rw [parse] at h
  split at h
  next columns hwords => rwa [columnsOf, hwords]
  next => cases h

/-- **The idle time that is read.** All columns are added up, those that are no counters as zeros in
their places. The idle time is that of the fourth and the fifth counter. These stand in the fourth
and the fifth column if and only if no column is left out that moves them; then the idle time is
that of the line as it is written, and so it is if every column is a counter. -/
theorem idle_of_parse {line : List Char} {t : CpuTimes} (h : parse line = some t)
    (hsum : columnSum (columnsOf line) < 2 ^ 64) :
    t.total.toNat = columnSum (columnsOf line) ∧ t.busy ≤ t.total ∧
      t.idle = ((idleColumns (columnsOf line)).map (numberIn (columnsOf line))).sum ∧
      (idleColumns (columnsOf line) = writtenIdleColumns (columnsOf line) ↔
        (∀ i < 3, IsCounter (columnsOf line) i) ∧
          ((IsCounter (columnsOf line) 3 ∧ IsCounter (columnsOf line) 4) ∨
            ∀ i, 5 ≤ i → ¬IsCounter (columnsOf line) i)) ∧
      (idleColumns (columnsOf line) = writtenIdleColumns (columnsOf line) →
        t.idle = numberIn (columnsOf line) 3 + numberIn (columnsOf line) 4) ∧
      ((∀ word ∈ columnsOf line, (readCounter word).isSome = true) →
        t.idle = numberIn (columnsOf line) 3 + numberIn (columnsOf line) 4) := by
  have hcounters := ofCounters_of_parse h
  generalize columnsOf line = columns at hcounters hsum ⊢
  rw [← wordSum_counters] at hsum
  obtain ⟨hcount, htotal, hbusy, hidle⟩ := idle_of_ofCounters hcounters hsum
  have hidle : t.idle = ((idleColumns columns).map (numberIn columns)).sum := by
    rw [hidle, wordSum, List.map_take, List.map_drop, map_toNat_counters, idleColumns,
      List.map_take, List.map_drop]
  have hfour : 4 ≤ (counterColumns columns).length := by
    have hlength := congrArg List.length (map_toNat_counters columns)
    rw [List.length_map, List.length_map] at hlength
    omega
  have hiff := idleColumns_eq_iff hfour
  have hwritten : idleColumns columns = writtenIdleColumns columns →
      t.idle = numberIn columns 3 + numberIn columns 4 := by
    intro hsame
    rw [hidle, hsame, writtenIdleColumns, sum_numberIn_filter]
    rfl
  refine ⟨htotal.trans (wordSum_counters columns), hbusy, hidle, hiff, hwritten, fun hall => ?_⟩
  -- With counters alone, the fifth column is missing only if there is nothing behind it either.
  have hcounter : ∀ i < columns.length, IsCounter columns i := by
    intro i hi
    rw [IsCounter, counterIn, List.getElem?_eq_getElem hi]
    exact hall _ (List.getElem_mem hi)
  have hlength : 4 ≤ columns.length := by
    have hle := List.length_filter_le (IsCounter columns ·) (List.range columns.length)
    rw [List.length_range] at hle
    exact hfour.trans hle
  refine hwritten (hiff.mpr ⟨fun i hi => hcounter i (by omega), ?_⟩)
  by_cases hfive : 5 ≤ columns.length
  · exact .inl ⟨hcounter 3 (by omega), hcounter 4 (by omega)⟩
  · refine .inr fun i hi => ?_
    rw [IsCounter, counterIn, List.getElem?_eq_none (by omega)]
    simp

/-- A line of which a column behind the idle ones is no counter. -/
def lateLine : List Char := "cpu  100 0 50 800 50 -1 7".toList

/-- A column that is left out behind the idle ones does not move them. -/
theorem refused_column_behind_idle : parse lateLine = some ⟨157, 1007⟩ ∧
    (⟨157, 1007⟩ : CpuTimes).idle =
        numberIn (columnsOf lateLine) 3 + numberIn (columnsOf lateLine) 4 ∧
      numberIn (columnsOf lateLine) 3 = 800 ∧ numberIn (columnsOf lateLine) 4 = 50 := by
  have hparse : parse lateLine = some ⟨157, 1007⟩ := by decide +kernel
  obtain ⟨-, -, -, hiff, hwritten, -⟩ := idle_of_parse hparse (by decide +kernel)
  refine ⟨hparse, hwritten (hiff.mpr ⟨by decide +kernel, .inl (by decide +kernel)⟩), ?_⟩
  decide +kernel

/-- A line of which the second column is no counter. -/
def earlyLine : List Char := "cpu  100 -1 50 800 50 0 0 0 0 0".toList

/-- **A column that is left out before the idle ones** makes other columns idle: the fifth and the
sixth column are taken for the fourth and the fifth, and the times are busier than they should be.
-/
theorem refused_column_moves_idle : parse earlyLine = some ⟨950, 1000⟩ ∧
    columnSum (columnsOf earlyLine) = 1000 ∧ idleColumns (columnsOf earlyLine) = [4, 5] ∧
      (⟨950, 1000⟩ : CpuTimes).idle = 50 ∧
      numberIn (columnsOf earlyLine) 3 + numberIn (columnsOf earlyLine) 4 = 850 := by
  decide +kernel

end CpuTimes

end PinnedBench
