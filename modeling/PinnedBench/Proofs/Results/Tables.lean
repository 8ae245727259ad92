import Mathlib.Data.List.TakeWhile
import PinnedBench.Bench.Outcome
import PinnedBench.Proofs.Json.Numbers
import PinnedBench.Proofs.Outcomes
import PinnedBench.Proofs.Text.Lines
import PinnedBench.Proofs.Text.Numerals
import PinnedBench.Results.Csv

/-!
# Results tables read back

A results table that has been written is read back row by row (`Table.ofCsv_toCsv`). Commas, quotes
and carriage returns in a name do no harm; a line feed does, because a text is split into lines
before quotes are looked at. So a row is `Readable` when its names have no line feed, its run is
counted by a word, and its duration is one that reads back from its own text.

The rows of an implementation in the table of an outcome are those of all its measurements
(`Outcome.filter_rows_table`), so the durations of a measurement are found in the table if no other
one is of the same implementation (`Outcome.durations_table`).
-/

namespace PinnedBench

/-! ### Bare characters -/

/-- A character that nothing is done about in a line: no blank, no comma and no quote. -/
def isBare (c : Char) : Bool := !isBlank c && c != ',' && c != '"'

/-- The three things that a bare character is not. -/
theorem isBare_iff {c : Char} : isBare c = true ↔ isBlank c = false ∧ c ≠ ',' ∧ c ≠ '"' := by
  simp [isBare, and_assoc]

theorem isBare_of_all {cs : List Char} (h : cs.all isBare = true) : ∀ c ∈ cs, isBare c = true :=
  List.all_eq_true.mp h

/-- Digits are bare. There are ten of them, but they are compared by their numbers. -/
theorem isBare_of_isDigit {c : Char} (h : c.isDigit = true) : isBare c = true := by
  have hdigits : ∀ n < 58, 48 ≤ n → isBare (Char.ofNat n) = true := by decide
  rw [Char.isDigit, Bool.and_eq_true, decide_eq_true_iff, decide_eq_true_iff] at h
  rw [← Char.ofNat_toNat c]
  exact hdigits c.toNat (Nat.lt_succ_of_le (UInt32.le_iff_toNat_le.mp h.2))
    (UInt32.le_iff_toNat_le.mp h.1)

theorem ne_of_isBare {c : Char} (h : isBare c = true) : c ≠ '\n' ∧ c ≠ '\r' := by
  constructor <;> (rintro rfl; revert h; decide)

theorem isBare_digitChars (n : Nat) : ∀ c ∈ Nat.toDigits 10 n, isBare c = true := fun _ hc =>
  isBare_of_isDigit (Json.isDigit_of_mem_digitChars hc)

namespace NumberStyle

variable (s : NumberStyle)

/-- A decimal without an exponent is written in bare characters. -/
theorem isBare_positionalChars (d : Decimal) : ∀ c ∈ s.positionalChars d, isBare c = true := by
  have hds : ∀ c ∈ digitChars d.digits, isBare c = true := isBare_digitChars d.digits
  have hzeros : ∀ n, ∀ c ∈ List.replicate n '0', isBare c = true := fun n c hc => by
    rw [List.eq_of_mem_replicate hc]
    decide
  intro c hc
  rw [positionalChars] at hc
  split at hc
  · -- Digits, zeros and perhaps a point.
    rw [List.mem_append, List.mem_append] at hc
    rcases hc with (hc | hc) | hc
    · exact hds c hc
    · exact hzeros _ c hc
    · split at hc
      · exact isBare_of_all (by decide) c hc
      · simp at hc
  · -- A point among the digits, or zeros before all of them.
    dsimp only at hc
    split at hc
    · rw [List.mem_append, List.mem_cons] at hc
      rcases hc with hc | rfl | hc
      · exact hds c (List.mem_of_mem_take hc)
      · decide
      · exact hds c (List.mem_of_mem_drop hc)
    · rw [List.mem_append, List.mem_cons, List.mem_cons] at hc
      rcases hc with (rfl | rfl | hc) | hc
      · decide
      · decide
      · exact hzeros _ c hc
      · exact hds c hc

/-- So is one with an exponent. -/
theorem isBare_exponentChars (d : Decimal) : ∀ c ∈ s.exponentChars d, isBare c = true := by
  have hds : ∀ c ∈ digitChars d.digits, isBare c = true := isBare_digitChars d.digits
  intro c hc
  rw [exponentChars, List.mem_append, List.mem_append, List.mem_cons] at hc
  rcases hc with (hc | rfl | hc) | hc
  · -- The point of the mantissa stands behind its first digit.
    split at hc
    next => simp at hc
    next hone => exact hds c (hone ▸ hc)
    next first rest hmore =>
      rw [hmore] at hds
      rw [List.mem_cons, List.mem_cons] at hc
      rcases hc with rfl | rfl | hc
      · exact hds _ List.mem_cons_self
      · decide
      · exact hds c (List.mem_cons_of_mem _ hc)
  · decide
  · split at hc
    · exact isBare_of_all (by decide) c hc
    · split at hc
      · exact isBare_of_all (by decide) c hc
      · simp at hc
  · exact isBare_digitChars _ c hc

/-- **A number** is written in bare characters. -/
theorem isBare_chars (x : Double) : ∀ c ∈ s.chars x, isBare c = true := by
  have hsize : ∀ c ∈ s.decimalChars (x.shortest s.tie), isBare c = true := by
    rw [decimalChars]
    split
    · exact s.isBare_positionalChars _
    · exact s.isBare_exponentChars _
  rw [chars]
  split
  · exact isBare_of_all (by decide)
  · -- The words and the digits are bare, and so is the sign before them.
    have hsigned : ∀ size : List Char, (∀ c ∈ size, isBare c = true) →
        ∀ c ∈ (if x.isNegative then '-' :: size else size), isBare c = true := by
      intro size h
      split
      · exact List.forall_mem_cons.mpr ⟨by decide, h⟩
      · exact h
    refine hsigned _ ?_
    split
    · exact isBare_of_all (by decide)
    · split
      · split <;> exact isBare_of_all (by decide)
      · exact hsize

end NumberStyle

namespace Csv

/-! ### Fields -/

/-- Outside of quotes, a character ends the field if it is a comma, and else belongs to it. -/
theorem splitOnto_cons (current : List Char) {c : Char} (h : c ≠ '"') (rest : List Char) :
    splitOnto current false (c :: rest) =
      if c = ',' then current.reverse :: splitOnto [] false rest
      else splitOnto (c :: current) false rest := by
  rw [splitOnto, if_neg h]
  · simp
  · simp

/-- Characters that are neither commas nor quotes belong to the field. -/
theorem splitOnto_append {field : List Char} (h : ∀ c ∈ field, c ≠ ',' ∧ c ≠ '"')
    (current rest : List Char) :
    splitOnto current false (field ++ rest) = splitOnto (field.reverse ++ current) false rest := by
  induction field generalizing current with
  | nil => rfl
  | cons c field ih =>
    obtain ⟨hcomma, hquote⟩ := h c List.mem_cons_self
    rw [List.cons_append, splitOnto_cons current hquote, if_neg hcomma,
      ih fun c' hc' => h c' (List.mem_cons_of_mem _ hc'), List.reverse_cons, List.append_assoc,
      List.singleton_append]

/-- A field without commas and quotes ends at the next comma. -/
theorem splitOnto_append_comma {field : List Char} (h : ∀ c ∈ field, c ≠ ',' ∧ c ≠ '"')
    (rest : List Char) :
    splitOnto [] false (field ++ ',' :: rest) = field :: splitOnto [] false rest := by
  rw [splitOnto_append h, List.append_nil, splitOnto_cons _ (by decide), if_pos rfl,
    List.reverse_reverse]

/-- Behind an opening quote, a field with its quotes doubled is read as it is. -/
theorem splitOnto_doubleQuotes (field current rest : List Char) :
    splitOnto current true (doubleQuotes field ++ rest) =
      splitOnto (field.reverse ++ current) true rest := by
  induction field generalizing current with
  | nil => rfl
  | cons c field ih =>
    rw [doubleQuotes, List.reverse_cons, List.append_assoc, List.singleton_append]
    by_cases hquote : c = '"'
    · -- A quote of the field is a pair of quotes, which does not close it.
      rw [if_pos hquote, hquote, List.cons_append, List.cons_append, splitOnto, ih]
    · rw [if_neg hquote, List.cons_append, splitOnto, if_neg hquote, if_neg (by simp), ih]
      intro _ _ hc
      exact absurd hc hquote

/-- A quote that is not followed by another one closes the field. -/
theorem splitOnto_closing (current : List Char) {rest : List Char} (h : rest.head? ≠ some '"') :
    splitOnto current true ('"' :: rest) = splitOnto current false rest := by
  rw [splitOnto, if_pos rfl, Bool.not_true]
  rintro rest - - rfl
  exact h rfl

/-- A field is read back up to what follows it, which may not begin with a quote. -/
theorem splitOnto_escapeField_append (field rest : List Char) (h : rest.head? ≠ some '"') :
    splitOnto [] false (escapeField field ++ rest) = splitOnto field.reverse false rest := by
  rw [escapeField]
  split
  · -- The opening quote begins quoting.
    rw [List.cons_append, List.cons_append, List.append_assoc, List.singleton_append, splitOnto,
      if_pos rfl, Bool.not_false, splitOnto_doubleQuotes, splitOnto_closing _ h, List.append_nil]
    simp
  next hplain =>
    have hfield : ∀ c ∈ field, c ≠ ',' ∧ c ≠ '"' := by
      rw [needsQuotes, Bool.not_eq_true, List.any_eq_false] at hplain
      intro c hc
      have := hplain c hc
      simp only [Bool.or_eq_true, beq_iff_eq, not_or] at this
      exact this.1
    rw [splitOnto_append hfield, List.append_nil]

/-- **A field** that is followed by a comma is read back. -/
theorem splitOnto_escapeField (field rest : List Char) :
    splitOnto [] false (escapeField field ++ ',' :: rest) = field :: splitOnto [] false rest := by
  rw [splitOnto_escapeField_append field _ (by simp), splitOnto_cons _ (by decide), if_pos rfl,
    List.reverse_reverse]

theorem splitOnto_last {field : List Char} (h : ∀ c ∈ field, c ≠ ',' ∧ c ≠ '"') :
    splitOnto [] false field = [field] := by
  have hsplit := splitOnto_append h [] []
  rwa [List.append_nil, List.append_nil, splitOnto, List.reverse_reverse] at hsplit

/-- Doubling quotes brings in no line feed. -/
theorem feed_not_mem_doubleQuotes {field : List Char} (h : '\n' ∉ field) :
    '\n' ∉ doubleQuotes field := by
  induction field with
  | nil => simp [doubleQuotes]
  | cons c field ih =>
    rw [List.mem_cons, not_or] at h
    rw [doubleQuotes]
    split
    · simpa using ih h.2
    · simpa using ⟨h.1, ih h.2⟩

theorem feed_not_mem_escapeField {field : List Char} (h : '\n' ∉ field) :
    '\n' ∉ escapeField field := by
  rw [escapeField]
  split
  · simpa using feed_not_mem_doubleQuotes h
  · exact h

/-! ### Rows -/

theorem rowChars_eq (r : Row) :
    rowChars r = escapeField r.implementation.toList ++ ',' :: (escapeField r.variant.toList ++
      ',' :: (Nat.toDigits 10 r.run ++ ',' :: NumberStyle.table.chars r.duration)) := by
  rw [rowChars]
  simp only [List.append_assoc, List.cons_append]

/-- **The fields of a row** are read back from its line. -/
theorem splitRecord_rowChars (r : Row) :
    splitRecord (rowChars r) = [r.implementation.toList, r.variant.toList, Nat.toDigits 10 r.run,
      NumberStyle.table.chars r.duration] := by
  have hplain : ∀ cs : List Char, (∀ c ∈ cs, isBare c = true) → ∀ c ∈ cs, c ≠ ',' ∧ c ≠ '"' :=
    fun cs hcs c hc => (isBare_iff.mp (hcs c hc)).2
  rw [splitRecord, rowChars_eq, splitOnto_escapeField, splitOnto_escapeField,
    splitOnto_append_comma (hplain _ (isBare_digitChars r.run)),
    splitOnto_last (hplain _ (NumberStyle.table.isBare_chars r.duration))]

/-- No row ends in a carriage return, so none is taken off. -/
theorem dropReturn_rowChars (r : Row) : dropReturn (rowChars r) = rowChars r := by
  -- The last character is one of the duration, or the comma before it.
  have htail : ∀ c ∈ ',' :: NumberStyle.table.chars r.duration, c ≠ '\r' := by
    refine List.forall_mem_cons.mpr ⟨by decide, fun c hc => ?_⟩
    exact (ne_of_isBare (NumberStyle.table.isBare_chars r.duration c hc)).2
  refine dropReturn_of_getLast? fun hlast => ?_
  rw [rowChars, List.getLast?_append, List.getLast?_eq_some_getLast (List.cons_ne_nil _ _),
    Option.some_or] at hlast
  exact htail _ (List.getLast_mem _) (Option.some.inj hlast)

/-- A row whose names are on one line is on one line. -/
theorem feed_not_mem_rowChars {r : Row} (himplementation : '\n' ∉ r.implementation.toList)
    (hvariant : '\n' ∉ r.variant.toList) : '\n' ∉ rowChars r := by
  have hbare : ∀ cs : List Char, (∀ c ∈ cs, isBare c = true) → '\n' ∉ cs := fun cs hcs hc =>
    (ne_of_isBare (hcs _ hc)).1 rfl
  have hrun := hbare _ (isBare_digitChars r.run)
  have hduration := hbare _ (NumberStyle.table.isBare_chars r.duration)
  rw [rowChars_eq]
  simp [feed_not_mem_escapeField himplementation, feed_not_mem_escapeField hvariant, hrun,
    hduration]

theorem comma_mem_rowChars (r : Row) : ',' ∈ rowChars r := by
  rw [rowChars_eq]
  simp

end Csv

/-! ### Numbers of runs -/

/-- **A whole number** up to the limit is read back from its digits. -/
theorem readWhole_toDigits {limit n : Nat} (h : n ≤ limit) :
    readWhole limit (Nat.toDigits 10 n) = .ok n :=
  readWhole_eq_ok.mpr ⟨Nat.toDigits 10 n, .inl rfl, Nat.toDigits_ne_nil,
    fun _ => Json.isDigit_of_mem_digitChars, Nat.ofDigitChars_ten_toDigits, h⟩

/-! ### Tables -/

/-- A row that survives being written and read. -/
structure Row.Readable (r : Row) : Prop where
  /-- The language is written on one line. -/
  implementation_feed : '\n' ∉ r.implementation.toList
  /-- The variant is written on one line. -/
  variant_feed : '\n' ∉ r.variant.toList
  /-- The run is counted by a word. -/
  run_lt : r.run < powerOfTwo 64
  /-- The duration is read back from its text. -/
  duration_eq : readReal (NumberStyle.table.chars r.duration) = .ok r.duration

namespace Row.Readable

variable {r : Row}

theorem feed_not_mem (h : r.Readable) : '\n' ∉ Csv.rowChars r :=
  Csv.feed_not_mem_rowChars h.implementation_feed h.variant_feed

/-- **A row** is read back from its fields. -/
theorem rowOfFields_eq (h : r.Readable) :
    Csv.rowOfFields (Csv.splitRecord (Csv.rowChars r)) = .ok r := by
  have htrim : ∀ cs : List Char, (∀ c ∈ cs, isBare c = true) → trim cs = cs := fun cs hcs =>
    trim_eq_self fun c hc => (isBare_iff.mp (hcs c hc)).1
  have hrun := readWhole_toDigits (Nat.le_sub_one_of_lt h.run_lt)
  rw [Csv.splitRecord_rowChars, Csv.rowOfFields, htrim _ (isBare_digitChars r.run),
    htrim _ (NumberStyle.table.isBare_chars r.duration), hrun, h.duration_eq, mapError_ok,
    mapError_ok]
  simp only [bind, Except.bind, String.ofList_toList]

end Row.Readable

namespace Table

/-- Readable rows are read before the lines that follow them. -/
theorem rowsOfLines_append {rows : List Row} (h : ∀ r ∈ rows, r.Readable) (number : Nat)
    (rest : List (List Char)) :
    Csv.rowsOfLines number (rows.map Csv.rowChars ++ rest) =
      (Csv.rowsOfLines (number + rows.length) rest).map (rows ++ ·) := by
  induction rows generalizing number with
  | nil =>
    simp only [List.map_nil, List.nil_append, List.length_nil, Nat.add_zero]
    cases Csv.rowsOfLines number rest <;> rfl
  | cons r rows ih =>
    -- Only empty lines are passed over, and every row has commas.
    have hline : trim (Csv.rowChars r) ≠ [] :=
      trim_ne_nil (Csv.comma_mem_rowChars r) (by decide)
    rw [List.map_cons, List.cons_append, Csv.rowsOfLines, List.isEmpty_eq_false_iff.mpr hline,
      if_neg (by decide), (h r List.mem_cons_self).rowOfFields_eq,
      ih (fun r' hr' => h r' (List.mem_cons_of_mem _ hr')), mapError_ok, List.length_cons,
      Nat.add_right_comm, Nat.add_assoc]
    cases Csv.rowsOfLines (number + (rows.length + 1)) rest <;> rfl

theorem rowsOfLines_map {rows : List Row} (h : ∀ r ∈ rows, r.Readable) (number : Nat) :
    Csv.rowsOfLines number (rows.map Csv.rowChars) = .ok rows := by
  have hrows := rowsOfLines_append h number []
  rwa [List.append_nil, Csv.rowsOfLines, Except.map, List.append_nil] at hrows

/-- **A table** with readable rows is read back from its text. -/
theorem ofCsv_toCsv {t : Table} (h : ∀ r ∈ t.rows, r.Readable) : ofCsv t.toCsv = .ok t := by
  have hlines : lines t.toCsv.toList = tableHeader.toList :: t.rows.map Csv.rowChars := by
    rw [toCsv, String.toList_ofList, lines_append (by decide),
      lines_flatMap fun r hr => ⟨(h r hr).feed_not_mem, Csv.dropReturn_rowChars r⟩]
    rfl
  have hheader : trim tableHeader.toList = tableHeader.toList := by decide
  rw [ofCsv, hlines]
  simp only [hheader, if_true, rowsOfLines_map h]
  rfl

end Table

/-! ### Tables of outcomes -/

/-- The rows of durations hold them under their indices. -/
theorem Table.mem_rowsOf {implementation variant : String} {durations : List Double} {r : Row} :
    r ∈ rowsOf implementation variant durations ↔ r.implementation = implementation ∧
      r.variant = variant ∧ durations[r.run]? = some r.duration := by
  rw [rowsOf, List.mem_map]
  constructor
  · rintro ⟨⟨d, run⟩, hd, rfl⟩
    exact ⟨rfl, rfl, List.mem_zipIdx_iff_getElem?.mp hd⟩
  · rintro ⟨rfl, rfl, hduration⟩
    exact ⟨(r.duration, r.run), List.mem_zipIdx_iff_getElem?.mpr hduration, rfl⟩

/-- Adding durations one after the other puts their rows in that order. -/
theorem Table.rows_foldl_append {α : Type} (implementation variant : α → String)
    (durations : α → List Double) (t : Table) (as : List α) :
    (as.foldl (fun t a => t.append (implementation a) (variant a) (durations a)) t).rows =
      t.rows ++ as.flatMap fun a => rowsOf (implementation a) (variant a) (durations a) := by
  induction as generalizing t with
  | nil => simp
  | cons a as ih =>
    rw [List.foldl_cons, ih, rows_append, List.append_assoc, List.flatMap_cons]

namespace Measurement

/-- The rows of a measurement. -/
def rows (e : Measurement) : List Row :=
  Table.rowsOf e.implementation.name e.implementation.variant e.durations

/-- Whether a row is of an implementation. -/
def isRowOf (i : Implementation) (r : Row) : Bool :=
  r.implementation == i.name && r.variant == i.variant

/-- The rows of a measurement hold its durations under their indices. -/
theorem mem_rows {e : Measurement} {r : Row} :
    r ∈ e.rows ↔ r.implementation = e.implementation.name ∧ r.variant = e.implementation.variant ∧
      e.durations[r.run]? = some r.duration :=
  Table.mem_rowsOf

/-- The durations of the rows are those of the measurement. -/
theorem map_duration_rows (e : Measurement) : e.rows.map (·.duration) = e.durations := by
  rw [rows, Table.rowsOf, List.map_map]
  exact List.zipIdx_map_fst 0 e.durations

/-- A filter for rows of an implementation takes all rows of a measurement or none. -/
theorem filter_rows (i : Implementation) (e : Measurement) :
    e.rows.filter (isRowOf i) = if e.implementation = i then e.rows else [] := by
  -- All rows of a measurement carry the names of its implementation.
  split
  next h =>
    refine List.filter_eq_self.mpr fun r hr => ?_
    obtain ⟨himplementation, hvariant, -⟩ := mem_rows.mp hr
    rw [isRowOf, himplementation, hvariant, h]
    simp
  next h =>
    refine List.filter_eq_nil_iff.mpr fun r hr hown => h ?_
    obtain ⟨himplementation, hvariant, -⟩ := mem_rows.mp hr
    rw [isRowOf, himplementation, hvariant, Bool.and_eq_true, beq_iff_eq, beq_iff_eq] at hown
    exact congrArg₂ Implementation.mk hown.1 hown.2

end Measurement

namespace Outcome

/-- The table of an outcome has the rows of its measurements, one behind the other. -/
theorem rows_table (o : Outcome) : o.table.rows = o.flatMap Measurement.rows := by
  have hrows := Table.rows_foldl_append (fun e : Measurement => e.implementation.name)
    (fun e => e.implementation.variant) (fun e => e.durations) Table.empty o
  rwa [Table.empty, List.nil_append] at hrows

/-- **The rows of an implementation** in the table are those of its measurements. -/
theorem filter_rows_table (o : Outcome) (i : Implementation) :
    o.table.rows.filter (Measurement.isRowOf i) =
      (o.filter (·.implementation = i)).flatMap Measurement.rows := by
  rw [rows_table, List.filter_flatMap]
  simp only [Measurement.filter_rows]
  induction o with
  | nil => rfl
  | cons e o ih =>
    rw [List.flatMap_cons, ih]
    by_cases he : e.implementation = i
    · rw [if_pos he, List.filter_cons_of_pos (by simpa using he), List.flatMap_cons]
    · rw [if_neg he, List.filter_cons_of_neg (by simpa using he), List.nil_append]

/-- The durations that the table has for an implementation are those of its measurements. -/
theorem durations_table_eq (o : Outcome) (i : Implementation) :
    o.table.durations i.name i.variant =
      (o.filter (·.implementation = i)).flatMap (·.durations) := by
  -- The filter of the table is the one for rows of this implementation.
  change (o.table.rows.filter (Measurement.isRowOf i)).map (·.duration) = _
  rw [filter_rows_table, List.map_flatMap]
  simp only [Measurement.map_duration_rows]

end Outcome

end PinnedBench
