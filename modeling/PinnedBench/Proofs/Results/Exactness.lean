import PinnedBench.Proofs.Results.Breaks
import PinnedBench.Proofs.Results.Flaws

/-!
# Results tables, written and read

A results table does not tell the patterns that are no number from each other: all of them are
written as the same word, and that word is read as one of them. So what can be read back of a table
is the table with these patterns unified (`Double.readReal_chars_unified`).

Reading what was written gives just that, or it stops at the first row with a name over several
lines and tells the line on which that row begins (`Table.ofCsv_toCsv_exact`). No name makes a text
that is read as other rows.

Reading takes more than is written: quotes anywhere, blank lines, padded numbers. What it makes of a
text is read off the fields of its lines. A field holds characters of its line only, so it has no
line feed, and a run is bounded by a word. Hence a table that was read is read again from its own
text, which does not change any more (`Table.ofCsv_toCsv_of_ofCsv`).
-/

namespace PinnedBench

/-! ### Unified patterns -/

namespace Double

/-- The pattern that reading gives: one pattern stands for all those that are no number. -/
def unified (x : Double) : Double := if x.isUndefined then undefined else x

theorem unified_of_defined {x : Double} (h : x.isUndefined = false) : x.unified = x := by
  rw [unified, h, if_neg (by decide)]

/-- All patterns that are no number become one. -/
theorem unified_of_undefined {x : Double} (h : x.isUndefined = true) : x.unified = undefined := by
  rw [unified, if_pos h]

/-- They are written alike in the first place. -/
theorem chars_unified (x : Double) (s : NumberStyle) : s.chars x.unified = s.chars x := by
  cases h : x.isUndefined with
  | false => rw [unified_of_defined h]
  | true =>
    have hundefined : undefined.isUndefined = true := by decide
    rw [unified_of_undefined h, NumberStyle.chars, NumberStyle.chars, if_pos hundefined, if_pos h]

/-- **Every pattern** is read from its text in a results table as the unified one. -/
theorem readReal_chars_unified (x : Double) :
    readReal (NumberStyle.table.chars x) = .ok x.unified := by
  cases h : x.isUndefined with
  | false => rw [unified_of_defined h, readReal_chars h]
  | true =>
    rw [unified_of_undefined h, NumberStyle.chars, if_pos h]
    rfl

end Double

namespace Row

/-- The row with its duration unified. -/
def unified (r : Row) : Row := { r with duration := r.duration.unified }

/-- So a row has the text of the unified one. -/
theorem rowChars_unified (r : Row) : Csv.rowChars r.unified = Csv.rowChars r := by
  unfold Csv.rowChars unified
  rw [Double.chars_unified]

/-- A row whose names are on one line is on one line itself. -/
theorem feed_not_mem_of_not_isBroken {r : Row} (h : ¬ r.IsBroken) : '\n' ∉ Csv.rowChars r :=
  Csv.feed_not_mem_rowChars (not_or.mp h).1 (not_or.mp h).2

/-- A row that is not broken is readable once its duration is unified. -/
theorem Readable.unified {r : Row} (hwhole : ¬ r.IsBroken) (hrun : r.run < powerOfTwo 64) :
    r.unified.Readable := by
  obtain ⟨himplementation, hvariant⟩ := not_or.mp hwhole
  refine ⟨himplementation, hvariant, hrun, ?_⟩
  unfold Row.unified
  rw [Double.chars_unified]
  exact r.duration.readReal_chars_unified

end Row

/-- The wording of the fault about a line with too few fields or too many. -/
theorem Fault.message_fieldCount (line count : Nat) :
    (Fault.table (.row line (.fieldCount count))).message =
      s!"Malformed input: line {line}: expected 4 fields, got {count}" := by
  have hstart : "Malformed input: line " = "Malformed input: " ++ "line " := by decide
  have hcause : ": expected 4 fields, got " = ": " ++ "expected 4 fields, got " := by decide
  unfold Fault.message TableFault.message RowFault.message
  simp only [hstart, hcause, String.append_assoc, toString]

namespace Table

/-- The table with all durations unified. -/
def unified (t : Table) : Table := ⟨t.rows.map Row.unified⟩

/-- Unifying durations leaves the names. -/
theorem exists_isBroken_unified {t : Table} :
    (∃ r ∈ t.unified.rows, r.IsBroken) ↔ ∃ r ∈ t.rows, r.IsBroken := by
  constructor
  · rintro ⟨r, hr, hbroken⟩
    obtain ⟨r', hr', rfl⟩ := List.mem_map.mp hr
    exact ⟨r', hr', hbroken⟩
  · rintro ⟨r, hr, hbroken⟩
    exact ⟨r.unified, List.mem_map_of_mem hr, hbroken⟩

theorem toCsv_unified (t : Table) : t.unified.toCsv = t.toCsv := by
  unfold toCsv unified
  rw [List.flatMap_map]
  simp only [Row.rowChars_unified]

/-! ### What was written -/

/-- The text of a table begins with the text of its first rows. -/
theorem toCsv_append (rows more : List Row) :
    (Table.mk (rows ++ more)).toCsv.toList =
      (Table.mk rows).toCsv.toList ++ more.flatMap fun r => Csv.rowChars r ++ ['\n'] := by
  unfold toCsv
  rw [String.toList_ofList, String.toList_ofList, List.flatMap_append]
  simp only [List.append_assoc, List.cons_append]

/-- Rows without broken names take one line each, behind the header. -/
theorem count_feed_toCsv {rows : List Row} (h : ∀ r ∈ rows, '\n' ∉ Csv.rowChars r) :
    (Table.mk rows).toCsv.toList.count '\n' = rows.length + 1 := by
  have hrows : (rows.flatMap fun r => Csv.rowChars r ++ ['\n']).count '\n' = rows.length := by
    induction rows with
    | nil => rfl
    | cons r rows ih =>
      rw [List.flatMap_cons, List.count_append, List.count_append,
        List.count_eq_zero.mpr (h r List.mem_cons_self),
        ih fun r' hr' => h r' (List.mem_cons_of_mem _ hr'), List.length_cons]
      simp [Nat.add_comm]
  have hheader : tableHeader.toList.count '\n' = 0 := by decide
  unfold toCsv
  rw [String.toList_ofList, List.count_append, List.count_cons_self, hrows, hheader]
  omega

/-- Reading what was written gives the table with its patterns unified, or nothing. -/
theorem ofCsv_toCsv_unified {t : Table} (hruns : ∀ r ∈ t.rows, r.run < powerOfTwo 64) :
    ((∀ r ∈ t.rows, ¬ r.IsBroken) ∧ ofCsv t.toCsv = .ok t.unified) ∨
      ((∃ r ∈ t.rows, r.IsBroken) ∧ ∃ cause, ofCsv t.toCsv = .error cause) := by
  have hruns' : ∀ r ∈ t.unified.rows, r.run < powerOfTwo 64 := by
    intro r hr
    obtain ⟨r', hr', rfl⟩ := List.mem_map.mp hr
    exact hruns r' hr'
  have hreads : ∀ r ∈ t.unified.rows,
      readReal (NumberStyle.table.chars r.duration) = .ok r.duration := by
    intro r hr
    obtain ⟨r', -, rfl⟩ := List.mem_map.mp hr
    unfold Row.unified
    rw [Double.chars_unified]
    exact r'.duration.readReal_chars_unified
  have hcases := ofCsv_toCsv_cases hruns' hreads
  rw [toCsv_unified, exists_isBroken_unified] at hcases
  rcases hcases with ⟨hwhole, hread⟩ | hbroken
  · refine .inl ⟨fun r hr hr' => ?_, hread⟩
    exact hwhole r.unified (List.mem_map_of_mem hr) hr'
  · exact .inr hbroken

/-- The text of a row stands behind that of the rows before it. -/
theorem exists_rest_of_rows {t : Table} {rows more : List Row} {r : Row}
    (ht : t.rows = rows ++ r :: more) :
    ∃ rest, t.toCsv.toList = (Table.mk rows).toCsv.toList ++ (Csv.rowChars r ++ rest) := by
  have hrows : t = Table.mk (rows ++ r :: more) := by rw [← ht]
  rw [hrows, toCsv_append, List.flatMap_cons, List.append_assoc]
  exact ⟨_, rfl⟩

/-- Reading stops at the first broken row, whatever the durations are. -/
theorem ofCsv_toCsv_of_first_broken {t : Table} (hruns : ∀ r ∈ t.rows, r.run < powerOfTwo 64)
    {rows more : List Row} {r : Row} (ht : t.rows = rows ++ r :: more)
    (hrows : ∀ r' ∈ rows, ¬ r'.IsBroken) (hr : r.IsBroken) :
    ofCsv t.toCsv = .error (.row (rows.length + 2) (.fieldCount r.fieldsBeforeBreak)) := by
  -- The first broken row of the unified table stands behind the same rows.
  have hunified : t.unified.rows =
      rows.map Row.unified ++ r.unified :: more.map Row.unified := by
    rw [unified, ht, List.map_append, List.map_cons]
  have hreadable : ∀ r' ∈ rows.map Row.unified, r'.Readable := by
    intro r' hr'
    obtain ⟨r'', hr'', rfl⟩ := List.mem_map.mp hr'
    exact Row.Readable.unified (hrows r'' hr'') (hruns r'' (by simp [ht, hr'']))
  have hstop := ofCsv_toCsv_of_broken hunified hreadable (r := r.unified) hr
  rw [toCsv_unified, List.length_map] at hstop
  exact hstop

/-- **What was written is never read as other rows.** Reading the text of a table gives its rows,
but that all patterns that are no number become one, or it is refused. It is refused exactly if a
name in it has a line feed. The fault then names the line of the text on which the first such row
begins, and says that it has one field, if the line feed is in the implementation, or else two. -/
theorem ofCsv_toCsv_exact {t : Table} (hruns : ∀ r ∈ t.rows, r.run < powerOfTwo 64) :
    (∀ t', ofCsv t.toCsv = .ok t' → t' = t.unified) ∧
      ((∃ cause, ofCsv t.toCsv = .error cause) ↔ ∃ r ∈ t.rows, r.IsBroken) ∧
      ∀ rows r more, t.rows = rows ++ r :: more → (∀ r' ∈ rows, ¬ r'.IsBroken) → r.IsBroken →
        ∃ rest line, t.toCsv.toList = (Table.mk rows).toCsv.toList ++ (Csv.rowChars r ++ rest) ∧
          line = (Table.mk rows).toCsv.toList.count '\n' + 1 ∧
          ofCsv t.toCsv = .error (.row line (.fieldCount r.fieldsBeforeBreak)) ∧
          (Fault.table (.row line (.fieldCount r.fieldsBeforeBreak))).message =
            s!"Malformed input: line {line}: expected 4 fields, got {r.fieldsBeforeBreak}" := by
  have hcases := ofCsv_toCsv_unified hruns
  refine ⟨fun t' ht' => ?_, ⟨fun ⟨cause, hcause⟩ => ?_, fun hbroken => ?_⟩, ?_⟩
  · -- A text that is refused is none that is read.
    rcases hcases with ⟨-, hread⟩ | ⟨-, cause, hrefused⟩
    · exact Except.ok.inj (ht'.symm.trans hread)
    · exact absurd (hrefused.symm.trans ht') (by simp)
  · rcases hcases with ⟨-, hread⟩ | ⟨hbroken, -⟩
    · exact absurd (hread.symm.trans hcause) (by simp)
    · exact hbroken
  · rcases hcases with ⟨hwhole, -⟩ | ⟨-, hrefused⟩
    · obtain ⟨r, hr, hr'⟩ := hbroken
      exact absurd hr' (hwhole r hr)
    · exact hrefused
  · intro rows r more ht hrows hr
    obtain ⟨rest, htext⟩ := exists_rest_of_rows ht
    have hline : (Table.mk rows).toCsv.toList.count '\n' = rows.length + 1 :=
      count_feed_toCsv fun r' hr' => Row.feed_not_mem_of_not_isBroken (hrows r' hr')
    refine ⟨rest, rows.length + 2, htext, by rw [hline], ?_, ?_⟩
    · exact ofCsv_toCsv_of_first_broken hruns ht hrows hr
    · exact Fault.message_fieldCount (rows.length + 2) r.fieldsBeforeBreak

/-- A row with no number, and one whose variant goes on as if it were a row of its own. -/
def crafted : Table :=
  ⟨[⟨"a,\"b\"", "c\r", 0, ⟨0x7ff8000000000001⟩⟩, ⟨"x", "y\nz,v,1,2.5\n", 1, .infinity⟩]⟩

/-- A variant that looks like a row is refused on its first line. -/
theorem crafted_variant_is_refused :
    (∀ r ∈ crafted.rows, r.run < powerOfTwo 64) ∧
      ofCsv crafted.toCsv = .error (.row 3 (.fieldCount 2)) := by
  have hruns : ∀ r ∈ crafted.rows, r.run < powerOfTwo 64 := by decide
  obtain ⟨-, -, hfirst⟩ := ofCsv_toCsv_exact hruns
  obtain ⟨rest, line, -, hline, hstop, -⟩ :=
    hfirst (crafted.rows.take 1) ⟨"x", "y\nz,v,1,2.5\n", 1, .infinity⟩ [] rfl
      (by decide) (by decide)
  have hthird : line = 3 := hline.trans (by decide +kernel)
  exact ⟨hruns, hthird ▸ hstop⟩

end Table

/-! ### What was read -/

namespace Csv

/-- A field holds characters of its line, behind those that have been read of it before. -/
theorem subset_of_mem_splitOnto {current line field : List Char} {quoted : Bool}
    (h : field ∈ splitOnto current quoted line) : field ⊆ current ++ line := by
  -- Every case moves characters from the line to the field, or drops them.
  induction current, quoted, line using splitOnto.induct with
  | case1 current quoted =>
    rw [splitOnto, List.mem_singleton] at h
    rw [h, List.append_nil]
    exact List.reverse_subset.mpr (List.Subset.refl _)
  | case2 current rest ih =>
    rw [splitOnto] at h
    intro c hc
    have hmem := ih h hc
    simp only [List.mem_append, List.mem_cons] at hmem ⊢
    tauto
  | case3 current quoted rest hpair ih =>
    rw [splitOnto, if_pos rfl] at h
    · intro c hc
      have hmem := ih h hc
      simp only [List.mem_append, List.mem_cons] at hmem ⊢
      tauto
    · exact hpair
  | case4 current quoted c rest hpair hquote hcomma ih =>
    rw [splitOnto, if_neg hquote, if_pos hcomma, List.mem_cons] at h
    · rcases h with rfl | h
      · exact fun c hc => List.mem_append_left _ (List.mem_reverse.mp hc)
      · exact fun c hc => List.mem_append_right _ (List.mem_cons_of_mem _ (ih h hc))
    · exact hpair
  | case5 current quoted c rest hpair hquote hcomma ih =>
    rw [splitOnto, if_neg hquote, if_neg hcomma] at h
    · intro c' hc'
      have hmem := ih h hc'
      simp only [List.mem_append, List.mem_cons] at hmem ⊢
      tauto
    · exact hpair

end Csv

/-- A whole number that is read is within the limit. -/
theorem readWhole_le {limit n : Nat} {cs : List Char} (h : readWhole limit cs = .ok n) :
    n ≤ limit := by
  obtain ⟨-, -, -, -, -, hle⟩ := readWhole_eq_ok.mp h
  exact hle

namespace Csv

/-- Every row that is read is recorded by one of the lines. -/
theorem exists_line_of_rowsOfLines {lines : List (List Char)} {number : Nat} {rows : List Row}
    (h : rowsOfLines number lines = .ok rows) {r : Row} (hr : r ∈ rows) :
    ∃ line ∈ lines, Records line r := by
  obtain ⟨⟨i, hi⟩, rfl⟩ := List.get_of_mem hr
  have hrecords := rowsOfLines_eq_ok.mp h
  have hi' : i < (inked lines).length := hrecords.length_eq ▸ hi
  exact ⟨(inked lines).get ⟨i, hi'⟩, (mem_inked.mp (List.get_mem _ _)).1, hrecords.get hi' hi⟩

end Csv

namespace Table

/-- A table that is read takes its rows from the lines behind the first one. -/
theorem ofCsv_eq_ok {text : String} {t : Table} (h : ofCsv text = .ok t) :
    ∃ header rest, lines text.toList = header :: rest ∧ trim header = tableHeader.toList ∧
      Csv.rowsOfLines 2 rest = .ok t.rows := by
  unfold ofCsv at h
  split at h
  · cases h
  next header rest hlines =>
    split at h
    next hheader =>
      refine ⟨header, rest, hlines, hheader, ?_⟩
      cases hrows : Csv.rowsOfLines 2 rest with
      | error e =>
        rw [hrows] at h
        cases h
      | ok rows =>
        rw [hrows] at h
        obtain rfl := Except.ok.inj h
        rfl
    next => cases h

/-- **A row that was read** is on one line, and its run is counted by a word. -/
theorem whole_of_ofCsv {text : String} {t : Table} (h : ofCsv text = .ok t) {r : Row}
    (hr : r ∈ t.rows) : ¬ r.IsBroken ∧ r.run < powerOfTwo 64 := by
  obtain ⟨header, rest, hlines, -, hrows⟩ := ofCsv_eq_ok h
  obtain ⟨line, hline, run, duration, hsplit, hrun, -⟩ := Csv.exists_line_of_rowsOfLines hrows hr
  have hfeed : '\n' ∉ line := feed_not_mem_of_mem_lines (hlines ▸ List.mem_cons_of_mem _ hline)
  -- What is on the line is all that a field can hold.
  have hfield : ∀ field ∈ Csv.splitRecord line, '\n' ∉ field := fun field hmem hc =>
    hfeed (Csv.subset_of_mem_splitOnto hmem hc)
  rw [hsplit] at hfield
  have hpower : 0 < powerOfTwo 64 := by decide
  refine ⟨not_or.mpr ⟨hfield _ (by simp), hfield _ (by simp)⟩, ?_⟩
  exact Nat.lt_of_le_sub_one hpower (readWhole_le hrun)

/-- **A table that was read** is read again from its own text, but that all patterns that are no
number become one, and the text of that is the same again. -/
theorem ofCsv_toCsv_of_ofCsv {text : String} {t : Table} (h : ofCsv text = .ok t) :
    ofCsv t.toCsv = .ok t.unified ∧ t.unified.toCsv = t.toCsv := by
  rcases ofCsv_toCsv_unified fun r hr => (whole_of_ofCsv h hr).2 with ⟨-, hread⟩ | ⟨hbroken, -⟩
  · exact ⟨hread, toCsv_unified t⟩
  · -- No row that was read has a name over several lines.
    obtain ⟨r, hr, hr'⟩ := hbroken
    exact absurd hr' (whole_of_ofCsv h hr).1

/-- A text with quotes in the middle of fields, a blank line, ends of lines of either kind and
numbers that are written as no table is. -/
def sloppyText : String :=
  "impl,variant,run,duration_ms \r\n\r\na\"b,c\"d,,+3, 1e400\n \"e\"\"\"\"f\", g\r,007,-nan"

/-- What is read of it. -/
def sloppy : Table :=
  ⟨[⟨"ab,cd", "", 3, .infinity⟩, ⟨" e\"\"f", " g\r", 7, ⟨0xfff8000000000000⟩⟩]⟩

/-- A text that is read is brought into the form that is written, and stays in it. -/
theorem sloppy_text_is_settled :
    ofCsv sloppyText = .ok sloppy ∧ ofCsv sloppy.toCsv = .ok sloppy.unified ∧
      sloppy.unified.toCsv = sloppy.toCsv := by
  have hread : ofCsv sloppyText = .ok sloppy := by decide +kernel
  exact ⟨hread, ofCsv_toCsv_of_ofCsv hread⟩

end Table

end PinnedBench
