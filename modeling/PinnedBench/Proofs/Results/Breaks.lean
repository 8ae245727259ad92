import Mathlib.Data.List.Basic
import Mathlib.Data.List.Induction
import PinnedBench.Proofs.Decimal.Texts
import PinnedBench.Proofs.Results.Tables

/-!
# Names over several lines

A field with a line feed is put in quotes, but a text is split into lines before quotes are looked
at. So the first line of such a row ends inside the quotes of the name: the rest of the line belongs
to that name, whatever it holds, and the line has one field or two instead of four
(`Csv.splitRecord_open`). Reading stops there (`Table.ofCsv_toCsv_of_broken`), behind the rows that
were read well.

A table that is built from batches of durations is therefore read back exactly if no name in it has
a line feed, and is refused otherwise (`Table.ofCsv_toCsv_ofBatches`).
-/

namespace PinnedBench

namespace Csv

/-! ### Open quotes -/

/-- Quotes are doubled one by one. -/
theorem doubleQuotes_append (as bs : List Char) :
    doubleQuotes (as ++ bs) = doubleQuotes as ++ doubleQuotes bs := by
  induction as with
  | nil => rfl
  | cons a as ih =>
    simp only [List.cons_append, doubleQuotes]
    split <;> rw [ih] <;> rfl

/-- Behind an opening quote without its closing one, the line is one field. -/
theorem splitOnto_open (field current : List Char) :
    splitOnto current true (doubleQuotes field) = [current.reverse ++ field] := by
  have hread := splitOnto_doubleQuotes field current []
  rwa [List.append_nil, splitOnto, List.reverse_append, List.reverse_reverse] at hread

/-- Doubling quotes keeps the last character. -/
theorem getLast?_doubleQuotes (cs : List Char) : (doubleQuotes cs).getLast? = cs.getLast? := by
  induction cs using List.reverseRecOn with
  | nil => rfl
  | append_singleton cs c =>
    rw [doubleQuotes_append, List.getLast?_concat, List.getLast?_append]
    simp only [doubleQuotes]
    split
    next hquote => simp [hquote]
    next => simp

/-- A carriage return before the break belongs to the end of the line, so it is lost from the name
that is open there. -/
theorem dropReturn_open (before field : List Char) :
    ∃ field', dropReturn (before ++ '"' :: doubleQuotes field) =
      before ++ '"' :: doubleQuotes field' := by
  by_cases hreturn : field.getLast? = some '\r'
  · have hfield := List.dropLast_append_getLast? '\r' hreturn
    have hline : before ++ '"' :: doubleQuotes field =
        (before ++ '"' :: doubleQuotes field.dropLast) ++ ['\r'] := by
      rw [← hfield, doubleQuotes_append, List.dropLast_concat]
      simp [doubleQuotes]
    refine ⟨field.dropLast, ?_⟩
    rw [hline, dropReturn, if_pos List.getLast?_concat, List.dropLast_concat]
  · refine ⟨field, dropReturn_of_getLast? ?_⟩
    -- The line ends like the name, or with its opening quote.
    rw [List.getLast?_append, List.getLast?_cons, getLast?_doubleQuotes]
    cases hlast : field.getLast? with
    | none => simp
    | some c => simpa [hlast] using hreturn

/-- The text of a field with a line feed, up to that line feed. -/
theorem escapeField_of_feed {field : List Char} (h : '\n' ∈ field) :
    ∃ head tail, '\n' ∉ head ∧ escapeField field = '"' :: doubleQuotes head ++ '\n' :: tail := by
  obtain ⟨head, rest, hsplit, hhead⟩ := List.eq_append_cons_of_mem h
  have hneeds : needsQuotes field = true := by
    rw [needsQuotes, List.any_eq_true]
    exact ⟨'\n', h, by decide⟩
  refine ⟨head, doubleQuotes rest ++ ['"'], hhead, ?_⟩
  rw [escapeField, if_pos hneeds, hsplit, doubleQuotes_append, doubleQuotes, if_neg (by decide)]
  simp

/-- A line that starts with an open quote is one field. -/
theorem splitRecord_open (field : List Char) :
    (splitRecord ('"' :: doubleQuotes field)).length = 1 := by
  have hopen := splitOnto_open field []
  rw [splitRecord, splitOnto, if_pos rfl, Bool.not_false, hopen]
  · rfl
  · simp

end Csv

/-! ### Broken rows -/

namespace Row

/-- A row with a name that is written over several lines. -/
def IsBroken (r : Row) : Prop := '\n' ∈ r.implementation.toList ∨ '\n' ∈ r.variant.toList

instance (r : Row) : Decidable r.IsBroken :=
  inferInstanceAs (Decidable ('\n' ∈ r.implementation.toList ∨ '\n' ∈ r.variant.toList))

/-- The number of fields on the first line of a broken row. -/
def fieldsBeforeBreak (r : Row) : Nat := if '\n' ∈ r.implementation.toList then 1 else 2

/-- **The first line of a broken row** ends inside the quotes of a name, so it is no row. -/
theorem IsBroken.firstLine {r : Row} (h : r.IsBroken) :
    ∃ line rest, Csv.rowChars r = line ++ '\n' :: rest ∧ '\n' ∉ line ∧
      '"' ∈ dropReturn line ∧
      Csv.rowOfFields (Csv.splitRecord (dropReturn line)) =
        .error (.fieldCount r.fieldsBeforeBreak) := by
  -- A line of one field or of two makes no row.
  have hcount : ∀ fields : List (List Char), fields.length = r.fieldsBeforeBreak →
      Csv.rowOfFields fields = .error (.fieldCount r.fieldsBeforeBreak) := by
    intro fields hlength
    have hne : fields.length ≠ 4 := by
      rw [hlength, fieldsBeforeBreak]
      split <;> decide
    rw [← hlength]
    unfold Csv.rowOfFields
    split
    · exact absurd rfl hne
    · rfl
  -- The first of the two names with a line feed is the one that is cut.
  by_cases himplementation : '\n' ∈ r.implementation.toList
  case pos =>
    -- The first name is cut, and the line holds nothing else.
    obtain ⟨head, tail, hhead, htext⟩ := Csv.escapeField_of_feed himplementation
    obtain ⟨field', hdrop⟩ := Csv.dropReturn_open [] head
    rw [List.nil_append, List.nil_append] at hdrop
    refine ⟨'"' :: Csv.doubleQuotes head, tail ++ ',' :: (Csv.escapeField r.variant.toList ++
      ',' :: (Nat.toDigits 10 r.run ++ ',' :: NumberStyle.table.chars r.duration)),
      ?_, ?_, ?_, hcount _ ?_⟩
    · rw [Csv.rowChars_eq, htext]
      simp only [List.append_assoc, List.cons_append]
    · simpa using Csv.feed_not_mem_doubleQuotes hhead
    · rw [hdrop]
      exact List.mem_cons_self
    · rw [hdrop, Csv.splitRecord_open, fieldsBeforeBreak, if_pos himplementation]
  case neg =>
    -- The first name is whole, so it is the second one that is cut.
    obtain ⟨head, tail, hhead, htext⟩ := Csv.escapeField_of_feed (h.resolve_left himplementation)
    let first := Csv.escapeField r.implementation.toList ++ [',']
    obtain ⟨field', hdrop⟩ := Csv.dropReturn_open first head
    refine ⟨first ++ '"' :: Csv.doubleQuotes head, tail ++ ',' :: (Nat.toDigits 10 r.run ++
      ',' :: NumberStyle.table.chars r.duration), ?_, ?_, ?_, hcount _ ?_⟩
    · rw [Csv.rowChars_eq, htext]
      simp only [first, List.append_assoc, List.cons_append, List.nil_append]
    · have hfirst := Csv.feed_not_mem_escapeField himplementation
      have hrest := Csv.feed_not_mem_doubleQuotes hhead
      simp [first, hfirst, hrest]
    · rw [hdrop]
      simp
    · -- The implementation is a whole field, and the variant is the open one.
      have hopen := Csv.splitRecord_open field'
      rw [Csv.splitRecord] at hopen
      rw [hdrop, Csv.splitRecord, List.append_assoc, List.singleton_append,
        Csv.splitOnto_escapeField, List.length_cons, hopen, fieldsBeforeBreak,
        if_neg himplementation]

end Row

/-! ### Tables -/

namespace Table

/-- **A broken row** behind readable ones is where reading stops. -/
theorem ofCsv_toCsv_of_broken {t : Table} {rows more : List Row} {r : Row}
    (ht : t.rows = rows ++ r :: more) (hrows : ∀ r' ∈ rows, r'.Readable) (hr : r.IsBroken) :
    ofCsv t.toCsv = .error (.row (rows.length + 2) (.fieldCount r.fieldsBeforeBreak)) := by
  obtain ⟨line, rest, hchars, hfeed, hquote, hfields⟩ := hr.firstLine
  -- The lines are the header, those of the readable rows and the cut one.
  obtain ⟨after, hlines⟩ : ∃ after, lines t.toCsv.toList =
      tableHeader.toList :: (rows.map Csv.rowChars ++ dropReturn line :: after) := by
    have hcut := lines_append hfeed
      (rest ++ ['\n'] ++ more.flatMap fun r' => Csv.rowChars r' ++ ['\n'])
    refine ⟨lines (rest ++ ['\n'] ++ more.flatMap fun r' => Csv.rowChars r' ++ ['\n']), ?_⟩
    rw [toCsv, String.toList_ofList, lines_append (by decide), ht, List.flatMap_append,
      lines_flatMap_append fun r' hr' => ⟨(hrows r' hr').feed_not_mem, Csv.dropReturn_rowChars r'⟩,
      List.flatMap_cons, hchars, ← hcut]
    simp only [List.append_assoc, List.cons_append]
    rfl
  have hheader : trim tableHeader.toList = tableHeader.toList := by decide
  -- The cut line has a quote, so it is not skipped as a blank one.
  have hblank : trim (dropReturn line) ≠ [] := trim_ne_nil hquote (by decide)
  have hstop : Csv.rowsOfLines (2 + rows.length) (dropReturn line :: after) =
      .error (.row (2 + rows.length) (.fieldCount r.fieldsBeforeBreak)) := by
    rw [Csv.rowsOfLines, List.isEmpty_eq_false_iff.mpr hblank, if_neg (by decide), hfields]
    rfl
  rw [ofCsv, hlines]
  simp only [hheader, if_true, rowsOfLines_append hrows, hstop]
  rw [Nat.add_comm]
  rfl

/-- A table whose durations read back is read back itself if it has no broken rows, and is not read
at all if it has some. -/
theorem ofCsv_toCsv_cases {t : Table} (hruns : ∀ r ∈ t.rows, r.run < powerOfTwo 64)
    (hreads : ∀ r ∈ t.rows, readReal (NumberStyle.table.chars r.duration) = .ok r.duration) :
    ((∀ r ∈ t.rows, ¬ r.IsBroken) ∧ ofCsv t.toCsv = .ok t) ∨
      ((∃ r ∈ t.rows, r.IsBroken) ∧ ∃ cause, ofCsv t.toCsv = .error cause) := by
  have hreadable : ∀ r ∈ t.rows, ¬ r.IsBroken → r.Readable := by
    intro r hr hwhole
    obtain ⟨himplementation, hvariant⟩ := not_or.mp hwhole
    exact ⟨himplementation, hvariant, hruns r hr, hreads r hr⟩
  cases hfind : t.rows.find? fun r => decide r.IsBroken with
  | none =>
    have hwhole : ∀ r ∈ t.rows, ¬ r.IsBroken := by simpa using List.find?_eq_none.mp hfind
    exact .inl ⟨hwhole, ofCsv_toCsv fun r hr => hreadable r hr (hwhole r hr)⟩
  | some r =>
    -- The rows before the first broken one are readable.
    obtain ⟨hr, rows, more, ht, hrows⟩ := List.find?_eq_some_iff_append.mp hfind
    refine .inr ⟨⟨r, List.mem_of_find?_eq_some hfind, by simpa using hr⟩, _,
      ofCsv_toCsv_of_broken ht (fun r' hr' => ?_) (by simpa using hr)⟩
    exact hreadable r' (by simp [ht, hr']) (by simpa using hrows r' hr')

/-- A table of numbers without broken rows is read back, and one with broken rows is not read at
all. -/
theorem ofCsv_toCsv_eq {t : Table} (hruns : ∀ r ∈ t.rows, r.run < powerOfTwo 64)
    (hdefined : ∀ r ∈ t.rows, r.duration.isUndefined = false) :
    ((∀ r ∈ t.rows, ¬ r.IsBroken) ∧ ofCsv t.toCsv = .ok t) ∨
      ((∃ r ∈ t.rows, r.IsBroken) ∧ ∃ cause, ofCsv t.toCsv = .error cause) :=
  ofCsv_toCsv_cases hruns fun r hr => Double.readReal_chars (hdefined r hr)

end Table

/-! ### Tables of batches -/

/-- Durations of one implementation that are added to a table in one go. -/
structure Batch where
  /-- The language or tool. -/
  implementation : String
  /-- The variant within it. -/
  variant : String
  /-- The durations, in the order of measurement. -/
  durations : List Double
  deriving DecidableEq, Repr

namespace Table

/-- The table that batches make when they are added one after the other. -/
def ofBatches (batches : List Batch) : Table :=
  batches.foldl (fun t b => t.append b.implementation b.variant b.durations) .empty

/-- The rows of a table of batches are the durations of the batches, under their indices. -/
theorem mem_rows_ofBatches {batches : List Batch} {r : Row} :
    r ∈ (ofBatches batches).rows ↔ ∃ b ∈ batches, r.implementation = b.implementation ∧
      r.variant = b.variant ∧ b.durations[r.run]? = some r.duration := by
  have hrows := rows_foldl_append Batch.implementation Batch.variant Batch.durations empty batches
  rw [ofBatches, hrows, empty, List.nil_append, List.mem_flatMap]
  simp only [mem_rowsOf]

/-- Every name of a batch with durations is a name of a row. -/
theorem exists_isBroken_ofBatches {batches : List Batch} :
    (∃ r ∈ (ofBatches batches).rows, r.IsBroken) ↔
      ∃ b ∈ batches, b.durations ≠ [] ∧
        ('\n' ∈ b.implementation.toList ∨ '\n' ∈ b.variant.toList) := by
  constructor
  · rintro ⟨r, hr, hbroken⟩
    obtain ⟨b, hb, himplementation, hvariant, hduration⟩ := mem_rows_ofBatches.mp hr
    rw [Row.IsBroken, himplementation, hvariant] at hbroken
    exact ⟨b, hb, List.ne_nil_of_mem (List.mem_of_getElem? hduration), hbroken⟩
  · rintro ⟨b, hb, hdurations, hbroken⟩
    obtain ⟨x, xs, hx⟩ := List.exists_cons_of_ne_nil hdurations
    refine ⟨⟨b.implementation, b.variant, 0, x⟩, mem_rows_ofBatches.mpr ⟨b, hb, rfl, rfl, ?_⟩,
      hbroken⟩
    rw [hx, List.getElem?_cons_zero]

/-- **A table of batches** is read back from its text exactly if every batch with durations has its
names on one line; any other is refused, never read as another table. -/
theorem ofCsv_toCsv_ofBatches {batches : List Batch}
    (hruns : ∀ b ∈ batches, b.durations.length ≤ powerOfTwo 64)
    (hdefined : ∀ b ∈ batches, ∀ x ∈ b.durations, x.isUndefined = false) :
    (ofCsv (ofBatches batches).toCsv = .ok (ofBatches batches) ↔
      ∀ b ∈ batches, b.durations ≠ [] →
        '\n' ∉ b.implementation.toList ∧ '\n' ∉ b.variant.toList) ∧
      ∀ t, ofCsv (ofBatches batches).toCsv = .ok t → t = ofBatches batches := by
  have hcases := @ofCsv_toCsv_eq (ofBatches batches)
    (by
      intro r hr
      obtain ⟨b, hb, -, -, hduration⟩ := mem_rows_ofBatches.mp hr
      obtain ⟨hlt, -⟩ := List.getElem?_eq_some_iff.mp hduration
      exact Nat.lt_of_lt_of_le hlt (hruns b hb))
    (by
      intro r hr
      obtain ⟨b, hb, -, -, hduration⟩ := mem_rows_ofBatches.mp hr
      exact hdefined b hb _ (List.mem_of_getElem? hduration))
  have hbroken := @exists_isBroken_ofBatches batches
  rcases hcases with ⟨hwhole, hread⟩ | ⟨hsome, cause, hrefused⟩
  · -- No name is over several lines.
    have hnone : ¬ ∃ r ∈ (ofBatches batches).rows, r.IsBroken := fun ⟨r, hr, h⟩ => hwhole r hr h
    rw [hbroken] at hnone
    push Not at hnone
    rw [hread]
    exact ⟨⟨fun _ => hnone, fun _ => rfl⟩, fun t ht => (Except.ok.inj ht).symm⟩
  · obtain ⟨b, hb, hdurations, hfeed⟩ := hbroken.mp hsome
    rw [hrefused]
    refine ⟨⟨fun h => (nomatch h), fun h => ?_⟩, fun t h => (nomatch h)⟩
    obtain ⟨himplementation, hvariant⟩ := h b hb hdurations
    exact absurd hfeed (not_or.mpr ⟨himplementation, hvariant⟩)

/-- Commas, quotes and carriage returns in names do no harm. -/
theorem quoted_names_are_read_back :
    ofCsv (ofBatches [⟨"cpp\r", "simd,\"native\"", [⟨0x4008000000000000⟩, ⟨0x3ff0000000000000⟩]⟩,
      ⟨"", " ", [⟨0x3fb999999999999a⟩]⟩]).toCsv =
      .ok (ofBatches [⟨"cpp\r", "simd,\"native\"", [⟨0x4008000000000000⟩, ⟨0x3ff0000000000000⟩]⟩,
        ⟨"", " ", [⟨0x3fb999999999999a⟩]⟩]) :=
  (ofCsv_toCsv_ofBatches (by decide +kernel) (by decide)).1.mpr (by decide)

/-- A line feed in a name makes the table unreadable, although the name was put in quotes. -/
theorem broken_name_is_refused :
    ofCsv (ofBatches [⟨"a\nb", "v", [⟨0x3ff8000000000000⟩]⟩]).toCsv =
      .error (.row 2 (.fieldCount 1)) := by
  refine @ofCsv_toCsv_of_broken _ [] [] ⟨"a\nb", "v", 0, ⟨0x3ff8000000000000⟩⟩ rfl ?_ ?_
  · simp
  · exact .inl (by decide)

end Table

end PinnedBench
