import PinnedBench.Proofs.Outcomes
import PinnedBench.Proofs.Text.Lines
import PinnedBench.Proofs.Text.Numerals
import PinnedBench.Results.Csv

/-!
# Flaws of results tables

A line of a results table is blank, or it records a row (`Csv.Records`), or it has a flaw: of three
causes the first one that applies (`Csv.Flaw`). Reading goes from line to line. So the rows that are
read are those that the lines record which are not blank (`Csv.rowsOfLines_eq_ok`), and a text is
refused for the first line with a flaw (`Csv.rowsOfLines_eq_error`).

Lines are counted before the header is taken off and the blank ones are passed over. So the number
in a fault is the number that the line has in the text (`Table.ofCsv_names_first_flaw`).
-/

namespace PinnedBench

namespace Csv

/-! ### One line -/

/-- A line that records a row: it has four fields, the names of the row are the first two, and its
run and its duration are read from the other two without the blanks around them. -/
def Records (line : List Char) (r : Row) : Prop :=
  ∃ run duration, splitRecord line = [r.implementation.toList, r.variant.toList, run, duration] ∧
    readWhole (powerOfTwo 64 - 1) (trim run) = .ok r.run ∧ readReal (trim duration) = .ok r.duration

/-- **A line that records a row**, in terms of the characters that stand on it: behind the names
there are digits, which write a number that a word can count, and a decimal or one of the words for
infinity and for what is no number. Either may have a plus sign, and blanks around it. -/
theorem records_iff {line : List Char} {r : Row} : Records line r ↔
    ∃ run duration, splitRecord line = [r.implementation.toList, r.variant.toList, run, duration] ∧
      (∃ ds, Signed false (trim run) ds ∧ ds ≠ [] ∧ (∀ c ∈ ds, c.isDigit = true) ∧
        digitsValue ds = r.run ∧ r.run ≤ powerOfTwo 64 - 1) ∧
      ∃ negative unsigned y, Signed negative (trim duration) unsigned ∧ SizeText unsigned y ∧
        r.duration = if negative then y.negate else y := by
  simp only [Records, readWhole_eq_ok, readReal_eq_ok]

/-- **What is wrong with a line** that records no row, for the first cause that applies. -/
inductive Flaw (line : List Char) : RowFault → Prop
  /-- There are more or fewer than four fields, and then no other cause is looked for. -/
  | fieldCount (h : (splitRecord line).length ≠ 4) :
      Flaw line (.fieldCount (splitRecord line).length)
  /-- The third field is no number of a run. -/
  | runIndex {implementation variant run duration cause}
      (hfields : splitRecord line = [implementation, variant, run, duration])
      (hrun : readWhole (powerOfTwo 64 - 1) (trim run) = .error cause) :
      Flaw line (.runIndex cause)
  /-- The third field is one, but the fourth is no duration. -/
  | duration {implementation variant run duration n cause}
      (hfields : splitRecord line = [implementation, variant, run, duration])
      (hrun : readWhole (powerOfTwo 64 - 1) (trim run) = .ok n)
      (hduration : readReal (trim duration) = .error cause) :
      Flaw line (.duration cause)

variable {line : List Char} {r : Row} {cause : RowFault}

/-- A line is read as the row that it records. -/
theorem rowOfFields_eq_ok : rowOfFields (splitRecord line) = .ok r ↔ Records line r := by
  unfold Records
  generalize splitRecord line = fields
  constructor
  · intro h
    unfold rowOfFields at h
    split at h
    next implementation variant run duration =>
      obtain ⟨n, hrun, h⟩ := bind_eq_ok.mp h
      obtain ⟨x, hduration, h⟩ := bind_eq_ok.mp h
      obtain rfl := Except.ok.inj h
      refine ⟨run, duration, ?_, mapError_eq_ok.mp hrun, mapError_eq_ok.mp hduration⟩
      simp
    next => cases h
  · rintro ⟨run, duration, rfl, hrun, hduration⟩
    rw [rowOfFields, hrun, hduration]
    simp [mapError_ok, bind, Except.bind]

/-- A line is refused for its flaw. -/
theorem rowOfFields_eq_error : rowOfFields (splitRecord line) = .error cause ↔ Flaw line cause := by
  constructor
  · -- The fields are counted first, then come the run and the duration: each cause is reached only
    -- when the checks before it have succeeded.
    intro h
    unfold rowOfFields at h
    split at h
    next implementation variant run duration hfields =>
      rcases bind_eq_error.mp h with hrun | ⟨n, hrun, h⟩
      · obtain ⟨e, he, rfl⟩ := mapError_eq_error.mp hrun
        exact .runIndex hfields he
      · rcases bind_eq_error.mp h with hduration | ⟨x, -, h⟩
        · obtain ⟨e, he, rfl⟩ := mapError_eq_error.mp hduration
          exact .duration hfields (mapError_eq_ok.mp hrun) he
        · cases h
    next hother =>
      obtain rfl := Except.error.inj h
      refine .fieldCount fun hfour => ?_
      obtain ⟨implementation, variant, run, duration, hfields⟩ := List.length_eq_four.mp hfour
      exact hother _ _ _ _ hfields
  · rintro (hcount | ⟨hfields, hrun⟩ | ⟨hfields, hrun, hduration⟩)
    · unfold rowOfFields
      split
      next hfields => exact absurd (congrArg List.length hfields) hcount
      next => rfl
    · rw [hfields, rowOfFields, hrun]
      rfl
    · rw [hfields, rowOfFields, hrun, hduration]
      rfl

/-! ### All lines -/

/-- **The rows that are read** are those of the lines that are not blank, in order. -/
theorem rowsOfLines_eq_ok {lines : List (List Char)} {number : Nat} {rows : List Row} :
    rowsOfLines number lines = .ok rows ↔ List.Forall₂ Records (inked lines) rows := by
  -- The induction is on the lines, and the number of the first one is left open, as it does not
  -- matter.
  induction lines generalizing number rows with
  | nil =>
    rw [rowsOfLines, inked, List.filter_nil, List.forall₂_nil_left_iff, Except.ok.injEq, eq_comm]
  | cons line lines ih =>
    rw [rowsOfLines]
    by_cases hblank : trim line = []
    · rw [if_pos (List.isEmpty_iff.mpr hblank), inked_cons_of_blank hblank]
      exact ih
    · rw [if_neg (by simpa using hblank), inked_cons_of_ne hblank, List.forall₂_cons_left_iff]
      constructor
      · intro h
        obtain ⟨r, hr, h⟩ := bind_eq_ok.mp h
        obtain ⟨others, hothers, h⟩ := bind_eq_ok.mp h
        obtain rfl := Except.ok.inj h
        exact ⟨r, others, rowOfFields_eq_ok.mp (mapError_eq_ok.mp hr), ih.mp hothers, rfl⟩
      · rintro ⟨r, others, hr, hothers, rfl⟩
        rw [rowOfFields_eq_ok.mpr hr, ih.mpr hothers]
        rfl

/-- **The first line with a flaw**: the lines before it, so many of them, are blank or record rows,
and it is not blank itself. -/
def FirstFlaw (lines : List (List Char)) (i : Nat) (line : List Char) (cause : RowFault) : Prop :=
  ∃ before behind, lines = before ++ line :: behind ∧ before.length = i ∧
    (∀ l ∈ before, Blank l ∨ ∃ r, Records l r) ∧ ¬Blank line ∧ Flaw line cause

/-- The first flaw is on the first line or on one of the others, if the first line has none. -/
theorem firstFlaw_cons {first : List Char} {lines : List (List Char)} {i : Nat} :
    FirstFlaw (first :: lines) i line cause ↔
      (i = 0 ∧ line = first ∧ ¬Blank first ∧ Flaw first cause) ∨
      ∃ j, i = j + 1 ∧ (Blank first ∨ ∃ r, Records first r) ∧ FirstFlaw lines j line cause := by
  constructor
  · rintro ⟨before, behind, hlines, rfl, hbefore, hblank, hflaw⟩
    cases before with
    | nil =>
      obtain ⟨rfl, rfl⟩ := List.cons.inj hlines
      exact .inl ⟨rfl, rfl, hblank, hflaw⟩
    | cons l before =>
      obtain ⟨rfl, rfl⟩ := List.cons.inj hlines
      obtain ⟨hfirst, hbefore⟩ := List.forall_mem_cons.mp hbefore
      exact .inr ⟨before.length, rfl, hfirst, before, behind, rfl, rfl, hbefore, hblank, hflaw⟩
  · rintro (⟨rfl, rfl, hblank, hflaw⟩ |
      ⟨j, rfl, hfirst, before, behind, rfl, rfl, hbefore, hblank, hflaw⟩)
    · exact ⟨[], lines, rfl, rfl, by simp, hblank, hflaw⟩
    · exact ⟨first :: before, behind, rfl, rfl, List.forall_mem_cons.mpr ⟨hfirst, hbefore⟩, hblank,
        hflaw⟩

/-- **Reading stops** at the first line with a flaw, and counts the lines up to it. -/
theorem rowsOfLines_eq_error {lines : List (List Char)} {number : Nat} {fault : TableFault} :
    rowsOfLines number lines = .error fault ↔
      ∃ i line cause, FirstFlaw lines i line cause ∧ fault = .row (number + i) cause := by
  induction lines generalizing number with
  | nil => simp [rowsOfLines, FirstFlaw]
  | cons first lines ih =>
    -- The first line is counted, whatever is on it.
    have hcount : ∀ i, number + (i + 1) = number + 1 + i := by omega
    simp only [firstFlaw_cons]
    rw [rowsOfLines]
    by_cases hblank : trim first = []
    · rw [if_pos (List.isEmpty_iff.mpr hblank), ih]
      have hblank := trim_eq_nil_iff.mp hblank
      constructor
      · rintro ⟨i, line, cause, hfirst, rfl⟩
        exact ⟨i + 1, line, cause, .inr ⟨i, rfl, .inl hblank, hfirst⟩, by rw [hcount i]⟩
      · rintro ⟨_, line, cause, ⟨-, -, hnot, -⟩ | ⟨i, rfl, -, hfirst⟩, rfl⟩
        · exact absurd hblank hnot
        · exact ⟨i, line, cause, hfirst, by rw [hcount i]⟩
    · rw [if_neg (by simpa using hblank), bind_eq_error, mapError_eq_error]
      have hblank := fun h => hblank (trim_eq_nil_iff.mpr h)
      constructor
      · rintro (⟨cause, hcause, rfl⟩ | ⟨r, hr, h⟩)
        · exact ⟨0, first, cause, .inl ⟨rfl, rfl, hblank, rowOfFields_eq_error.mp hcause⟩, rfl⟩
        · -- The first line records a row, so the flaw is on one of the others.
          have hrest : rowsOfLines (number + 1) lines = .error fault := by
            rcases bind_eq_error.mp h with hrest | ⟨rows, -, hpure⟩
            · exact hrest
            · cases hpure
          obtain ⟨i, line, cause, hfirst, rfl⟩ := ih.mp hrest
          have hrecord := rowOfFields_eq_ok.mp (mapError_eq_ok.mp hr)
          exact ⟨i + 1, line, cause, .inr ⟨i, rfl, .inr ⟨r, hrecord⟩, hfirst⟩, by rw [hcount i]⟩
      · rintro ⟨_, line, cause, ⟨rfl, rfl, -, hflaw⟩ | ⟨i, rfl, hrecord, hfirst⟩, rfl⟩
        · exact .inl ⟨cause, rowOfFields_eq_error.mpr hflaw, rfl⟩
        · obtain ⟨r, hr⟩ := hrecord.resolve_left hblank
          have hrest : rowsOfLines (number + 1) lines = .error (.row (number + (i + 1)) cause) :=
            ih.mpr ⟨i, line, cause, hfirst, by rw [hcount i]⟩
          exact .inr ⟨r, mapError_eq_ok.mpr (rowOfFields_eq_ok.mpr hr),
            bind_eq_error.mpr (.inl hrest)⟩

/-- Lines are refused if one of them is neither blank nor records a row. -/
theorem exists_rowsOfLines_eq_error {lines : List (List Char)} {number : Nat} :
    (∃ fault, rowsOfLines number lines = .error fault) ↔
      ∃ line ∈ lines, ¬Blank line ∧ ¬∃ r, Records line r := by
  have hread : (∃ rows, rowsOfLines number lines = .ok rows) ↔
      ∀ line ∈ lines, ¬Blank line → ∃ r, Records line r :=
    calc (∃ rows, rowsOfLines number lines = .ok rows)
        ↔ ∃ rows, (inked lines).mapM (fun line => rowOfFields (splitRecord line)) = .ok rows := by
          simp only [rowsOfLines_eq_ok, mapM_eq_ok, rowOfFields_eq_ok]
      _ ↔ ∀ line ∈ inked lines, ∃ r, Records line r := by
          simp only [exists_mapM_eq_ok, rowOfFields_eq_ok]
      _ ↔ ∀ line ∈ lines, ¬Blank line → ∃ r, Records line r := by
          simp only [mem_inked, trim_eq_nil_iff, and_imp, ne_eq]
  have hcases : (∃ fault, rowsOfLines number lines = .error fault) ↔
      ¬∃ rows, rowsOfLines number lines = .ok rows := by
    cases rowsOfLines number lines <;> simp
  rw [hcases, hread]
  push Not
  rfl

end Csv

/-! ### Texts -/

theorem Fault.message_row (line : Nat) (cause : RowFault) :
    (Fault.table (.row line cause)).message =
      s!"Malformed input: line {line}: {cause.message}" := by
  have hstart : "Malformed input: line " = "Malformed input: " ++ "line " := by decide
  unfold Fault.message TableFault.message
  simp only [hstart, String.append_assoc, toString]

namespace Table

/-- **The first flaw of a text.** Let the first line of a text be the header, blanks apart. The text
is refused exactly if some line behind it is neither blank nor records a row. The fault then tells
the first such line, by the number of the line in the text, and the first cause that applies to it.
If the text is read, the rows are those of the lines that are not blank, in order. -/
theorem ofCsv_names_first_flaw {text : String} {header : List Char} {rest : List (List Char)}
    (hlines : lines text.toList = header :: rest) (hheader : trim header = tableHeader.toList) :
    ((∃ fault, ofCsv text = .error fault) ↔
      ∃ line ∈ rest, ¬Blank line ∧ ¬∃ r, Csv.Records line r) ∧
    (∀ fault, ofCsv text = .error fault ↔
      ∃ i line cause, Csv.FirstFlaw rest i line cause ∧ fault = .row (i + 2) cause) ∧
    (∀ i line cause, Csv.FirstFlaw rest i line cause → LineAt text.toList line (i + 2) ∧
      (Fault.table (.row (i + 2) cause)).message =
        s!"Malformed input: line {i + 2}: {cause.message}") ∧
    ∀ t, ofCsv text = .ok t ↔ List.Forall₂ Csv.Records (inked rest) t.rows := by
  -- Behind the header, reading the text is reading the other lines, counted from the second on.
  have hread : ofCsv text = (Csv.rowsOfLines 2 rest).map Table.mk := by
    rw [ofCsv, hlines]
    exact if_pos hheader
  refine ⟨?_, fun fault => ?_, fun i line cause hfirst => ⟨?_, ?_⟩, fun t => ?_⟩
  · rw [← @Csv.exists_rowsOfLines_eq_error rest 2, hread]
    simp only [map_eq_error]
  · rw [hread, map_eq_error, Csv.rowsOfLines_eq_error]
    simp only [Nat.add_comm 2]
  · -- The header is a line of the text, too.
    obtain ⟨before, behind, rfl, rfl, -⟩ := hfirst
    apply lineAt_of_getElem?
    rw [hlines, List.getElem?_cons_succ, List.getElem?_append_right le_rfl, Nat.sub_self,
      List.getElem?_cons_zero]
  · exact Fault.message_row (i + 2) cause
  · rw [hread, map_eq_ok, ← @Csv.rowsOfLines_eq_ok rest 2]
    constructor
    · rintro ⟨rows, hrows, rfl⟩
      exact hrows
    · exact fun hrows => ⟨t.rows, hrows, rfl⟩

/-- A text with blank lines and ends of lines of either kind. The last line has too few fields, and
what is on the line before it is left open. -/
def textWith (second : String) : String :=
  "impl,variant,run,duration_ms \r\n\npython,naive,0,1.5\n \t\r\n" ++ second ++ "\nx\n"

/-- The lines of the text behind its header. -/
def linesWith (second : String) : List (List Char) :=
  ["", "python,naive,0,1.5", " \t", second, "x"].map String.toList

/-- If the line that is left open has a flaw, it is the first one: the line behind it comes too
late. -/
theorem firstFlaw_linesWith {second : String} {cause : RowFault} (hblank : trim second.toList ≠ [])
    (hflaw : Csv.Flaw second.toList cause) :
    Csv.FirstFlaw (linesWith second) 3 second.toList cause := by
  refine ⟨(linesWith second).take 3, ["x".toList], rfl, rfl, ?_,
    fun h => hblank (trim_eq_nil_iff.mpr h), hflaw⟩
  have hrecord : Csv.Records "python,naive,0,1.5".toList
      ⟨"python", "naive", 0, ⟨0x3ff8000000000000⟩⟩ :=
    ⟨"0".toList, "1.5".toList, by decide, by decide, by decide +kernel⟩
  simp only [linesWith, List.map_cons, List.map_nil, List.take_succ_cons, List.take_zero,
    List.forall_mem_cons]
  exact ⟨.inl (trim_eq_nil_iff.mp (by decide)), .inr ⟨_, hrecord⟩,
    .inl (trim_eq_nil_iff.mp (by decide)), by simp⟩

/-- Each of the three causes on the second row of a text. The flaw is told with the number that its
line has in the text, blank lines counted, though the line behind it has one, too. Of two causes
that apply to one line the first is told. -/
theorem second_run_is_refused :
    (ofCsv (textWith "python,naive,2.5") = .error (.row 5 (.fieldCount 3)) ∧
      LineAt (textWith "python,naive,2.5").toList "python,naive,2.5".toList 5 ∧
      (Fault.table (.row 5 (.fieldCount 3))).message =
        "Malformed input: line 5: expected 4 fields, got 3") ∧
    (ofCsv (textWith "python,naive,-1,fast") = .error (.row 5 (.runIndex .invalidDigit)) ∧
      LineAt (textWith "python,naive,-1,fast").toList "python,naive,-1,fast".toList 5 ∧
      (Fault.table (.row 5 (.runIndex .invalidDigit))).message =
        "Malformed input: line 5: bad run index: invalid digit found in string") ∧
    (ofCsv (textWith "python,naive,1,fast") = .error (.row 5 (.duration .invalid)) ∧
      LineAt (textWith "python,naive,1,fast").toList "python,naive,1,fast".toList 5 ∧
      (Fault.table (.row 5 (.duration .invalid))).message =
        "Malformed input: line 5: bad duration: invalid float literal") := by
  have hrefused : ∀ second cause, trim second.toList ≠ [] → Csv.Flaw second.toList cause →
      lines (textWith second).toList = "impl,variant,run,duration_ms ".toList :: linesWith second →
      ofCsv (textWith second) = .error (.row 5 cause) ∧
        LineAt (textWith second).toList second.toList 5 ∧
        (Fault.table (.row 5 cause)).message = s!"Malformed input: line {5}: {cause.message}" := by
    intro second cause hblank hflaw hlines
    have hfirst := firstFlaw_linesWith hblank hflaw
    obtain ⟨-, hfault, htold, -⟩ := ofCsv_names_first_flaw hlines (by decide)
    exact ⟨(hfault _).mpr ⟨_, _, _, hfirst, rfl⟩, htold _ _ _ hfirst⟩
  have hrun : Csv.splitRecord "python,naive,-1,fast".toList =
      ["python".toList, "naive".toList, "-1".toList, "fast".toList] := by decide
  have hduration : Csv.splitRecord "python,naive,1,fast".toList =
      ["python".toList, "naive".toList, "1".toList, "fast".toList] := by decide
  have hone : readWhole (powerOfTwo 64 - 1) (trim "1".toList) = .ok 1 := by decide
  exact ⟨hrefused _ _ (by decide) (.fieldCount (by decide)) (by decide +kernel),
    hrefused _ _ (by decide) (.runIndex hrun (by decide)) (by decide +kernel),
    hrefused _ _ (by decide) (.duration hduration hone (by decide)) (by decide +kernel)⟩

end Table

end PinnedBench
