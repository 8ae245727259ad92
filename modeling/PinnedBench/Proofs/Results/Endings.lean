import PinnedBench.Proofs.Results.Flaws

/-!
# Ends of lines and blank lines in results tables

A carriage return at the end of a line belongs to the last field, even inside of quotes that are
still open, and that field is trimmed where it is read (`Csv.readAlike_return`). So it does not
matter whether a line feed has a carriage return before it, nor whether the last line has a line
feed: a table is read off the pieces of its text between line feeds, as they are (`Table.ofCsv_eq`).

Of these pieces the blank ones say nothing, but for the first one, which has to be the header. So
blank lines may be put in anywhere behind the header (`Table.ofCsv_ignores_endings`). This changes
the number of a line in a fault, but not which texts are read and as what.
-/

namespace PinnedBench

namespace Csv

/-! ### Lines with one more character -/

/-- A character that is neither a comma nor a quote is put behind the last field, whether quotes are
open or not. -/
theorem splitOnto_concat {c : Char} (hcomma : c ≠ ',') (hquote : c ≠ '"') (current : List Char)
    (quoted : Bool) (line : List Char) :
    ∃ fields last, splitOnto current quoted line = fields ++ [last] ∧
      splitOnto current quoted (line ++ [c]) = fields ++ [last ++ [c]] := by
  -- A quote that is not one of a pair does not become one by a character that is no quote.
  have hpair : ∀ {quoted : Bool} {first : Char} {rest : List Char},
      (∀ r, quoted = true → first = '"' → rest = '"' :: r → False) →
      ∀ r, quoted = true → first = '"' → rest ++ [c] = '"' :: r → False := by
    intro quoted first rest h r hquoted hfirst hrest
    cases rest with
    | nil => exact hquote (List.cons.inj hrest).1
    | cons c' rest => exact h rest hquoted hfirst (by rw [(List.cons.inj hrest).1])
  -- The induction follows the reader, and the character is met when the line is at its end.
  induction current, quoted, line using splitOnto.induct with
  | case1 current quoted =>
    refine ⟨[], current.reverse, by rw [splitOnto]; rfl, ?_⟩
    rw [List.nil_append, splitOnto, if_neg hquote, if_neg fun h => hcomma h.1, splitOnto,
      List.reverse_cons, List.nil_append]
    exact fun r _ hc _ => hquote hc
  | case2 current rest ih =>
    rw [List.cons_append, List.cons_append, splitOnto, splitOnto]
    exact ih
  | case3 current quoted rest h ih =>
    rw [List.cons_append, splitOnto, if_pos rfl, splitOnto, if_pos rfl]
    · exact ih
    · exact hpair h
    · exact h
  | case4 current quoted first rest h hfirst hends ih =>
    obtain ⟨fields, last, hfields, hfields'⟩ := ih
    refine ⟨current.reverse :: fields, last, ?_, ?_⟩
    · rw [splitOnto, if_neg hfirst, if_pos hends, hfields, List.cons_append]
      exact h
    · rw [List.cons_append, splitOnto, if_neg hfirst, if_pos hends, hfields', List.cons_append]
      exact hpair h
  | case5 current quoted first rest h hfirst hends ih =>
    rw [List.cons_append, splitOnto, if_neg hfirst, if_neg hends, splitOnto, if_neg hfirst,
      if_neg hends]
    · exact ih
    · exact hpair h
    · exact h

/-! ### Lines that are read alike -/

/-- Two lines that are blank together, name the same header, and record the same row or have the
same flaw. -/
structure ReadAlike (line line' : List Char) : Prop where
  /-- Without the blanks around them they are one line. -/
  trim_eq : trim line = trim line'
  /-- Their fields make the same row or the same fault. -/
  rowOfFields_eq : rowOfFields (splitRecord line) = rowOfFields (splitRecord line')

/-- A line is read like itself. -/
theorem ReadAlike.refl (line : List Char) : ReadAlike line line := ⟨rfl, rfl⟩

theorem blank_return : Blank ['\r'] := by
  simp only [Blank, List.forall_mem_singleton]
  decide

/-- **A carriage return** at the end of a line is not noticed. -/
theorem readAlike_return (line : List Char) : ReadAlike (line ++ ['\r']) line := by
  refine ⟨trim_append_blank blank_return line, ?_⟩
  obtain ⟨fields, last, hfields, hfields'⟩ :=
    splitOnto_concat (c := '\r') (by decide) (by decide) [] false line
  rw [splitRecord, splitRecord, hfields, hfields']
  by_cases hthree : fields.length = 3
  · -- The last field is the duration, which is trimmed.
    obtain ⟨implementation, variant, run, rfl⟩ := List.length_eq_three.mp hthree
    simp only [List.cons_append, List.nil_append, rowOfFields, trim_append_blank blank_return]
  · have hcount : ∀ field : List Char,
        rowOfFields (fields ++ [field]) = .error (.fieldCount (fields.length + 1)) := by
      intro field
      unfold rowOfFields
      split
      next hfour =>
        have hlength := congrArg List.length hfour
        rw [List.length_append] at hlength
        exact absurd (Nat.succ.inj hlength) hthree
      next => rw [List.length_append, List.length_singleton]
    rw [hcount, hcount]

/-- A line is read with the carriage return at its end as without it. -/
theorem readAlike_dropReturn (line : List Char) : ReadAlike (dropReturn line) line := by
  rcases dropReturn_cases line with h | h
  · rw [← h]
    exact .refl line
  · have halike := readAlike_return (dropReturn line)
    rw [← h] at halike
    exact ⟨halike.trim_eq.symm, halike.rowOfFields_eq.symm⟩

/-- Lines that are read alike one by one give the same rows, or the same fault on the same line. -/
theorem rowsOfLines_congr {lines lines' : List (List Char)}
    (h : List.Forall₂ ReadAlike lines lines')
    (number : Nat) : rowsOfLines number lines = rowsOfLines number lines' := by
  induction h generalizing number with
  | nil => rfl
  | cons hline _ ih => simp only [rowsOfLines, hline.trim_eq, hline.rowOfFields_eq, ih]

theorem rowsOfLines_concat {blank : List Char} (h : trim blank = []) (lines : List (List Char))
    (number : Nat) : rowsOfLines number (lines ++ [blank]) = rowsOfLines number lines := by
  induction lines generalizing number with
  | nil => simp [rowsOfLines, h]
  | cons line lines ih => simp only [List.cons_append, rowsOfLines, ih]

/-- Rows are read off the pieces between line feeds as off the lines that these make. -/
theorem rowsOfLines_linesOfPieces (pieces : List (List Char)) (number : Nat) :
    rowsOfLines number (linesOfPieces pieces) = rowsOfLines number pieces := by
  induction pieces using linesOfPieces.induct generalizing number with
  | case1 => rfl
  | case2 last hempty =>
    obtain rfl := List.isEmpty_iff.mp hempty
    rfl
  | case3 last hfull => rw [linesOfPieces, if_neg hfull]
  | case4 piece rest hrest ih =>
    have halike := readAlike_dropReturn piece
    rw [linesOfPieces]
    · simp only [rowsOfLines, halike.trim_eq, halike.rowOfFields_eq, ih]
    · exact hrest

end Csv

/-! ### Texts -/

/-- The text with a carriage return before every line feed. -/
def withReturns (text : String) : String :=
  String.ofList (text.toList.flatMap fun c => if c = '\n' then ['\r', '\n'] else [c])

/-- Nothing is put into a line. -/
theorem flatMap_returns_of_not_mem {cs : List Char} (h : '\n' ∉ cs) :
    (cs.flatMap fun c => if c = '\n' then ['\r', '\n'] else [c]) = cs := by
  induction cs with
  | nil => rfl
  | cons c cs ih =>
    rw [List.mem_cons, not_or] at h
    rw [List.flatMap_cons, if_neg (Ne.symm h.1), ih h.2, List.singleton_append]

/-- Only the empty text stays empty. -/
theorem withReturns_eq_empty {text : String} : withReturns text = "" ↔ text = "" := by
  rw [← String.toList_eq_nil_iff, ← String.toList_eq_nil_iff, withReturns, String.toList_ofList]
  constructor
  · intro h
    rw [List.flatMap_eq_nil_iff] at h
    refine List.eq_nil_iff_forall_not_mem.mpr fun c hc => ?_
    have hnone := h c hc
    split at hnone <;> cases hnone
  · rintro h
    rw [h, List.flatMap_nil]

/-- The pieces of the text with carriage returns are read like those of the text. -/
theorem forall₂_withReturns (text : String) :
    List.Forall₂ Csv.ReadAlike ((withReturns text).toList.splitOn '\n')
      (text.toList.splitOn '\n') := by
  rw [withReturns, String.toList_ofList]
  -- The induction is on the lines of the text.
  induction text.toList using feedInduction with
  | last cs hcs =>
    rw [flatMap_returns_of_not_mem hcs]
    exact List.forall₂_same.mpr fun line _ => .refl line
  | line line rest hline ih =>
    have hreturn : '\n' ∉ line ++ ['\r'] := by simpa using hline
    rw [List.flatMap_append, flatMap_returns_of_not_mem hline, List.flatMap_cons, if_pos rfl,
      List.cons_append, List.singleton_append, List.append_cons, splitOn_append_feed hreturn,
      splitOn_append_feed hline]
    exact .cons (Csv.readAlike_return line) ih

/-- A line feed at the end makes an empty last piece. -/
theorem splitOn_concat_feed (cs : List Char) :
    (cs ++ ['\n']).splitOn '\n' = cs.splitOn '\n' ++ [[]] := by
  rw [List.splitOn_append_cons_self, List.splitOn_nil]

/-- Pieces of a text with blank ones put in between. -/
inductive Padded : List (List Char) → List (List Char) → Prop
  /-- Nothing is put into no pieces. -/
  | nil : Padded [] []
  /-- A piece is kept, -/
  | cons (piece) {pieces pieces'} :
    Padded pieces pieces' → Padded (piece :: pieces) (piece :: pieces')
  /-- and a blank one may be put before it. -/
  | blank {blank pieces pieces'} : Blank blank → Padded pieces pieces' →
      Padded pieces (blank :: pieces')

/-- Blank pieces that are put in are not among those that say something. -/
theorem Padded.inked_eq {pieces pieces' : List (List Char)} (h : Padded pieces pieces') :
    inked pieces = inked pieces' := by
  induction h with
  | nil => rfl
  | cons piece _ ih => simp only [inked, List.filter_cons] at ih ⊢; rw [ih]
  | blank hblank _ ih => rw [inked_cons_of_blank (trim_eq_nil_iff.mpr hblank), ih]

/-- **A text with blank lines put in** behind its first line. -/
def PaddedText (text text' : String) : Prop :=
  ∃ first pieces pieces', text.toList.splitOn '\n' = first :: pieces ∧
    text'.toList.splitOn '\n' = first :: pieces' ∧ Padded pieces pieces'

namespace Table

/-- **A table is read off** the pieces of its text between line feeds: the first is the header, and
the others are read line by line. -/
theorem ofCsv_eq {text : String} (hne : text ≠ "") {first : List Char} {pieces : List (List Char)}
    (h : text.toList.splitOn '\n' = first :: pieces) :
    ofCsv text = if trim first = tableHeader.toList then (Csv.rowsOfLines 2 pieces).map Table.mk
      else .error (.header (String.ofList (trim first))) := by
  cases pieces with
  | nil =>
    -- The text is its only piece, and there is something in it.
    have htext : text.toList = first := by
      rw [((splitOn_eq_iff (List.cons_ne_nil _ _)).mp h).1]
      simp [List.intercalate]
    have hfirst : first.isEmpty = false := by
      rw [List.isEmpty_eq_false_iff, ← htext]
      exact fun hempty => hne (String.toList_eq_nil_iff.mp hempty)
    rw [ofCsv, lines, h, linesOfPieces, hfirst, if_neg (by decide)]
  | cons piece pieces =>
    have hlines : lines text.toList = dropReturn first :: linesOfPieces (piece :: pieces) := by
      rw [lines, h, linesOfPieces]
      exact List.cons_ne_nil _ _
    rw [ofCsv, hlines]
    simp only [Csv.rowsOfLines_linesOfPieces, (Csv.readAlike_dropReturn first).trim_eq]

theorem ofCsv_empty : ofCsv "" = .error .empty := rfl

/-- What is read depends on the pieces that are not blank, the first one apart. -/
theorem ofCsv_eq_ok_iff {text : String} {first : List Char} {pieces : List (List Char)}
    (h : text.toList.splitOn '\n' = first :: pieces) {t : Table} :
    ofCsv text = .ok t ↔
      trim first = tableHeader.toList ∧ List.Forall₂ Csv.Records (inked pieces) t.rows := by
  by_cases hne : text = ""
  · -- The one piece of the empty text is no header.
    subst hne
    obtain ⟨rfl, rfl⟩ := List.cons.inj h
    rw [ofCsv_empty]
    have hheader : trim [] ≠ tableHeader.toList := by decide
    simp [hheader]
  · rw [ofCsv_eq hne h, ← @Csv.rowsOfLines_eq_ok pieces 2]
    split
    next hheader =>
      rw [map_eq_ok]
      constructor
      · rintro ⟨rows, hrows, rfl⟩
        exact ⟨hheader, hrows⟩
      · exact fun hrows => ⟨t.rows, hrows.2, rfl⟩
    next hother => simp [hother]

/-- Carriage returns before the line feeds change nothing. -/
theorem ofCsv_withReturns (text : String) : ofCsv (withReturns text) = ofCsv text := by
  by_cases hne : text = ""
  · rw [hne]
    rfl
  · have halike := forall₂_withReturns text
    obtain ⟨first, pieces, hpieces⟩ :=
      List.exists_cons_of_ne_nil (List.splitOn_ne_nil '\n' text.toList)
    rw [hpieces] at halike
    obtain ⟨first', pieces', hfirst, hrest, hpieces'⟩ := List.forall₂_cons_right_iff.mp halike
    have hne' : withReturns text ≠ "" := fun h => hne (withReturns_eq_empty.mp h)
    rw [ofCsv_eq hne hpieces, ofCsv_eq hne' hpieces', hfirst.trim_eq, Csv.rowsOfLines_congr hrest]

/-- A line feed at the end changes nothing, unless it is all there is. -/
theorem ofCsv_concat_feed {text : String} (hne : text ≠ "") :
    ofCsv (text ++ "\n") = ofCsv text := by
  obtain ⟨first, pieces, hpieces⟩ :=
    List.exists_cons_of_ne_nil (List.splitOn_ne_nil '\n' text.toList)
  have hpieces' : (text ++ "\n").toList.splitOn '\n' = first :: (pieces ++ [[]]) := by
    have hconcat := splitOn_concat_feed text.toList
    rw [hpieces] at hconcat
    rwa [String.toList_append]
  -- The piece that has come is empty, and so it is passed over.
  rw [ofCsv_eq hne hpieces, ofCsv_eq (by simp) hpieces', Csv.rowsOfLines_concat rfl]

/-- **Ends of lines and blank lines are not noticed.** A carriage return before every line feed
changes nothing about what is read, faults included. A line feed at the end of a text changes
nothing either, unless there is nothing before it; and the text is refused then as well as without
it. Blank lines that are put in behind the first line change neither whether the text is read nor
the table that is read. -/
theorem ofCsv_ignores_endings :
    (∀ text, ofCsv (withReturns text) = ofCsv text) ∧
      (∀ text, text ≠ "" → ofCsv (text ++ "\n") = ofCsv text) ∧
      (∀ text t, ofCsv (text ++ "\n") = .ok t ↔ ofCsv text = .ok t) ∧
      ∀ text text', PaddedText text text' → ∀ t, ofCsv text' = .ok t ↔ ofCsv text = .ok t := by
  refine ⟨ofCsv_withReturns, fun _ => ofCsv_concat_feed, fun text t => ?_, ?_⟩
  · by_cases hne : text = ""
    · have hfeed : ofCsv ("" ++ "\n") = .error (.header "") := rfl
      rw [hne, hfeed, ofCsv_empty]
      simp
    · rw [ofCsv_concat_feed hne]
  · rintro text text' ⟨first, pieces, pieces', hpieces, hpieces', hpadded⟩ t
    rw [ofCsv_eq_ok_iff hpieces, ofCsv_eq_ok_iff hpieces', hpadded.inked_eq]

/-- A text that ends within the quotes of a field. -/
def openText : String := "impl,variant,run,duration_ms\na,b,0,\"1.5"

/-- The text with blank lines before and behind its row. -/
def paddedOpenText : String := "impl,variant,run,duration_ms\n \t\r\n\na,b,0,\"1.5\n "

/-- Quotes that are open at the end of a line are closed there, whatever the line ends with. -/
theorem open_quotes_are_read : ∃ t, ofCsv openText = .ok t ∧
    ofCsv (withReturns openText) = .ok t ∧ ofCsv (openText ++ "\n") = .ok t ∧
    PaddedText openText paddedOpenText ∧ ofCsv paddedOpenText = .ok t := by
  obtain ⟨hreturns, hfeed, -, hblanks⟩ := ofCsv_ignores_endings
  have hread : ofCsv openText = .ok ⟨[⟨"a", "b", 0, ⟨0x3ff8000000000000⟩⟩]⟩ := by decide +kernel
  have hpadded : PaddedText openText paddedOpenText := by
    refine ⟨tableHeader.toList, ["a,b,0,\"1.5".toList],
      [" \t\r".toList, [], "a,b,0,\"1.5".toList, " ".toList], by decide, by decide, ?_⟩
    refine .blank (trim_eq_nil_iff.mp (by decide)) (.blank (trim_eq_nil_iff.mp (by decide)) ?_)
    exact .cons _ (.blank (trim_eq_nil_iff.mp (by decide)) .nil)
  refine ⟨_, hread, (hreturns openText).trans hread, (hfeed openText ?_).trans hread, hpadded,
    (hblanks _ _ hpadded _).mpr hread⟩
  decide

end Table

end PinnedBench
