import Mathlib.Data.List.Basic
import PinnedBench.Proofs.Results.Tables

/-!
# Fields of a line

Fields that are written as `Csv.escapeField` does and joined by commas are read back as they are,
whatever characters they are made of (`Csv.splitRecord_intercalate`). A line feed is no exception
here: it does harm only where a text is split into lines before.

In any other line, quotes may stand anywhere and may be left open. Every quote turns the reader from
outside of quotes to inside or back, since a pair of quotes turns it twice, so that it is inside
behind an odd number of quotes (`Csv.quotedBehind`). The commas that it meets outside are those that
separate fields (`Csv.length_splitOnto`).
-/

namespace PinnedBench

namespace Csv

/-! ### Fields joined by commas -/

/-- The last field is read back at the end of the line. -/
theorem splitRecord_escapeField (field : List Char) :
    splitRecord (escapeField field) = [field] := by
  have hread := splitOnto_escapeField_append field [] (by simp)
  rwa [List.append_nil, splitOnto, List.reverse_reverse] at hread

/-- A field that is not the last one ends at its comma, and the others are read from there on. -/
theorem splitRecord_escapeField_append (field rest : List Char) :
    splitRecord (escapeField field ++ ',' :: rest) = field :: splitRecord rest :=
  splitOnto_escapeField field rest

/-- **Fields joined by commas** are read back. -/
theorem splitRecord_intercalate {fields : List (List Char)} (h : fields ≠ []) :
    splitRecord ([','].intercalate (fields.map escapeField)) = fields := by
  -- The induction is on the fields; the last one has no comma behind it.
  induction fields with
  | nil => exact absurd rfl h
  | cons field rest ih =>
    cases rest with
    | nil => rw [List.map_singleton, List.intercalate_singleton, splitRecord_escapeField]
    | cons next rest =>
      have hrest := ih (List.cons_ne_nil next rest)
      rw [List.map_cons] at hrest
      rw [List.map_cons, List.map_cons, List.intercalate_cons_cons, List.append_assoc,
        List.singleton_append, splitRecord_escapeField_append, hrest]

/-! ### Commas outside of quotes -/

/-- Whether the reader of a line is inside of quotes behind some part of it, if it was inside before
that part or was not: every quote turns it round. -/
def quotedBehind (quoted : Bool) (before : List Char) : Bool :=
  quoted ^^ decide (before.count '"' % 2 = 1)

theorem quotedBehind_nil (quoted : Bool) : quotedBehind quoted [] = quoted := by
  simp [quotedBehind]

/-- The first character turns the reader if it is a quote. -/
theorem quotedBehind_cons (quoted : Bool) (c : Char) (before : List Char) :
    quotedBehind quoted (c :: before) =
      quotedBehind (if c = '"' then !quoted else quoted) before := by
  unfold quotedBehind
  by_cases hquote : c = '"'
  · -- One quote more makes the number odd if it was even.
    rw [if_pos hquote, hquote, List.count_cons_self]
    rcases Nat.mod_two_eq_zero_or_one (before.count '"') with heven | hodd
    · have hturned : (before.count '"' + 1) % 2 = 1 := by omega
      simp [heven, hturned]
    · have hturned : (before.count '"' + 1) % 2 = 0 := by omega
      simp [hodd, hturned]
  · rw [if_neg hquote, List.count_cons_of_ne hquote]

/-- The positions of the commas in a line that stand outside of quotes, if the line is read from
inside of quotes or from outside. -/
def openCommas (quoted : Bool) (chars : List Char) : List Nat :=
  (List.range chars.length).filter fun i =>
    chars[i]? == some ',' && !quotedBehind quoted (chars.take i)

/-- A comma that is met outside of quotes is one more, and a quote turns the reader round. -/
theorem length_openCommas_cons (quoted : Bool) (c : Char) (chars : List Char) :
    (openCommas quoted (c :: chars)).length =
      (if c = ',' ∧ quoted = false then 1 else 0) +
        (openCommas (if c = '"' then !quoted else quoted) chars).length := by
  -- All positions but the first are those of the rest, moved by one.
  have hrest : ((List.range chars.length).map Nat.succ).filter (fun i =>
        (c :: chars)[i]? == some ',' && !quotedBehind quoted ((c :: chars).take i)) =
      (openCommas (if c = '"' then !quoted else quoted) chars).map Nat.succ := by
    rw [openCommas, List.filter_map]
    congr 1
    apply List.filter_congr
    intro i _
    simp only [Function.comp_apply, Nat.succ_eq_add_one, List.getElem?_cons_succ,
      List.take_succ_cons, quotedBehind_cons]
  rw [openCommas, List.length_cons, List.range_succ_eq_map, List.filter_cons, hrest]
  by_cases hcomma : c = ',' ∧ quoted = false
  · rw [if_pos hcomma, hcomma.1, hcomma.2]
    simp [quotedBehind_nil, Nat.add_comm]
  · rw [if_neg hcomma, if_neg, List.length_map, Nat.zero_add]
    simpa [quotedBehind_nil] using hcomma

/-- **The number of fields** is one more than that of the commas outside of quotes. -/
theorem length_splitOnto (current : List Char) (quoted : Bool) (line : List Char) :
    (splitOnto current quoted line).length = 1 + (openCommas quoted line).length := by
  -- The cases are those of the reader: a pair of quotes, a quote, a comma outside of quotes, and
  -- any other character.
  induction current, quoted, line using splitOnto.induct with
  | case1 current quoted =>
    rw [splitOnto]
    rfl
  | case2 current rest ih =>
    -- A pair of quotes turns the reader twice.
    rw [splitOnto, ih, length_openCommas_cons, length_openCommas_cons]
    simp
  | case3 current quoted rest h ih =>
    rw [splitOnto, if_pos rfl, ih, length_openCommas_cons]
    · simp
    · exact h
  | case4 current quoted first rest h hquote hends ih =>
    rw [splitOnto, if_neg hquote, if_pos hends, List.length_cons, ih, length_openCommas_cons,
      if_pos hends, if_neg hquote, hends.2]
    · omega
    · exact h
  | case5 current quoted first rest h hquote hends ih =>
    rw [splitOnto, if_neg hquote, if_neg hends, ih, length_openCommas_cons, if_neg hends,
      if_neg hquote, Nat.zero_add]
    exact h

/-- **Reading the fields of a line** inverts quoting and joining them, for any fields, as long as
there is one. In any line at all, there is one field more than there are commas outside of quotes.
-/
theorem splitRecord_inverts_quoting :
    (∀ fields : List (List Char), fields ≠ [] →
      splitRecord ([','].intercalate (fields.map escapeField)) = fields) ∧
    ∀ line, (splitRecord line).length = 1 + (openCommas false line).length :=
  ⟨fun _ => splitRecord_intercalate, length_splitOnto [] false⟩

/-- Fields with quotes at their ends, alone, in pairs and next to commas, and empty fields around.
-/
def trickyFields : List (List Char) :=
  [[], "\"".toList, "\"\"a,\"".toList, ",".toList, "b\n\"\"".toList, []]

/-- Quotes where they are hardest to read, and a line in which they are left open. -/
theorem tricky_fields_are_read_back :
    [','].intercalate (trickyFields.map escapeField) =
        ",\"\"\"\",\"\"\"\"\"a,\"\"\",\",\",\"b\n\"\"\"\"\",".toList ∧
      splitRecord (",\"\"\"\",\"\"\"\"\"a,\"\"\",\",\",\"b\n\"\"\"\"\",".toList) = trickyFields ∧
      (splitRecord "a\"b,c\"d,\"e,f".toList).length = 2 := by
  obtain ⟨hfields, hcommas⟩ := splitRecord_inverts_quoting
  have htext : [','].intercalate (trickyFields.map escapeField) =
      ",\"\"\"\",\"\"\"\"\"a,\"\"\",\",\",\"b\n\"\"\"\"\",".toList := by decide
  have hopen : openCommas false "a\"b,c\"d,\"e,f".toList = [7] := by decide
  refine ⟨htext, ?_, ?_⟩
  · rw [← htext]
    exact hfields trickyFields (by decide)
  · rw [hcommas, hopen]
    rfl

end Csv

end PinnedBench
