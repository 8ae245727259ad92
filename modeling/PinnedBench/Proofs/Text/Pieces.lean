import Mathlib.Data.List.DropRight
import PinnedBench.Text.Blank

/-!
# Pieces of texts

A text is split at a separator in exactly one way: the pieces hold no separator, and joined by it
they are the text (`splitOn_eq_iff`).

A text is trimmed if it neither begins nor ends with a blank. Trimming gives the only trimmed text
that is the text but for blanks before and behind it (`trim_eq_iff`). The pieces that do not vanish
when they are trimmed are the `inked` ones.
-/

namespace PinnedBench

/-! ### Pieces between separators -/

section Split

variable {α : Type} [BEq α] [LawfulBEq α] {a : α}

/-- No piece of a split holds what it was split at. -/
theorem not_mem_of_mem_splitOn {xs piece : List α}
    (h : piece ∈ xs.splitOn a) : a ∉ piece := by
  induction xs generalizing piece with
  | nil =>
    rw [List.splitOn_nil, List.mem_singleton] at h
    simp [h]
  | cons x xs ih =>
    rw [List.splitOn_cons_eq_if_modifyHead] at h
    split at h
    next =>
      rcases List.mem_cons.mp h with rfl | h
      · exact List.not_mem_nil
      · exact ih h
    next hx =>
      -- The character joins the first piece, which it leaves without the separator.
      obtain ⟨first, pieces, hpieces⟩ := List.exists_cons_of_ne_nil (List.splitOn_ne_nil a xs)
      rw [hpieces, List.modifyHead_cons, List.mem_cons] at h
      rcases h with rfl | h
      · have hne : a ≠ x := fun heq => hx (by simp [heq])
        have hfirst : a ∉ first := ih (by simp [hpieces])
        simp [hne, hfirst]
      · exact ih (by simp [hpieces, h])

/-- **A text is split** in exactly one way. -/
theorem splitOn_eq_iff {xs : List α} {pieces : List (List α)} (h : pieces ≠ []) :
    xs.splitOn a = pieces ↔ xs = [a].intercalate pieces ∧ ∀ piece ∈ pieces, a ∉ piece := by
  constructor
  · rintro rfl
    exact ⟨(List.intercalate_splitOn a).symm, fun _ hpiece => not_mem_of_mem_splitOn hpiece⟩
  · rintro ⟨rfl, hpieces⟩
    exact List.splitOn_intercalate a hpieces h

/-- A text has two pieces exactly when the separator stands in it once. -/
theorem splitOn_eq_pair_iff {xs before behind : List α} :
    xs.splitOn a = [before, behind] ↔ xs = before ++ a :: behind ∧ a ∉ before ∧ a ∉ behind := by
  rw [splitOn_eq_iff (List.cons_ne_nil _ _)]
  simp [List.intercalate]

end Split

/-! ### Trimmed texts -/

/-- A text that is made of blanks. -/
def Blank (cs : List Char) : Prop := ∀ c ∈ cs, isBlank c = true

/-- A text without blanks at its ends. -/
structure Trimmed (cs : List Char) : Prop where
  /-- It does not begin with a blank, -/
  head : ∀ c, cs.head? = some c → isBlank c = false
  /-- and it does not end with one. -/
  last : ∀ c, cs.getLast? = some c → isBlank c = false

/-- A text without blanks is trimmed. -/
theorem trimmed_of_forall {cs : List Char} (h : ∀ c ∈ cs, isBlank c = false) : Trimmed cs where
  head c hc := h c (List.mem_of_head? hc)
  last c hc := h c (List.mem_of_getLast? hc)

/-- Blanks before a text are dropped with those of the text. -/
theorem dropWhile_blank_append {blanks : List Char} (h : Blank blanks) (cs : List Char) :
    (blanks ++ cs).dropWhile isBlank = cs.dropWhile isBlank :=
  List.dropWhile_append_of_pos h

/-- Nothing is dropped from a text that does not begin with a blank. -/
theorem dropWhile_of_head {cs : List Char} (h : ∀ c, cs.head? = some c → isBlank c = false) :
    cs.dropWhile isBlank = cs := by
  cases cs with
  | nil => rfl
  | cons c cs => exact List.dropWhile_cons_of_neg (by simp [h c rfl])

/-- What is taken from the front of a text is blank. -/
theorem blank_takeWhile (cs : List Char) : Blank (cs.takeWhile isBlank) :=
  fun _ hc => List.mem_takeWhile_imp hc

/-- What is left behind the blanks does not begin with one. -/
theorem head_dropWhile {cs : List Char} {c : Char} (h : (cs.dropWhile isBlank).head? = some c) :
    isBlank c = false := by
  have hnot := List.head?_dropWhile_not isBlank cs
  rw [h] at hnot
  simpa using hnot

/-- A text is its trimmed text between blanks. -/
theorem exists_trim (cs : List Char) :
    ∃ before behind, Blank before ∧ Blank behind ∧ cs = before ++ trim cs ++ behind := by
  refine ⟨cs.takeWhile isBlank, ((cs.dropWhile isBlank).reverse.takeWhile isBlank).reverse,
    blank_takeWhile cs, ?_, ?_⟩
  · intro c hc
    exact blank_takeWhile _ c (List.mem_reverse.mp hc)
  · -- From the front the blanks are taken first, and from the end as those in front of the reversed
    -- text.
    unfold trim
    rw [List.append_assoc, ← List.reverse_append, List.takeWhile_append_dropWhile,
      List.reverse_reverse, List.takeWhile_append_dropWhile]

/-- Trimming leaves no blanks at the ends. -/
theorem trimmed_trim (cs : List Char) : Trimmed (trim cs) := by
  constructor
  · intro c hc
    -- What is left at the front is what was left before the blanks behind were taken off.
    have hprefix : trim cs <+: cs.dropWhile isBlank := List.rdropWhile_prefix isBlank _
    obtain ⟨behind, hbehind⟩ := hprefix
    have hhead : (cs.dropWhile isBlank).head? = some c := by
      rw [← hbehind, List.head?_append, hc]
      rfl
    exact head_dropWhile hhead
  · -- The end of the text is the front of the reversed one, from which the blanks were dropped
    -- last.
    intro c hc
    unfold trim at hc
    rw [List.getLast?_reverse] at hc
    exact head_dropWhile hc

/-- Trimming takes away exactly the blanks around a trimmed text. -/
theorem trim_append {before cs behind : List Char} (hbefore : Blank before) (hbehind : Blank behind)
    (h : Trimmed cs) : trim (before ++ cs ++ behind) = cs := by
  unfold trim
  rw [List.append_assoc, dropWhile_blank_append hbefore]
  have hbehind' : Blank behind.reverse := fun c hc => hbehind c (List.mem_reverse.mp hc)
  -- With nothing between them the two runs of blanks are one, and the first drop takes all of it.
  by_cases hcs : cs = []
  · subst hcs
    rw [List.nil_append, List.dropWhile_eq_nil_iff.mpr hbehind]
    rfl
  · -- Otherwise each drop stops at the text, which has a character that is no blank at either end.
    have hfront : (cs ++ behind).dropWhile isBlank = cs ++ behind := by
      apply dropWhile_of_head
      intro c hc
      rw [List.head?_append_of_ne_nil _ hcs] at hc
      exact h.head c hc
    have hback : cs.reverse.dropWhile isBlank = cs.reverse := by
      apply dropWhile_of_head
      intro c hc
      rw [List.head?_reverse] at hc
      exact h.last c hc
    rw [hfront, List.reverse_append, dropWhile_blank_append hbehind', hback, List.reverse_reverse]

/-- **Trimming** gives the only trimmed text between blanks. -/
theorem trim_eq_iff {cs t : List Char} :
    trim cs = t ↔
      Trimmed t ∧ ∃ before behind, Blank before ∧ Blank behind ∧ cs = before ++ t ++ behind := by
  constructor
  · rintro rfl
    exact ⟨trimmed_trim cs, exists_trim cs⟩
  · rintro ⟨ht, before, behind, hbefore, hbehind, rfl⟩
    exact trim_append hbefore hbehind ht

/-- Blanks behind a text make no difference to its trimmed text. -/
theorem trim_append_blank {behind : List Char} (h : Blank behind) (cs : List Char) :
    trim (cs ++ behind) = trim cs := by
  obtain ⟨before, after, hbefore, hafter, hcs⟩ := exists_trim cs
  -- The blanks join those that are behind the trimmed text already.
  refine trim_eq_iff.mpr ⟨trimmed_trim cs, before, after ++ behind, hbefore, ?_, ?_⟩
  · intro c hc
    exact (List.mem_append.mp hc).elim (hafter c) (h c)
  · rw [← List.append_assoc, ← hcs]

/-- A trimmed text is left alone. -/
theorem Trimmed.trim_eq {cs : List Char} (h : Trimmed cs) : trim cs = cs :=
  trim_eq_iff.mpr ⟨h, [], [], by simp [Blank], by simp [Blank], by simp⟩

/-- So is a text without any blank. -/
theorem trim_eq_self {cs : List Char} (h : ∀ c ∈ cs, isBlank c = false) : trim cs = cs :=
  (trimmed_of_forall h).trim_eq

/-- Nothing is left exactly of what is blank. -/
theorem trim_eq_nil_iff {cs : List Char} : trim cs = [] ↔ Blank cs := by
  constructor
  · intro h
    obtain ⟨before, behind, hbefore, hbehind, hcs⟩ := exists_trim cs
    rw [hcs, h, List.append_nil]
    intro c hc
    exact (List.mem_append.mp hc).elim (hbefore c) (hbehind c)
  · intro h
    exact trim_eq_iff.mpr ⟨trimmed_of_forall (by simp), cs, [], h, by simp [Blank], by simp⟩

/-- A text with a character that is no blank does not vanish when it is trimmed. -/
theorem trim_ne_nil {cs : List Char} {c : Char} (hc : c ∈ cs) (hblank : isBlank c = false) :
    trim cs ≠ [] := by
  intro h
  have htrue := trim_eq_nil_iff.mp h c hc
  rw [hblank] at htrue
  exact Bool.false_ne_true htrue

/-! ### Blank pieces -/

/-- The pieces that are not blank. -/
def inked (pieces : List (List Char)) : List (List Char) :=
  pieces.filter fun piece => !(trim piece).isEmpty

/-- A piece is inked if something is left of it. -/
theorem mem_inked {pieces : List (List Char)} {piece : List Char} :
    piece ∈ inked pieces ↔ piece ∈ pieces ∧ trim piece ≠ [] := by
  simp [inked]

/-- A blank piece does not count. -/
theorem inked_cons_of_blank {piece : List Char} (h : trim piece = []) (pieces : List (List Char)) :
    inked (piece :: pieces) = inked pieces :=
  List.filter_cons_of_neg (by simp [h])

/-- A piece that is not blank counts. -/
theorem inked_cons_of_ne {piece : List Char} (h : trim piece ≠ []) (pieces : List (List Char)) :
    inked (piece :: pieces) = piece :: inked pieces :=
  List.filter_cons_of_pos (by simpa using h)

end PinnedBench
