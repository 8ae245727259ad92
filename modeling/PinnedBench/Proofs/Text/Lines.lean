import Mathlib.Data.List.Basic
import PinnedBench.Proofs.Text.Pieces
import PinnedBench.Text.Lines

/-!
# Lines of texts

A text is taken apart at its line feeds, from the first one on (`feedInduction`): it begins with the
line before that line feed (`lines_append`). So a line that reading finds stands in the text behind
as many line feeds as there are lines before it (`lineAt_of_getElem?`), and has none itself.
-/

namespace PinnedBench

/-! ### Ends of lines -/

/-- Nothing is dropped from a line that does not end with a carriage return. -/
theorem dropReturn_of_getLast? {line : List Char} (h : line.getLast? ≠ some '\r') :
    dropReturn line = line := by
  rw [dropReturn, if_neg h]

/-- A line is what is left of it, or that with one carriage return more. -/
theorem dropReturn_cases (line : List Char) :
    line = dropReturn line ∨ line = dropReturn line ++ ['\r'] := by
  unfold dropReturn
  split
  next h => exact .inr (List.dropLast_append_getLast? '\r' h).symm
  next => exact .inl rfl

/-- What is left of a line has no new characters. -/
theorem dropReturn_subset (line : List Char) : dropReturn line ⊆ line := by
  unfold dropReturn
  split
  · exact List.dropLast_subset line
  · exact List.Subset.refl line

/-! ### Texts from line feed to line feed -/

/-- Texts are taken apart at their line feeds. -/
@[elab_as_elim]
theorem feedInduction {motive : List Char → Prop}
    (last : ∀ cs, '\n' ∉ cs → motive cs)
    (line : ∀ line rest, '\n' ∉ line → motive rest → motive (line ++ '\n' :: rest))
    (cs : List Char) : motive cs := by
  -- The rest behind the first line feed is shorter, though not a tail by one character.
  induction hlength : cs.length using Nat.strongRecOn generalizing cs with
  | ind length ih =>
    by_cases hfeed : '\n' ∈ cs
    · obtain ⟨before, behind, rfl, hbefore⟩ := List.eq_append_cons_of_mem hfeed
      refine line before behind hbefore (ih behind.length ?_ behind rfl)
      rw [← hlength, List.length_append, List.length_cons]
      omega
    · exact last cs hfeed

/-- The line before the first line feed is the first piece. -/
theorem splitOn_append_feed {line : List Char} (h : '\n' ∉ line) (rest : List Char) :
    (line ++ '\n' :: rest).splitOn '\n' = line :: rest.splitOn '\n' := by
  rw [List.splitOn_append_cons_self, List.splitOn_eq_singleton h, List.singleton_append]

/-- A text without line feeds is one line, unless there is nothing in it. -/
theorem lines_of_not_mem {cs : List Char} (h : '\n' ∉ cs) :
    lines cs = if cs.isEmpty then [] else [cs] := by
  rw [lines, List.splitOn_eq_singleton h, linesOfPieces]

/-- A text begins with the line before its first line feed. -/
theorem lines_append {line : List Char} (h : '\n' ∉ line) (rest : List Char) :
    lines (line ++ '\n' :: rest) = dropReturn line :: lines rest := by
  rw [lines, lines, splitOn_append_feed h]
  -- A split is never empty, so there is a piece behind the line feed and the line is not the last
  -- one.
  obtain ⟨piece, pieces, hpieces⟩ :=
    List.exists_cons_of_ne_nil (List.splitOn_ne_nil '\n' rest)
  rw [hpieces, linesOfPieces]
  exact List.cons_ne_nil _ _

/-- Lines that are each ended by a line feed are read back before more text. -/
theorem lines_flatMap_append {α : Type} {f : α → List Char} {as : List α}
    (h : ∀ a ∈ as, '\n' ∉ f a ∧ dropReturn (f a) = f a) (rest : List Char) :
    lines ((as.flatMap fun a => f a ++ ['\n']) ++ rest) = as.map f ++ lines rest := by
  induction as with
  | nil => rfl
  | cons a as ih =>
    -- The first line ends at its own line feed, as there is none in it.
    obtain ⟨hfeed, hreturn⟩ := h a List.mem_cons_self
    rw [List.flatMap_cons, List.append_assoc, List.append_assoc, List.singleton_append,
      lines_append hfeed, hreturn, ih fun a' ha' => h a' (List.mem_cons_of_mem _ ha'),
      List.map_cons, List.cons_append]

/-- Lines that are each ended by a line feed are read back. -/
theorem lines_flatMap {α : Type} {f : α → List Char} {as : List α}
    (h : ∀ a ∈ as, '\n' ∉ f a ∧ dropReturn (f a) = f a) :
    lines (as.flatMap fun a => f a ++ ['\n']) = as.map f := by
  simpa using lines_flatMap_append h []

/-! ### Numbers of lines -/

/-- **A line of a text under its number**: before it stand the line feeds of the lines before, the
last of them right before it, and it goes on to the next line feed or to the end of the text. A
carriage return before that line feed does not belong to it. -/
def LineAt (cs line : List Char) (number : Nat) : Prop :=
  ∃ front written behind, cs = front ++ written ++ behind ∧ number = front.count '\n' + 1 ∧
    (front = [] ∨ front.getLast? = some '\n') ∧ '\n' ∉ written ∧
    (behind = [] ∧ line = written ∨ behind.head? = some '\n' ∧ line = dropReturn written)

/-- A line stays under its number, counted from a line that is put before the text. -/
theorem LineAt.append {cs line : List Char} {number : Nat} (h : LineAt cs line number)
    {first : List Char} (hfirst : '\n' ∉ first) :
    LineAt (first ++ '\n' :: cs) line (number + 1) := by
  obtain ⟨front, written, behind, rfl, rfl, hfront, hwritten, hline⟩ := h
  refine ⟨first ++ '\n' :: front, written, behind, by simp, ?_, .inr ?_, hwritten, hline⟩
  · -- The line before has one line feed, the one that ends it.
    rw [List.count_append, List.count_eq_zero.mpr hfirst, List.count_cons_self, Nat.zero_add]
  · rcases hfront with rfl | hlast
    · exact List.getLast?_concat
    · rw [List.getLast?_append_cons, List.getLast?_cons, hlast]
      rfl

/-- **The lines of a text** stand in it under their numbers. -/
theorem lineAt_of_getElem? {cs line : List Char} {i : Nat} (h : (lines cs)[i]? = some line) :
    LineAt cs line (i + 1) := by
  induction cs using feedInduction generalizing i with
  | last cs hcs =>
    rw [lines_of_not_mem hcs] at h
    split at h
    next => simp at h
    next =>
      -- Without a line feed there is one line, and it goes to the end of the text.
      obtain ⟨rfl, rfl⟩ : i = 0 ∧ cs = line := by simpa [List.getElem?_singleton] using h
      exact ⟨[], cs, [], by simp, rfl, .inl rfl, hcs, .inl ⟨rfl, rfl⟩⟩
  | line first rest hfirst ih =>
    rw [lines_append hfirst] at h
    cases i with
    | zero =>
      -- The first line goes to its line feed and loses its carriage return.
      obtain rfl := Option.some.inj h
      exact ⟨[], first, '\n' :: rest, rfl, rfl, .inl rfl, hfirst, .inr ⟨rfl, rfl⟩⟩
    | succ i =>
      rw [List.getElem?_cons_succ] at h
      exact (ih h).append hfirst

theorem feed_not_mem_of_mem_lines {cs line : List Char} (h : line ∈ lines cs) : '\n' ∉ line := by
  obtain ⟨i, hi⟩ := List.getElem?_of_mem h
  obtain ⟨-, written, -, -, -, -, hwritten, ⟨-, rfl⟩ | ⟨-, rfl⟩⟩ := lineAt_of_getElem? hi
  · exact hwritten
  · exact fun hfeed => hwritten (dropReturn_subset written hfeed)

end PinnedBench
