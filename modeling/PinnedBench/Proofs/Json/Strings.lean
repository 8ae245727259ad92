import PinnedBench.Json.Printer
import PinnedBench.Json.Tree

/-!
# Strings of JSON documents

A text that is written as a string is read back whole (`readString_quoted`). The reader takes a
string apart into code units and joins them to characters afterwards, so there are two steps:

* `readUnits_escapeChar` — a character, escaped where that is needed, is read as one unit;
* `joinUnits_toNat` — units that are characters are joined to these characters, because no character
  is half of a surrogate pair.
-/

namespace PinnedBench.Json

/-! ### Characters -/

theorem hexUnit?_hexDigitOf : ∀ n < 0x20,
    hexUnit? '0' '0' (hexDigitOf (n / 16)) (hexDigitOf (n % 16)) = some n := by
  decide

/-- **An escaped character** is read as one unit. -/
theorem readUnits_escapeChar (c : Char) (taken : List Nat) (rest : List Char) :
    readUnits taken (escapeChar c ++ rest) = readUnits (c.toNat :: taken) rest := by
  -- The seven characters with escapes of their own come first.
  rw [escapeChar]
  split
  next h => subst h; rfl
  split
  next h => subst h; rfl
  split
  next h => subst h; rfl
  split
  next h => subst h; rfl
  split
  next h => subst h; rfl
  split
  next h => subst h; rfl
  split
  next h => subst h; rfl
  next hquote hslash _ _ _ _ _ =>
    split
    next hcontrol =>
      -- The character is named by its number.
      simp only [List.cons_append, List.nil_append]
      rw [readUnits, hexUnit?_hexDigitOf c.toNat hcontrol]
    next hcontrol =>
      -- The character stands for itself.
      rw [List.singleton_append, readUnits.eq_def]
      split
      next heq => simp at heq
      next heq => exact absurd (List.cons.inj heq).1 hquote
      next heq => exact absurd (List.cons.inj heq).1 hslash
      next heq => exact absurd (List.cons.inj heq).1 hslash
      next heq =>
        obtain ⟨rfl, rfl⟩ := List.cons.inj heq
        rw [if_neg hslash, if_neg hcontrol]

/-- The characters of a text are read one by one, up to the closing quote. -/
theorem readUnits_quoted (cs : List Char) (taken : List Nat) (rest : List Char) :
    readUnits taken (cs.flatMap escapeChar ++ '"' :: rest) =
      .ok (taken.reverse ++ cs.map Char.toNat, rest) := by
  induction cs generalizing taken with
  | nil =>
    rw [List.flatMap_nil, List.nil_append, readUnits, List.map_nil, List.append_nil]
  | cons c cs ih =>
    rw [List.flatMap_cons, List.append_assoc, readUnits_escapeChar, ih, List.reverse_cons,
      List.append_assoc, List.singleton_append, List.map_cons]

/-! ### Units -/

/-- No character is half of a surrogate pair. -/
theorem not_isLeading_or_isTrailing (c : Char) :
    isLeading c.toNat = false ∧ isTrailing c.toNat = false := by
  have hvalid : c.toNat < 0xd800 ∨ 0xdfff < c.toNat ∧ c.toNat < 0x110000 := c.valid
  rw [isLeading, isTrailing]
  simp only [Bool.and_eq_false_iff, decide_eq_false_iff_not]
  omega

/-- **Units that are characters** are joined to these characters. -/
theorem joinUnits_toNat (cs taken : List Char) :
    joinUnits taken (cs.map Char.toNat) = some (taken.reverse ++ cs) := by
  induction cs generalizing taken with
  | nil => rw [List.map_nil, joinUnits, List.append_nil]
  | cons c cs ih =>
    -- The first unit is a character by itself, whatever follows.
    obtain ⟨hleading, htrailing⟩ := not_isLeading_or_isTrailing c
    cases cs with
    | nil => simp [joinUnits, hleading, htrailing]
    | cons c' cs =>
      rw [List.map_cons, List.map_cons, joinUnits, hleading, htrailing]
      simp only [Bool.false_eq_true, if_false]
      rw [← List.map_cons, ih, Char.ofNat_toNat, List.reverse_cons, List.append_assoc,
        List.singleton_append]

/-! ### Strings -/

/-- **A text** is read back from the string that it is written as. -/
theorem readString_quoted (s : String) (rest : List Char) :
    readString (s.toList.flatMap escapeChar ++ '"' :: rest) = .ok (some s, rest) := by
  rw [readString, readUnits_quoted]
  simp only [bind, Except.bind, List.reverse_nil, List.nil_append, joinUnits_toNat, Option.map_some,
    String.ofList_toList]

end PinnedBench.Json
