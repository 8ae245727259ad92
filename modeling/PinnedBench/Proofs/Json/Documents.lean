import Mathlib.Data.List.DropRight
import PinnedBench.Json.Decoder
import PinnedBench.Proofs.Json.Numbers
import PinnedBench.Proofs.Json.Strings

/-!
# Documents

`Json.tree` is the text of a value as a tree: what a reader of the document should find. Reading
the document of a value gives exactly that tree (`Tree.ofText_pretty`), for every value.

The reader is bounded by fuel, and the fuel is measured against the characters that are still to be
read. A value needs no more than its length (`readValue_prettyChars`), because every level of
nesting writes at least two brackets while the reader makes two calls.
-/

namespace PinnedBench.Json

/-! ### The tree of a value -/

mutual

/-- The tree of a value: numbers as they are written, and nothing for numbers that are not finite.
-/
def tree : Json → Tree
  | .null => .null
  | .boolean b => .boolean b
  | .integer n => .number (integerNumeral n)
  | .real x => if x.isFinite then .number x.numeral else .null
  | .string s => .string (some s)
  | .array items => .array (itemTrees items)
  | .object members => .object (memberTrees members)

/-- The trees of items. -/
def itemTrees : List Json → List Tree
  | [] => []
  | item :: items => item.tree :: itemTrees items

/-- The trees of members, under their keys. -/
def memberTrees : List (String × Json) → List (Option String × Tree)
  | [] => []
  | (key, value) :: members => (some key, value.tree) :: memberTrees members

end

/-! ### Blanks -/

theorem skipSpace_of_head {c : Char} (hc : isSpace c = false) (rest : List Char) :
    skipSpace (c :: rest) = c :: rest :=
  List.dropWhile_cons_of_neg (by simp [hc])

/-- A new line and its indent are blanks. -/
theorem skipSpace_newLine (level : Nat) (cs : List Char) :
    skipSpace (newLine level ++ cs) = skipSpace cs := by
  rw [skipSpace, skipSpace]
  refine List.dropWhile_append_of_pos fun c hc => ?_
  rcases List.mem_cons.mp hc with rfl | hc
  · decide
  · rw [List.eq_of_mem_replicate hc]
    decide

theorem skipSpace_skipSpace (cs : List Char) : skipSpace (skipSpace cs) = skipSpace cs :=
  List.dropWhile_idempotent isSpace cs

/-- A value is read from the next token on. -/
theorem readValue_skipSpace (fuel : Nat) (cs : List Char) :
    readValue fuel (skipSpace cs) = readValue fuel cs := by
  cases fuel with
  | zero => simp only [readValue]
  | succ fuel => rw [readValue, readValue, skipSpace_skipSpace]

theorem readItems_skipSpace (fuel : Nat) (cs : List Char) :
    readItems fuel (skipSpace cs) = readItems fuel cs := by
  cases fuel with
  | zero => simp only [readItems]
  | succ fuel => rw [readItems, readItems, readValue_skipSpace]

/-- Members are read from the next token on. -/
theorem readMembers_skipSpace (fuel : Nat) (cs : List Char) :
    readMembers fuel (skipSpace cs) = readMembers fuel cs := by
  cases fuel with
  | zero => simp only [readMembers]
  | succ fuel => rw [readMembers, readMembers, skipSpace_skipSpace]

/-- A value may stand on a line of its own. -/
theorem readValue_newLine (fuel level : Nat) (cs : List Char) :
    readValue fuel (newLine level ++ cs) = readValue fuel cs := by
  rw [← readValue_skipSpace, skipSpace_newLine, readValue_skipSpace]

theorem endsNumber_newLine (level : Nat) (cs : List Char) : EndsNumber (newLine level ++ cs) :=
  endsNumber_cons (by decide)

/-! ### Values of each kind -/

/-- A number stands where a minus sign or a digit does. -/
theorem readValue_number {cs rest : List Char} {n : Numeral} (h : readNumber cs = .ok (n, rest))
    (fuel : Nat) : readValue (fuel + 1) cs = .ok (.number n, rest) := by
  obtain ⟨c, tail, rfl, hc⟩ := head?_of_readNumber h
  have hhead : isSpace c = false ∧ c ≠ '{' ∧ c ≠ '[' ∧ c ≠ '"' ∧ c ≠ 'n' ∧ c ≠ 't' ∧ c ≠ 'f' := by
    rcases hc with rfl | hc
    · decide
    · refine ⟨?_, ?_, ?_, ?_, ?_, ?_, ?_⟩
      · simp only [isSpace, Bool.or_eq_false_iff, beq_eq_false_iff_ne]
        refine ⟨⟨⟨?_, ?_⟩, ?_⟩, ?_⟩ <;> (rintro rfl; revert hc; decide)
      all_goals (rintro rfl; revert hc; decide)
  -- None of the other kinds of values begins like a number.
  obtain ⟨hspace, h1, h2, h3, h4, h5, h6⟩ := hhead
  rw [readValue, skipSpace_of_head hspace]
  split
  next heq => simp at heq
  next heq => exact absurd (List.cons.inj heq).1 h1
  next heq => exact absurd (List.cons.inj heq).1 h2
  next heq => exact absurd (List.cons.inj heq).1 h3
  next heq => exact absurd (List.cons.inj heq).1 h4
  next heq => exact absurd (List.cons.inj heq).1 h5
  next heq => exact absurd (List.cons.inj heq).1 h6
  next heq =>
    obtain ⟨rfl, rfl⟩ := List.cons.inj heq
    rw [if_pos hc, h]
    rfl

theorem readValue_quoteChars (fuel : Nat) (s : String) (rest : List Char) :
    readValue (fuel + 1) (quoteChars s ++ rest) = .ok (.string (some s), rest) := by
  have hchars : quoteChars s ++ rest = '"' :: (s.toList.flatMap escapeChar ++ '"' :: rest) := by
    simp [quoteChars]
  rw [hchars, readValue, skipSpace_of_head (by decide)]
  simp only [readString_quoted, bind, Except.bind]

/-- Items between brackets. -/
theorem readValue_brackets {fuel : Nat} {cs rest : List Char} {items : List Tree}
    (h : readItems fuel cs = .ok (items, rest)) :
    readValue (fuel + 1) ('[' :: cs) = .ok (.array items, rest) := by
  rw [readValue, skipSpace_of_head (by decide)]
  simp only
  split
  next hclose =>
    -- No item begins with a closing bracket.
    rw [← readItems_skipSpace, hclose] at h
    match fuel with
    | 0 => simp [readItems] at h
    | 1 => simp [readItems, readValue, bind, Except.bind] at h
    | fuel + 2 =>
      rw [readItems, readValue, skipSpace_of_head (by decide)] at h
      simp [bind, Except.bind] at h
  next => rw [readItems_skipSpace, h]; rfl

/-- Members between braces. -/
theorem readValue_braces {fuel : Nat} {cs rest : List Char} {members : List (Option String × Tree)}
    (h : readMembers fuel cs = .ok (members, rest)) :
    readValue (fuel + 1) ('\x7b' :: cs) = .ok (.object members, rest) := by
  rw [readValue, skipSpace_of_head (by decide)]
  simp only
  split
  next hclose =>
    -- No member begins with a closing brace.
    rw [← readMembers_skipSpace, hclose] at h
    match fuel with
    | 0 => simp [readMembers] at h
    | fuel + 1 =>
      rw [readMembers, skipSpace_of_head (by decide)] at h
      simp at h
  next => rw [readMembers_skipSpace, h]; rfl

/-! ### Documents -/

/-- What follows an item or a member begins with a comma or a new line. -/
theorem endsNumber_itemsChars (level outer : Nat) (items : List Json) (rest : List Char) :
    EndsNumber (itemsChars level items ++ (newLine outer ++ rest)) := by
  cases items with
  | nil => exact endsNumber_newLine outer rest
  | cons item items => exact endsNumber_cons (by decide)

/-- The same for members. -/
theorem endsNumber_membersChars (level outer : Nat) (members : List (String × Json))
    (rest : List Char) : EndsNumber (membersChars level members ++ (newLine outer ++ rest)) := by
  cases members with
  | nil => exact endsNumber_newLine outer rest
  | cons member members => exact endsNumber_cons (by decide)

/-- A key and a value, and what the reader looks at behind them. -/
theorem readMembers_key {fuel : Nat} {cs rest : List Char} {value : Tree}
    (h : readValue fuel cs = .ok (value, rest)) (level : Nat) (key : String) :
    readMembers (fuel + 1) (newLine level ++ (quoteChars key ++ (':' :: ' ' :: cs))) =
      match skipSpace rest with
      | ',' :: rest => do
        let (members, rest) ← readMembers fuel rest
        .ok ((some key, value) :: members, rest)
      | '\x7d' :: rest => .ok ([(some key, value)], rest)
      | c :: _ => .error (.unexpectedCharacter c)
      | [] => .error .unexpectedEnd := by
  have hkey : quoteChars key ++ (':' :: ' ' :: cs) =
      '"' :: (key.toList.flatMap escapeChar ++ '"' :: ':' :: ' ' :: cs) := by
    simp [quoteChars]
  -- The printer puts a blank behind the colon.
  have hblank : readValue fuel (' ' :: cs) = readValue fuel cs := by
    rw [← readValue_skipSpace, ← readValue_skipSpace fuel cs]
    rfl
  rw [← readMembers_skipSpace, skipSpace_newLine, hkey, skipSpace_of_head (by decide), readMembers,
    skipSpace_of_head (by decide)]
  simp only [readString_quoted, bind, Except.bind, skipSpace_of_head (c := ':') (by decide), hblank]
  exact h ▸ rfl

/-- An array with items, as the reader meets its parts. -/
theorem prettyChars_array (level : Nat) (item : Json) (items : List Json) (rest : List Char) :
    prettyChars level (.array (item :: items)) ++ rest =
      '[' :: (newLine (level + 1) ++ (prettyChars (level + 1) item ++
        (itemsChars (level + 1) items ++ (newLine level ++ ']' :: rest)))) := by
  rw [prettyChars]
  simp only [List.append_assoc, List.cons_append, List.nil_append]

/-- An object with members, as the reader meets its parts. -/
theorem prettyChars_object (level : Nat) (key : String) (value : Json)
    (members : List (String × Json)) (rest : List Char) :
    prettyChars level (.object ((key, value) :: members)) ++ rest =
      '\x7b' :: (newLine (level + 1) ++ (quoteChars key ++
        (':' :: ' ' :: (prettyChars (level + 1) value ++
          (membersChars (level + 1) members ++ (newLine level ++ '\x7d' :: rest)))))) := by
  rw [prettyChars]
  simp only [List.append_assoc, List.cons_append, List.nil_append]

/-- A comma, and the next item on a line of its own. -/
theorem itemsChars_cons (level : Nat) (item : Json) (items : List Json) (rest : List Char) :
    itemsChars level (item :: items) ++ rest =
      ',' :: (newLine level ++ (prettyChars level item ++ (itemsChars level items ++ rest))) := by
  rw [itemsChars]
  simp only [List.append_assoc, List.cons_append]

/-- A comma, and the next member on a line of its own. -/
theorem membersChars_cons (level : Nat) (key : String) (value : Json)
    (members : List (String × Json)) (rest : List Char) :
    membersChars level ((key, value) :: members) ++ rest =
      ',' :: (newLine level ++ (quoteChars key ++ (':' :: ' ' :: (prettyChars level value ++
        (membersChars level members ++ rest))))) := by
  rw [membersChars]
  simp only [List.append_assoc, List.cons_append]

theorem length_newLine (level : Nat) : (newLine level).length = 2 * level + 1 := by
  rw [newLine, List.length_cons, List.length_replicate]

mutual

/-- **A value** is read back as its tree, by more fuel than it has characters. -/
theorem readValue_prettyChars (level : Nat) (j : Json) (fuel : Nat) (rest : List Char)
    (hfuel : (prettyChars level j).length < fuel) (hrest : EndsNumber rest) :
    readValue fuel (prettyChars level j ++ rest) = .ok (j.tree, rest) := by
  -- The three proofs follow the fuel, which every call of the reader uses up by one.
  match j, fuel with
  | .null, fuel + 1 => rfl
  | .boolean true, fuel + 1 => rfl
  | .boolean false, fuel + 1 => rfl
  | .integer n, fuel + 1 =>
    rw [prettyChars, tree]
    exact readValue_number (readNumber_integerChars n hrest) fuel
  | .real x, fuel + 1 =>
    rw [prettyChars, tree]
    split
    next hx => exact readValue_number (readNumber_double hx hrest) fuel
    next => rfl
  | .string s, fuel + 1 =>
    rw [prettyChars, tree]
    exact readValue_quoteChars fuel s rest
  | .array [], fuel + 1 => rfl
  | .object [], fuel + 1 => rfl
  | .array (item :: items), fuel + 1 =>
    -- The two brackets are the two characters that the two calls need.
    have hlength := congrArg List.length (prettyChars_array level item items [])
    simp only [List.append_nil, List.length_cons, List.length_append, length_newLine] at hlength
    rw [prettyChars_array, tree]
    exact readValue_brackets (readItems_itemsChars _ level item items fuel rest (by omega))
  | .object ((key, value) :: members), fuel + 1 =>
    have hlength := congrArg List.length (prettyChars_object level key value members [])
    simp only [List.append_nil, List.length_cons, List.length_append, length_newLine] at hlength
    rw [prettyChars_object, tree]
    exact readValue_braces
      (readMembers_membersChars _ level key value members fuel rest (by omega))
termination_by structural fuel

/-- An item with those that follow it is read back up to the closing bracket. -/
theorem readItems_itemsChars (level outer : Nat) (item : Json) (items : List Json) (fuel : Nat)
    (rest : List Char)
    (hfuel : (prettyChars level item).length + (itemsChars level items).length + 1 < fuel) :
    readItems fuel (newLine level ++ (prettyChars level item ++
        (itemsChars level items ++ (newLine outer ++ ']' :: rest)))) =
      .ok (itemTrees (item :: items), rest) := by
  match fuel with
  | fuel + 1 =>
    -- The item ends where a comma or a new line follows.
    have hitem := readValue_prettyChars level item fuel
      (itemsChars level items ++ (newLine outer ++ ']' :: rest)) (by omega)
      (endsNumber_itemsChars level outer items _)
    rw [readItems, readValue_newLine, hitem, itemTrees]
    simp only [bind, Except.bind]
    match items with
    | [] =>
      rw [itemsChars, List.nil_append, skipSpace_newLine, skipSpace_of_head (by decide)]
      rfl
    | second :: items =>
      have hlength := congrArg List.length (itemsChars_cons level second items [])
      simp only [List.append_nil, List.length_cons, List.length_append, length_newLine] at hlength
      rw [itemsChars_cons, skipSpace_of_head (by decide)]
      simp only [readItems_itemsChars level outer second items fuel rest (by omega)]
termination_by structural fuel

/-- A member with those that follow it is read back up to the closing brace. -/
theorem readMembers_membersChars (level outer : Nat) (key : String) (value : Json)
    (members : List (String × Json)) (fuel : Nat) (rest : List Char)
    (hfuel : (prettyChars level value).length + (membersChars level members).length + 1 < fuel) :
    readMembers fuel (newLine level ++ (quoteChars key ++ (':' :: ' ' :: (prettyChars level value ++
        (membersChars level members ++ (newLine outer ++ '\x7d' :: rest)))))) =
      .ok (memberTrees ((key, value) :: members), rest) := by
  match fuel with
  | fuel + 1 =>
    -- The value ends where a comma or a new line follows.
    have hvalue := readValue_prettyChars level value fuel
      (membersChars level members ++ (newLine outer ++ '\x7d' :: rest)) (by omega)
      (endsNumber_membersChars level outer members _)
    rw [readMembers_key hvalue, memberTrees]
    match members with
    | [] =>
      rw [membersChars, List.nil_append, skipSpace_newLine, skipSpace_of_head (by decide)]
      rfl
    | (second, value') :: members =>
      have hlength := congrArg List.length (membersChars_cons level second value' members [])
      simp only [List.append_nil, List.length_cons, List.length_append, length_newLine] at hlength
      rw [membersChars_cons, skipSpace_of_head (by decide)]
      simp only [readMembers_membersChars level outer second value' members fuel rest (by omega),
        bind, Except.bind]
termination_by structural fuel

end

/-- **The document of a value** is read back as the tree of the value. -/
theorem Tree.ofText_pretty (j : Json) : Tree.ofText j.pretty = .ok j.tree := by
  -- The reader has fuel for twice the length of the text.
  have hvalue := readValue_prettyChars 0 j (2 * (prettyChars 0 j).length + 2) [] (by omega)
    endsNumber_nil
  rw [List.append_nil] at hvalue
  rw [Tree.ofText, pretty, String.toList_ofList, hvalue]
  rfl

/-- Decoding the document of a value decodes its tree. -/
theorem decodeText_pretty {α : Type} (d : Decoder α) (j : Json) :
    decodeText d j.pretty = d maxLevels j.tree := by
  rw [decodeText, Tree.ofText_pretty]
  rfl

/-- The value of the document of a value is that of its tree. -/
theorem ofText_pretty (j : Json) : ofText j.pretty = ofTree maxLevels j.tree := by
  rw [ofText, Tree.ofText_pretty]
  rfl

end PinnedBench.Json
