import PinnedBench.Files.Access
import PinnedBench.Proofs.Json.Documents
import PinnedBench.Proofs.Outcomes

/-!
# Beginnings of documents

A document that breaks off is no document. Reading a value is not affected by what follows it
(`readValue_append`), so if a beginning of a text were a value already, the rest of the text would
have to be blank. A number is the exception: at the end of a text, more digits may follow. But no
record is written as a number, and none ends in a blank, so a beginning of its document that can be
decoded is the whole of it (`eq_of_decodeText_prefix`).

What breaks off is a file, and its bytes may end within a character. If they are a text, it is a
beginning of the text that was to be written (`prefix_of_textOfBytes`).
-/

namespace PinnedBench

namespace Json

/-! ### Blanks and digits -/

/-- Where something is left, what is put behind the text is left as well. -/
theorem dropWhile_append_of_ne_nil {p : Char → Bool} {cs : List Char} (ext : List Char)
    (h : cs.dropWhile p ≠ []) : (cs ++ ext).dropWhile p = cs.dropWhile p ++ ext := by
  rw [List.dropWhile_append, if_neg (by simpa using h)]

/-- And what is taken is the same. -/
theorem takeWhile_append_of_ne_nil {p : Char → Bool} {cs : List Char} (ext : List Char)
    (h : cs.dropWhile p ≠ []) : (cs ++ ext).takeWhile p = cs.takeWhile p := by
  rw [List.takeWhile_append, if_neg]
  intro hlength
  have hall := congrArg List.length (List.takeWhile_append_dropWhile (p := p) (l := cs))
  rw [List.length_append, hlength] at hall
  exact h (List.eq_nil_of_length_eq_zero (by omega))

/-- A token that has been found is found again, whatever is put behind the text. -/
theorem skipSpace_append {cs : List Char} {c : Char} {rest : List Char}
    (h : skipSpace cs = c :: rest) (ext : List Char) :
    skipSpace (cs ++ ext) = c :: (rest ++ ext) := by
  rw [skipSpace, dropWhile_append_of_ne_nil ext (by rw [← skipSpace, h]; simp), ← skipSpace, h,
    List.cons_append]

/-! ### Numbers -/

/-- What follows is not read: a reader that has left something leaves what is put behind it as
well. -/
def Continues {α : Type} (read : List Char → Except Fault (α × List Char)) : Prop :=
  ∀ ⦃cs rest⦄ ⦃a : α⦄, read cs = .ok (a, rest) → rest ≠ [] → ∀ ext,
    read (cs ++ ext) = .ok (a, rest ++ ext)

/-- A reader of a run of digits, which takes some runs and refuses the others, leaves what stands
behind the run. -/
theorem continues_digits {α : Type} {read : List Char → Except Fault (α × List Char)}
    (good : List Char → Bool) (value : List Char → α)
    (hread : ∀ cs, read cs =
      if good (cs.takeWhile Char.isDigit) then
        .ok (value (cs.takeWhile Char.isDigit), cs.dropWhile Char.isDigit)
      else .error .invalidNumber) : Continues read := by
  intro cs rest a h hrest ext
  rw [hread] at h
  split at h
  next hgood =>
    obtain ⟨rfl, rfl⟩ := Prod.mk.inj (Except.ok.inj h)
    rw [hread, takeWhile_append_of_ne_nil ext hrest, dropWhile_append_of_ne_nil ext hrest,
      if_pos hgood]
  next => simp at h

/-- The part before the point. -/
theorem continues_readWholePart : Continues readWholePart := by
  refine continues_digits (fun ds => ds.head? != some '0' && !ds.isEmpty || ds == ['0']) id
    fun cs => ?_
  rw [readWholePart]
  generalize cs.takeWhile Char.isDigit = ds
  generalize cs.dropWhile Char.isDigit = left
  -- Only a zero that stands alone may come first.
  rcases ds with _ | ⟨c, _ | ⟨c', ds⟩⟩
  · rfl
  · by_cases hc : c = '0' <;> simp [hc]
  · by_cases hc : c = '0' <;> simp [hc]

/-- The digits of an exponent. -/
theorem continues_readExponentDigits (negative : Bool) :
    Continues (readExponentDigits negative) := by
  refine continues_digits (fun ds => !ds.isEmpty)
    (fun ds => some (if negative then -(valueOf ds : Int) else valueOf ds)) fun cs => ?_
  rw [readExponentDigits]
  generalize cs.takeWhile Char.isDigit = ds
  cases ds <;> rfl

theorem continues_places : Continues fun cs => readPlaces ('.' :: cs) := by
  refine continues_digits (fun ds => !ds.isEmpty) some fun cs => ?_
  rw [readPlaces]
  generalize cs.takeWhile Char.isDigit = ds
  cases ds <;> rfl

/-- The places, with their point or without it. -/
theorem continues_readPlaces : Continues readPlaces := by
  intro cs rest places h hrest ext
  unfold readPlaces at h
  split at h
  next cs => exact continues_places h hrest ext
  next hpoint =>
    obtain ⟨rfl, rfl⟩ := Prod.mk.inj (Except.ok.inj h)
    obtain ⟨c, cs, rfl⟩ := List.exists_cons_of_ne_nil hrest
    -- What is left does not begin with a point, and so the longer text does not either.
    refine readPlaces_of_ne fun c' hc' => ?_
    rintro rfl
    obtain rfl := Option.some.inj hc'
    exact hpoint cs rfl

/-- The exponent, with its letter or without it. -/
theorem continues_readExponent : Continues readExponent := by
  intro cs rest e h hrest ext
  cases cs with
  | nil =>
    obtain ⟨-, rfl⟩ := Prod.mk.inj (Except.ok.inj h)
    exact absurd rfl hrest
  | cons c cs =>
    rw [List.cons_append]
    unfold readExponent at h ⊢
    dsimp only at h ⊢
    split at h
    next hc =>
      rw [if_pos hc]
      split at h
      next cs => exact continues_readExponentDigits true h hrest ext
      next cs => exact continues_readExponentDigits false h hrest ext
      next hminus hplus =>
        have hext := continues_readExponentDigits false h hrest ext
        -- The digits begin at once, and nothing that follows can become their sign.
        cases cs with
        | nil => simp [readExponentDigits] at h
        | cons d ds =>
          split
          next heq => exact absurd (congrArg (· :: ds) (List.cons.inj heq).1) (hminus ds)
          next heq => exact absurd (congrArg (· :: ds) (List.cons.inj heq).1) (hplus ds)
          next => exact hext
    next hc =>
      obtain ⟨rfl, rfl⟩ := Prod.mk.inj (Except.ok.inj h)
      rw [if_neg hc]
      rfl

/-- A number without its sign, its three parts one after the other. -/
theorem continues_readUnsigned (negative : Bool) : Continues (readUnsigned negative) := by
  intro cs rest n h hrest ext
  simp only [readUnsigned, bind_eq_ok, Except.ok.injEq, Prod.exists, Prod.mk.injEq] at h
  obtain ⟨ds, left₁, h₁, places, left₂, h₂, e, left₃, h₃, rfl, rfl⟩ := h
  -- Behind the end of the text there is nothing for a later part to leave.
  have hleft₂ : left₂ ≠ [] := by
    rintro rfl
    exact hrest (Prod.mk.inj (Except.ok.inj h₃)).2.symm
  have hleft₁ : left₁ ≠ [] := by
    rintro rfl
    exact hleft₂ (Prod.mk.inj (Except.ok.inj h₂)).2.symm
  exact readUnsigned_parts negative (continues_readWholePart h₁ hleft₁ ext)
    (continues_readPlaces h₂ hleft₂ ext) (continues_readExponent h₃ hrest ext)

/-- A number with its sign. -/
theorem continues_readNumber : Continues readNumber := by
  intro cs rest n h hrest ext
  unfold readNumber at h
  split at h
  next cs => exact continues_readUnsigned true h hrest ext
  next hminus =>
    have hext := continues_readUnsigned false h hrest ext
    obtain ⟨c, tail, rfl, -⟩ := head?_of_readUnsigned h
    rw [List.cons_append] at hext ⊢
    unfold readNumber
    split
    next heq => exact absurd (congrArg (· :: tail) (List.cons.inj heq).1) (hminus tail)
    next => exact hext

/-! ### Strings -/

/-- A string ends with its closing quote, whatever follows. -/
theorem readUnits_append {taken units : List Nat} {cs rest : List Char}
    (h : readUnits taken cs = .ok (units, rest)) (ext : List Char) :
    readUnits taken (cs ++ ext) = .ok (units, rest ++ ext) := by
  -- The induction follows the reader: one case for each way to take a unit, and those that fail.
  fun_induction readUnits taken cs with
  | case1 => simp at h
  | case2 taken left =>
    obtain ⟨rfl, rfl⟩ := Prod.mk.inj (Except.ok.inj h)
    rw [List.cons_append, readUnits]
  | case3 taken a b c d left n hunit ih =>
    simp only [List.cons_append, readUnits, hunit]
    exact ih h
  | case4 => simp at h
  | case5 taken c left hlong e hescape ih =>
    -- The escape is a short one, so it cannot become a long one by what follows.
    have hne : c ≠ 'u' := by
      rintro rfl
      simp [shortEscape?] at hescape
    rw [List.cons_append, List.cons_append, readUnits]
    · simp only [hescape]
      exact ih h
    · intro _ _ _ _ _ hc
      exact absurd hc hne
  | case6 => simp at h
  | case7 => simp at h
  | case8 => simp at h
  | case9 taken c left hquote _ _ hslash hcontrol ih =>
    rw [List.cons_append, readUnits]
    · rw [if_neg hslash, if_neg hcontrol]
      exact ih h
    · exact hquote
    · exact fun _ _ _ _ _ hc => absurd hc hslash
    · exact fun _ _ hc => absurd hc hslash

/-- A string is read alike with more text behind it. -/
theorem readString_append {cs rest : List Char} {s : Option String}
    (h : readString cs = .ok (s, rest)) (ext : List Char) :
    readString (cs ++ ext) = .ok (s, rest ++ ext) := by
  obtain ⟨⟨units, left⟩, hunits, hs⟩ := bind_eq_ok.mp h
  obtain ⟨rfl, rfl⟩ := Prod.mk.inj (Except.ok.inj hs)
  rw [readString, readUnits_append hunits ext]
  rfl

/-! ### Values -/

mutual

/-- **A value** is read alike with more text behind it, and with more fuel. A number has to be left
before the text ends. -/
theorem readValue_append {fuel fuel' : Nat} (hle : fuel ≤ fuel') {cs rest : List Char} {t : Tree}
    (h : readValue fuel cs = .ok (t, rest)) (hend : rest ≠ [] ∨ ∀ n, t ≠ .number n)
    (ext : List Char) : readValue fuel' (cs ++ ext) = .ok (t, rest ++ ext) := by
  match fuel, fuel' with
  | 0, _ => simp [readValue] at h
  | fuel + 1, fuel' + 1 =>
    rw [readValue] at h
    rw [← readValue_skipSpace]
    split at h
    next => simp at h
    -- An object, empty or not.
    next left hopen =>
      rw [skipSpace_append hopen]
      split at h
      next hclose =>
        obtain ⟨rfl, rfl⟩ := Prod.mk.inj (Except.ok.inj h)
        rw [readValue, skipSpace_of_head (by decide)]
        simp only [skipSpace_append hclose]
      next =>
        obtain ⟨⟨members, left'⟩, hmembers, hok⟩ := bind_eq_ok.mp h
        obtain ⟨rfl, rfl⟩ := Prod.mk.inj (Except.ok.inj hok)
        rw [readMembers_skipSpace] at hmembers
        exact readValue_braces (readMembers_append (Nat.le_of_succ_le_succ hle) hmembers ext)
    -- An array, empty or not.
    next left hopen =>
      rw [skipSpace_append hopen]
      split at h
      next hclose =>
        obtain ⟨rfl, rfl⟩ := Prod.mk.inj (Except.ok.inj h)
        rw [readValue, skipSpace_of_head (by decide)]
        simp only [skipSpace_append hclose]
      next =>
        obtain ⟨⟨items, left'⟩, hitems, hok⟩ := bind_eq_ok.mp h
        obtain ⟨rfl, rfl⟩ := Prod.mk.inj (Except.ok.inj hok)
        rw [readItems_skipSpace] at hitems
        exact readValue_brackets (readItems_append (Nat.le_of_succ_le_succ hle) hitems ext)
    next left hopen =>
      obtain ⟨⟨s, left'⟩, hs, hok⟩ := bind_eq_ok.mp h
      obtain ⟨rfl, rfl⟩ := Prod.mk.inj (Except.ok.inj hok)
      rw [skipSpace_append hopen, readValue, skipSpace_of_head (by decide)]
      simp only [readString_append hs ext, bind, Except.bind]
    -- The three words.
    next left hword =>
      obtain ⟨rfl, rfl⟩ := Prod.mk.inj (Except.ok.inj h)
      rw [skipSpace_append hword]
      rfl
    next left hword =>
      obtain ⟨rfl, rfl⟩ := Prod.mk.inj (Except.ok.inj h)
      rw [skipSpace_append hword]
      rfl
    next left hword =>
      obtain ⟨rfl, rfl⟩ := Prod.mk.inj (Except.ok.inj h)
      rw [skipSpace_append hword]
      rfl
    next c left _ _ _ _ _ _ hopen =>
      split at h
      next hc =>
        obtain ⟨⟨n, left'⟩, hn, hok⟩ := bind_eq_ok.mp h
        obtain ⟨rfl, rfl⟩ := Prod.mk.inj (Except.ok.inj hok)
        rw [skipSpace_append hopen]
        have hrest : left' ≠ [] := hend.resolve_right fun hne => hne n rfl
        exact readValue_number (continues_readNumber hn hrest ext) fuel'
      next => simp at h
termination_by structural fuel

/-- Items are read alike with more text behind their closing bracket. -/
theorem readItems_append {fuel fuel' : Nat} (hle : fuel ≤ fuel') {cs rest : List Char}
    {items : List Tree} (h : readItems fuel cs = .ok (items, rest)) (ext : List Char) :
    readItems fuel' (cs ++ ext) = .ok (items, rest ++ ext) := by
  match fuel, fuel' with
  | 0, _ => simp [readItems] at h
  | fuel + 1, fuel' + 1 =>
    rw [readItems] at h
    obtain ⟨⟨item, left⟩, hitem, h⟩ := bind_eq_ok.mp h
    have hle := Nat.le_of_succ_le_succ hle
    dsimp only at h
    -- A comma or a bracket follows, so an item that is a number is left before the text ends.
    have hleft : left ≠ [] := by
      rintro rfl
      simp [skipSpace] at h
    rw [readItems, readValue_append hle hitem (.inl hleft) ext]
    simp only [bind, Except.bind]
    split at h
    next left' hcomma =>
      obtain ⟨⟨others, left''⟩, hothers, hok⟩ := bind_eq_ok.mp h
      obtain ⟨rfl, rfl⟩ := Prod.mk.inj (Except.ok.inj hok)
      rw [skipSpace_append hcomma]
      simp only [readItems_append hle hothers ext]
    next left' hclose =>
      obtain ⟨rfl, rfl⟩ := Prod.mk.inj (Except.ok.inj h)
      rw [skipSpace_append hclose]
      rfl
    next => simp at h
    next => simp at h
termination_by structural fuel

/-- Members are read alike with more text behind their closing brace. -/
theorem readMembers_append {fuel fuel' : Nat} (hle : fuel ≤ fuel') {cs rest : List Char}
    {members : List (Option String × Tree)} (h : readMembers fuel cs = .ok (members, rest))
    (ext : List Char) : readMembers fuel' (cs ++ ext) = .ok (members, rest ++ ext) := by
  match fuel, fuel' with
  | 0, _ => simp [readMembers] at h
  | fuel + 1, fuel' + 1 =>
    have hle := Nat.le_of_succ_le_succ hle
    rw [readMembers] at h
    split at h
    next left hquote =>
      obtain ⟨⟨key, left₁⟩, hkey, h⟩ := bind_eq_ok.mp h
      dsimp only at h
      rw [readMembers, skipSpace_append hquote]
      simp only [readString_append hkey ext, bind, Except.bind]
      split at h
      next left₂ hcolon =>
        obtain ⟨⟨value, left₃⟩, hvalue, h⟩ := bind_eq_ok.mp h
        dsimp only at h
        -- The same for a value: a comma or a brace follows.
        have hleft : left₃ ≠ [] := by
          rintro rfl
          simp [skipSpace] at h
        rw [skipSpace_append hcolon]
        simp only [readValue_append hle hvalue (.inl hleft) ext]
        split at h
        next left₄ hcomma =>
          obtain ⟨⟨others, left₅⟩, hothers, hok⟩ := bind_eq_ok.mp h
          obtain ⟨rfl, rfl⟩ := Prod.mk.inj (Except.ok.inj hok)
          rw [skipSpace_append hcomma]
          simp only [readMembers_append hle hothers ext]
        next left₄ hclose =>
          obtain ⟨rfl, rfl⟩ := Prod.mk.inj (Except.ok.inj h)
          rw [skipSpace_append hclose]
          rfl
        next => simp at h
        next => simp at h
      next => simp at h
      next => simp at h
    next => simp at h
    next => simp at h
termination_by structural fuel

end

/-! ### Documents that break off -/

/-- **What may follow a value** in a text that is one value: blanks. -/
theorem blank_of_ofText {text ext : String} {t t' : Tree} (h : Tree.ofText text = .ok t)
    (hnumber : ∀ n, t ≠ .number n) (h' : Tree.ofText (text ++ ext) = .ok t') :
    skipSpace ext.toList = [] := by
  rw [Tree.ofText] at h h'
  obtain ⟨⟨u, rest⟩, hvalue, hrest⟩ := bind_eq_ok.mp h
  obtain ⟨⟨u', rest'⟩, hvalue', hrest'⟩ := bind_eq_ok.mp h'
  dsimp only at hrest hrest'
  split at hrest
  next hblank =>
    obtain rfl := Except.ok.inj hrest
    split at hrest'
    next hblank' =>
      rw [String.toList_append] at hvalue'
      have hfuel : 2 * text.toList.length + 2 ≤ 2 * (text.toList ++ ext.toList).length + 2 := by
        rw [List.length_append]
        omega
      -- The value is read again, so what it has left now ends with what was put behind it.
      have hlonger := readValue_append hfuel hvalue (.inr hnumber) ext.toList
      obtain ⟨-, rfl⟩ := Prod.mk.inj (Except.ok.inj (hlonger.symm.trans hvalue'))
      rw [skipSpace, List.dropWhile_eq_nil_iff] at hblank' ⊢
      exact fun c hc => hblank' c (List.mem_append_right _ hc)
    next => simp at hrest'
  next => simp at hrest

/-- The document of an object ends with its brace. -/
theorem prettyChars_object_concat (level : Nat) (members : List (String × Json)) :
    ∃ cs, prettyChars level (.object members) = cs ++ ['\x7d'] := by
  match members with
  | [] => exact ⟨['\x7b'], rfl⟩
  | (key, value) :: members =>
    refine ⟨'\x7b' :: (newLine (level + 1) ++ (quoteChars key ++ (':' :: ' ' ::
      (prettyChars (level + 1) value ++ (membersChars (level + 1) members ++ newLine level))))), ?_⟩
    have hchars := prettyChars_object level key value members []
    rw [List.append_nil] at hchars
    rw [hchars]
    simp only [List.append_assoc, List.cons_append]

/-- A beginning of the document of an object that is a value, and not a number, is the whole
document. -/
theorem eq_of_ofText_prefix {members : List (String × Json)} {text : String} {t : Tree}
    (hbegins : text.toList <+: (Json.pretty (.object members)).toList)
    (h : Tree.ofText text = .ok t) (hnumber : ∀ n, t ≠ .number n) :
    text = Json.pretty (.object members) := by
  obtain ⟨ext, hext⟩ := hbegins
  have happend : text ++ String.ofList ext = Json.pretty (.object members) := by
    rw [← String.toList_inj, String.toList_append, String.toList_ofList, hext]
  have hblank := blank_of_ofText h hnumber (happend ▸ Tree.ofText_pretty (.object members))
  rw [String.toList_ofList, skipSpace, List.dropWhile_eq_nil_iff] at hblank
  -- The last character of the document is a brace, so nothing is missing.
  obtain ⟨cs, hcs⟩ := prettyChars_object_concat 0 members
  rw [Json.pretty, String.toList_ofList, hcs] at hext
  cases List.eq_nil_or_concat ext with
  | inl hnil =>
    rw [← happend, hnil, String.ofList_nil, String.append_empty]
  | inr hlast =>
    obtain ⟨init, c, rfl⟩ := hlast
    rw [List.concat_eq_append, ← List.append_assoc] at hext
    obtain ⟨-, hc⟩ := List.append_inj' hext rfl
    obtain rfl := (List.cons.inj hc).1
    exact absurd (hblank '\x7d' (by simp)) (by decide)

theorem Tree.ne_number_of_fields {names : List String} {levels : Nat} {t : Tree} {f : Fields}
    (h : Tree.fields names levels t = .ok f) (n : Numeral) : t ≠ .number n := by
  rintro rfl
  cases levels <;> simp [Tree.fields] at h

end Json

/-- **Bytes that break off** are a beginning of the text, if they are a text at all. -/
theorem prefix_of_textOfBytes {text text' : String} {n : Nat}
    (h : textOfBytes (text.toUTF8.extract 0 n) = .ok text') : text'.toList <+: text.toList := by
  have hwhole : text.toUTF8.extract 0 n ++ text.toUTF8.extract n text.toUTF8.size =
      text.toUTF8 := by
    rw [ByteArray.extract_append_extract]
    apply ByteArray.ext
    simp [ByteArray.data_extract]
  rw [textOfBytes, String.fromUTF8?] at h
  split at h
  next s hs =>
    split at hs
    next hvalid =>
      obtain rfl := Except.ok.inj h
      have hbytes : s.toByteArray = text.toUTF8.extract 0 n :=
        congrArg String.toByteArray (Option.some.inj hs).symm
      rw [← hbytes, ← String.utf8Encode_toList, String.toUTF8_eq_toByteArray,
        ← String.utf8Encode_toList] at hwhole
      -- The bytes of the one text are a beginning of those of the other, and then so are the
      -- characters.
      exact List.isPrefix_of_utf8Encode_append_eq_utf8Encode _ hwhole
    next => simp at hs
  next => simp at h

end PinnedBench
