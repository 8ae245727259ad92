import Mathlib
import PinnedBench.Proofs.Json.Numbers
import PinnedBench.Proofs.Outcomes
import PinnedBench.Text.Numeral

/-!
# Texts that are numbers

Which texts are read as numbers, and as which. `readWhole_eq_ok` is about whole numbers up to a
limit: digits, with a plus sign before them or not, whose value is within the limit.
`readReal_eq_ok` is about decimal numbers: a sign or none, and then a decimal (`DecimalText`) or one
of three words. Both are equivalences, so a text of any other form is refused; blanks are part of no
number.

The reader of whole numbers refuses as soon as a digit takes it above the limit. That it does not
refuse too early is because digits that follow never make a number smaller (`le_ofDigitChars`).
-/

namespace PinnedBench

/-- A text with a sign, which may be left out if it is a plus. -/
def Signed (negative : Bool) (cs unsigned : List Char) : Prop :=
  if negative then cs = '-' :: unsigned else cs = unsigned ∨ cs = '+' :: unsigned

/-! ### Whole numbers -/

/-- Digits that are read onto a number do not make it smaller. -/
theorem le_ofDigitChars (ds : List Char) (n : Nat) : n ≤ Nat.ofDigitChars 10 ds n := by
  rw [Nat.ofDigitChars_eq_ofDigitChars_zero]
  exact le_trans (Nat.le_mul_of_pos_left n (Nat.pow_pos (by decide))) (Nat.le_add_right _ _)

/-- Reading digits onto a number within the limit. The induction is on the digits: each one is read
onto what the ones before it have made. -/
theorem readDigits_eq_ok {limit n k : Nat} {above : WholeFault} {ds : List Char} (hn : n ≤ limit) :
    readDigits limit above n ds = .ok k ↔
      (∀ c ∈ ds, c.isDigit = true) ∧ Nat.ofDigitChars 10 ds n = k ∧ k ≤ limit := by
  induction ds generalizing n with
  | nil =>
    rw [readDigits, Nat.ofDigitChars_nil, Except.ok.injEq]
    constructor
    · rintro rfl
      exact ⟨by simp, rfl, hn⟩
    · exact fun h => h.2.1
  | cons c ds ih =>
    rw [readDigits, Nat.ofDigitChars_cons, List.forall_mem_cons]
    cases hc : c.isDigit with
    | false => simp
    | true =>
      rw [Bool.not_true, if_neg Bool.false_ne_true]
      split
      next habove =>
        -- Whatever follows, the number stays above the limit.
        have hlarge := le_ofDigitChars ds (10 * n + digitValue c)
        constructor
        · intro h
          cases h
        · rintro ⟨-, rfl, hle⟩
          exact absurd (habove.trans_le hlarge) (Nat.not_lt.mpr hle)
      next hwithin =>
        rw [ih (Nat.not_lt.mp hwithin)]
        simp [digitValue]

/-- **Texts of whole numbers** up to a limit: at least one digit, and nothing else but a plus sign
before them. Zeros in front do not matter. -/
theorem readWhole_eq_ok {limit n : Nat} {cs : List Char} : readWhole limit cs = .ok n ↔
    ∃ ds, Signed false cs ds ∧ ds ≠ [] ∧ (∀ c ∈ ds, c.isDigit = true) ∧
      digitsValue ds = n ∧ n ≤ limit := by
  -- Apart from the sign, the limit holds for all of the digits.
  have hsome : ∀ ds, readSomeDigits limit .tooLarge ds = .ok n ↔ ds ≠ [] ∧
      (∀ c ∈ ds, c.isDigit = true) ∧ digitsValue ds = n ∧ n ≤ limit := by
    intro ds
    cases ds with
    | nil => simp [readSomeDigits]
    | cons c ds =>
      rw [readSomeDigits, List.isEmpty_cons, if_neg Bool.false_ne_true,
        readDigits_eq_ok (Nat.zero_le limit)]
      exact (and_iff_right (List.cons_ne_nil c ds)).symm
  unfold readWhole
  split
  next =>
    constructor
    · intro h
      cases h
    · rintro ⟨ds, hsign, hne, -⟩
      exact absurd (by simpa [Signed, eq_comm] using hsign) hne
  next rest =>
    rw [hsome]
    constructor
    · exact fun h => ⟨rest, .inr rfl, h⟩
    · -- A plus sign is no digit, so it is not the first one of the digits.
      rintro ⟨ds, rfl | hds, hne, hdigits, hvalue⟩
      · exact absurd (hdigits '+' List.mem_cons_self) (by decide)
      · obtain rfl := (List.cons.inj hds).2
        exact ⟨hne, hdigits, hvalue⟩
  -- Without a plus sign the text itself is read, so both forms come to the same.
  next hplus =>
    rw [hsome]
    constructor
    · exact fun h => ⟨cs, .inl rfl, h⟩
    · rintro ⟨ds, rfl | hds, h⟩
      · exact h
      · exact absurd hds (hplus ds)

/-! ### Decimal numbers -/

/-- What may stand behind the digits of a decimal, and the exponent that it tells. -/
inductive ExponentText : List Char → Int → Prop
  /-- Nothing stands there. -/
  | absent : ExponentText [] 0
  /-- The letter, a sign that may be left out, and at least one digit. -/
  | present {letter : Char} {rest ds : List Char} {negative : Bool}
      (hletter : letter = 'e' ∨ letter = 'E') (hsign : Signed negative rest ds) (hne : ds ≠ [])
      (hdigits : ∀ c ∈ ds, c.isDigit = true) :
      ExponentText (letter :: rest) (if negative then -(digitsValue ds : Int) else digitsValue ds)

/-- **Texts of decimals** without a sign, and the decimals that they write. -/
inductive DecimalText : List Char → Decimal → Prop
  /-- Digits without a point. -/
  | whole {ds tail : List Char} {e : Int} (hne : ds ≠ []) (hdigits : ∀ c ∈ ds, c.isDigit = true)
      (htail : ExponentText tail e) : DecimalText (ds ++ tail) ⟨digitsValue ds, e⟩
  /-- Digits with a point before, behind or among them. -/
  | pointed {ds places tail : List Char} {e : Int} (hne : ds ++ places ≠ [])
      (hdigits : ∀ c ∈ ds ++ places, c.isDigit = true) (htail : ExponentText tail e) :
      DecimalText (ds ++ '.' :: (places ++ tail))
        ⟨digitsValue (ds ++ places), e - places.length⟩

/-- **Texts of numbers** without a sign, and what is read from them. -/
inductive SizeText : List Char → Double → Prop
  /-- A decimal is read as the number next to it. -/
  | decimal {cs : List Char} {d : Decimal} (h : DecimalText cs d) : SizeText cs d.nearest
  /-- Two words stand for infinity. -/
  | infinity {cs : List Char} (h : String.ofList (cs.map Char.toLower) = "inf" ∨
      String.ofList (cs.map Char.toLower) = "infinity") : SizeText cs .infinity
  /-- One word stands for what is no number. -/
  | undefined {cs : List Char} (h : String.ofList (cs.map Char.toLower) = "nan") :
      SizeText cs .undefined

/-- A text is what is left of it behind the sign that is taken off. -/
theorem signed_takeSign (cs : List Char) : Signed (takeSign cs).1 cs (takeSign cs).2 := by
  unfold takeSign
  split
  · exact rfl
  · exact .inr rfl
  · exact .inl rfl

/-- A sign is taken off, unless it is the first of several. -/
theorem takeSign_of_signed {negative : Bool} {cs ds : List Char} (h : Signed negative cs ds)
    (hhead : ∀ c ∈ ds.head?, c ≠ '+' ∧ c ≠ '-') : takeSign cs = (negative, ds) := by
  cases negative with
  | true =>
    obtain rfl : cs = '-' :: ds := h
    rfl
  | false =>
    rcases h with rfl | rfl
    · unfold takeSign
      split
      · exact absurd rfl (hhead '-' rfl).2
      · exact absurd rfl (hhead '+' rfl).1
      · rfl
    · rfl

theorem ne_sign_of_isDigit {c : Char} (h : c.isDigit = true) : c ≠ '+' ∧ c ≠ '-' := by
  constructor <;> rintro rfl <;> exact absurd h (by decide)

/-- **Texts of exponents.** -/
theorem readExponent_eq_some {cs : List Char} {e : Int} :
    readExponent cs = some e ↔ ExponentText cs e := by
  constructor
  · intro h
    unfold readExponent at h
    split at h
    next =>
      obtain rfl := Option.some.inj h
      exact .absent
    next letter rest =>
      split at h
      next hletter =>
        dsimp only at h
        split at h
        · cases h
        next hds =>
          obtain rfl := Option.some.inj h
          simp only [Bool.or_eq_true, List.isEmpty_iff, Bool.not_eq_true', not_or] at hds
          exact .present hletter (signed_takeSign rest) hds.1
            (List.all_eq_true.mp (Bool.not_eq_false _ ▸ hds.2))
      next => cases h
  · -- A digit comes first behind the sign, so exactly this sign is taken off.
    rintro (_ | ⟨hletter, hsign, hne, hdigits⟩)
    · rfl
    · have hhead := takeSign_of_signed hsign fun c hc =>
        ne_sign_of_isDigit (hdigits c (List.mem_of_mem_head? hc))
      unfold readExponent
      simp only [if_pos hletter, hhead, List.isEmpty_eq_false_iff.mpr hne,
        List.all_eq_true.mpr hdigits, Bool.not_true, Bool.or_false, Bool.false_eq_true, if_false]

/-- What stands behind the digits of a decimal is no digit and no point. -/
theorem ExponentText.head_ne {tail : List Char} {e : Int} (h : ExponentText tail e) :
    ∀ c ∈ tail.head?, c.isDigit = false ∧ c ≠ '.' := by
  rcases h with _ | ⟨rfl | rfl, -, -, -⟩ <;> simp

/-- Digits that nothing but an exponent follows. -/
theorem readDecimal_whole {ds tail : List Char} (hds : ∀ c ∈ ds, c.isDigit = true)
    (htail : ∀ c ∈ tail.head?, c.isDigit = false ∧ c ≠ '.') :
    readDecimal (ds ++ tail) = if ds.isEmpty then none
      else (readExponent tail).map fun e => ⟨digitsValue ds, e⟩ := by
  have hhead := fun c hc => (htail c hc).1
  unfold readDecimal
  simp only [Json.takeWhile_digits hds hhead, Json.dropWhile_digits hds hhead]
  split
  next r => exact absurd rfl (htail '.' rfl).2
  next => simp

/-- Digits, a point and digits, of which one side may be missing. -/
theorem readDecimal_pointed {ds places tail : List Char} (hds : ∀ c ∈ ds, c.isDigit = true)
    (hplaces : ∀ c ∈ places, c.isDigit = true) (htail : ∀ c ∈ tail.head?, c.isDigit = false) :
    readDecimal (ds ++ '.' :: (places ++ tail)) = if ds.isEmpty && places.isEmpty then none
      else (readExponent tail).map fun e => ⟨digitsValue (ds ++ places), e - places.length⟩ := by
  have hpoint : ∀ c ∈ ('.' :: (places ++ tail)).head?, c.isDigit = false := by
    rintro c ⟨⟩
    decide
  unfold readDecimal
  simp only [Json.takeWhile_digits hds hpoint, Json.dropWhile_digits hds hpoint,
    Json.takeWhile_digits hplaces htail, Json.dropWhile_digits hplaces htail]

/-- A text is its leading digits and a rest that does not begin with a digit. -/
theorem exists_leading_digits (cs : List Char) : ∃ ds rest, cs = ds ++ rest ∧
    (∀ c ∈ ds, c.isDigit = true) ∧ ∀ c ∈ rest.head?, c.isDigit = false := by
  refine ⟨cs.takeWhile Char.isDigit, cs.dropWhile Char.isDigit,
    List.takeWhile_append_dropWhile.symm, fun c hc => List.mem_takeWhile_imp hc, fun c hc => ?_⟩
  have := List.head?_dropWhile_not Char.isDigit cs
  rw [Option.mem_def.mp hc] at this
  simpa using this

/-- **Texts of decimals.** The digits before the point are the longest run of digits, and so are
those behind it, since nothing else that may follow is a digit. -/
theorem readDecimal_eq_some {cs : List Char} {d : Decimal} :
    readDecimal cs = some d ↔ DecimalText cs d := by
  constructor
  · intro h
    obtain ⟨ds, rest, rfl, hds, hrest⟩ := exists_leading_digits cs
    -- Behind the leading digits stands a point, or no decimal goes on.
    by_cases hpoint : ∃ r, rest = '.' :: r
    · obtain ⟨r, rfl⟩ := hpoint
      obtain ⟨places, tail, rfl, hplaces, htail⟩ := exists_leading_digits r
      rw [readDecimal_pointed hds hplaces htail] at h
      split at h
      · cases h
      next hne =>
        obtain ⟨e, he, rfl⟩ := Option.map_eq_some_iff.mp h
        refine .pointed ?_ ?_ (readExponent_eq_some.mp he)
        · simpa [imp_iff_not_or] using hne
        · exact List.forall_mem_append.mpr ⟨hds, hplaces⟩
    · have htail : ∀ c ∈ rest.head?, c.isDigit = false ∧ c ≠ '.' := by
        refine fun c hc => ⟨hrest c hc, ?_⟩
        rintro rfl
        exact hpoint (List.head?_eq_some_iff.mp hc)
      rw [readDecimal_whole hds htail] at h
      split at h
      · cases h
      next hne =>
        obtain ⟨e, he, rfl⟩ := Option.map_eq_some_iff.mp h
        exact .whole (by simpa using hne) hds (readExponent_eq_some.mp he)
  · rintro (⟨hne, hdigits, htail⟩ | ⟨hne, hdigits, htail⟩)
    · rw [readDecimal_whole hdigits htail.head_ne, if_neg (by simpa using hne),
        readExponent_eq_some.mpr htail]
      rfl
    · obtain ⟨hds, hplaces⟩ := List.forall_mem_append.mp hdigits
      rw [readDecimal_pointed hds hplaces fun c hc => (htail.head_ne c hc).1,
        if_neg (by simpa [imp_iff_not_or] using hne), readExponent_eq_some.mpr htail]
      rfl

/-! ### Signs and words -/

/-- A decimal begins with a digit or with the point. -/
theorem DecimalText.exists_cons {cs : List Char} {d : Decimal} (h : DecimalText cs d) :
    ∃ c rest, cs = c :: rest ∧ (c.isDigit = true ∨ c = '.') := by
  rcases h with ⟨hne, hdigits, -⟩ | ⟨-, hdigits, -⟩
  next ds tail e =>
    obtain ⟨c, ds, rfl⟩ := List.exists_cons_of_ne_nil hne
    exact ⟨c, ds ++ tail, rfl, .inl (hdigits c List.mem_cons_self)⟩
  next ds places tail e =>
    cases ds with
    | nil => exact ⟨'.', places ++ tail, rfl, .inr rfl⟩
    | cons c ds => exact ⟨c, _, rfl, .inl (hdigits c (by simp))⟩

theorem toLower_of_isDigit {c : Char} (h : c.isDigit = true) : c.toLower = c := by
  have hnine : c.val ≤ '9'.val := by
    rw [Char.isDigit, Bool.and_eq_true] at h
    exact of_decide_eq_true h.2
  exact dif_neg fun hupper => absurd (UInt32.le_trans hupper.1 hnine) (by decide)

/-- Words begin with a letter. -/
theorem exists_cons_of_word {cs : List Char} {w : String}
    (h : String.ofList (cs.map Char.toLower) = w)
    (hw : w.toList.head? = some 'i' ∨ w.toList.head? = some 'n') :
    ∃ c rest, cs = c :: rest ∧ (c.toLower = 'i' ∨ c.toLower = 'n') := by
  rw [← h, String.toList_ofList, List.head?_map] at hw
  cases cs with
  | nil => simp at hw
  | cons c rest => exact ⟨c, rest, rfl, by simpa using hw⟩

/-- A word is no decimal, since a letter is neither a digit nor the point. -/
theorem readDecimal_of_word {cs : List Char} {w : String}
    (h : String.ofList (cs.map Char.toLower) = w)
    (hw : w.toList.head? = some 'i' ∨ w.toList.head? = some 'n') : readDecimal cs = none := by
  rw [Option.eq_none_iff_forall_ne_some]
  intro d hd
  obtain ⟨c, rest, rfl, hletter⟩ := exists_cons_of_word h hw
  obtain ⟨c', rest', heq, hc⟩ := (readDecimal_eq_some.mp hd).exists_cons
  obtain rfl := (List.cons.inj heq).1
  rcases hc with hdigit | rfl
  · rw [toLower_of_isDigit hdigit] at hletter
    rcases hletter with rfl | rfl <;> exact absurd hdigit (by decide)
  · exact absurd hletter (by decide)

/-- No sign comes first. -/
theorem SizeText.head_ne {cs : List Char} {x : Double} (h : SizeText cs x) :
    ∃ c rest, cs = c :: rest ∧ c ≠ '+' ∧ c ≠ '-' := by
  have hword : ∀ w, String.ofList (cs.map Char.toLower) = w →
      (w.toList.head? = some 'i' ∨ w.toList.head? = some 'n') →
      ∃ c rest, cs = c :: rest ∧ c ≠ '+' ∧ c ≠ '-' := by
    intro w hw hhead
    obtain ⟨c, rest, rfl, hletter⟩ := exists_cons_of_word hw hhead
    refine ⟨c, rest, rfl, ?_, ?_⟩ <;> rintro rfl <;> exact absurd hletter (by decide)
  rcases h with hdecimal | hw | hw
  · obtain ⟨c, rest, rfl, hdigit | rfl⟩ := hdecimal.exists_cons
    · exact ⟨c, rest, rfl, ne_sign_of_isDigit hdigit⟩
    · exact ⟨'.', rest, rfl, by decide, by decide⟩
  · rcases hw with hw | hw <;> exact hword _ hw (.inl (by decide))
  · exact hword _ hw (.inr (by decide))

/-- **Texts of numbers** without a sign. -/
theorem readSize_eq_ok {cs : List Char} {x : Double} : readSize cs = .ok x ↔ SizeText cs x := by
  constructor
  · intro h
    unfold readSize at h
    split at h
    next d _ hd =>
      obtain rfl := Except.ok.inj h
      exact .decimal (readDecimal_eq_some.mp hd)
    next hword =>
      obtain rfl := Except.ok.inj h
      unfold wordValue at hword
      dsimp only at hword
      split_ifs at hword with hinfinity hundefined
      · obtain rfl := Option.some.inj hword
        exact .infinity hinfinity
      · obtain rfl := Option.some.inj hword
        exact .undefined hundefined
    next => cases h
  · -- A word is tried only where there is no decimal, and no word is one.
    rintro (hdecimal | hw | hw)
    · rw [readSize, readDecimal_eq_some.mpr hdecimal]
    · have hnone : readDecimal cs = none := by
        rcases hw with hw | hw <;> exact readDecimal_of_word hw (.inl (by decide))
      rw [readSize, hnone, wordValue, if_pos hw]
    · rw [readSize, readDecimal_of_word hw (.inr (by decide)), wordValue,
        if_neg (by rw [hw]; decide), if_pos hw]

/-- **Texts of decimal numbers**: a sign that may be left out, and behind it a decimal or one of the
words for infinity and for what is no number, in letters of either case. A minus sets the sign bit,
and that of a zero as well. -/
theorem readReal_eq_ok {cs : List Char} {x : Double} : readReal cs = .ok x ↔
    ∃ negative unsigned y, Signed negative cs unsigned ∧ SizeText unsigned y ∧
      x = if negative then y.negate else y := by
  constructor
  · intro h
    unfold readReal at h
    split at h
    next => cases h
    next rest =>
      obtain ⟨y, hy, rfl⟩ := map_eq_ok.mp h
      exact ⟨true, rest, y, rfl, readSize_eq_ok.mp hy, rfl⟩
    next rest => exact ⟨false, rest, x, .inr rfl, readSize_eq_ok.mp h, rfl⟩
    next => exact ⟨false, cs, x, .inl rfl, readSize_eq_ok.mp h, rfl⟩
  · rintro ⟨negative, unsigned, y, hsign, hsize, rfl⟩
    have hread := readSize_eq_ok.mpr hsize
    cases negative with
    | true =>
      obtain rfl : cs = '-' :: unsigned := hsign
      change (readSize unsigned).map Double.negate = _
      rw [hread]
      rfl
    | false =>
      rcases hsign with rfl | rfl
      · -- What is read begins with no sign, so none is taken off it.
        obtain ⟨c, rest, rfl, hplus, hminus⟩ := hsize.head_ne
        unfold readReal
        split
        next heq => cases heq
        next heq => exact absurd (List.cons.inj heq).1 hminus
        next heq => exact absurd (List.cons.inj heq).1 hplus
        next => exact hread
      · exact hread

end PinnedBench
