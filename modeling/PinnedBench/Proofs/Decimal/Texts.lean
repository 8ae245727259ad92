import PinnedBench.Proofs.Decimal.Shortest
import PinnedBench.Proofs.Outcomes
import PinnedBench.Text.Numeral

/-!
# Numbers read back from their texts

A finite number is read back from the numeral that a document holds of it
(`Double.toDouble_numeral`), and every number that is one, an infinite one included, from its text
in a results table (`Double.readReal_chars`). Both texts are made of the shortest decimal, which
lies in the interval of the number, and lose nothing of its value: a whole number may gain a place
behind the point.

Documents are stricter about numbers than plain texts are. So a text that is a numeral of a document
is a decimal of the same digits in plain text (`readDecimal_of_readUnsigned`), and how decimals are
written has to be taken apart only once, for documents.
-/

namespace PinnedBench

namespace Json

/-! ### Values of numerals -/

/-- The decimal that a numeral writes behind its sign. -/
def Numeral.decimal (n : Numeral) : Decimal := ⟨n.digits, n.exponent⟩

/-- A place behind the point of a whole number does not change its value. -/
theorem value_place {d : Decimal} (h : 0 ≤ d.exponent) :
    (⟨d.digits * 10 ^ (d.exponent.toNat + 1), -1⟩ : Decimal).value = d.value := by
  obtain ⟨digits, exponent⟩ := d
  obtain ⟨k, rfl⟩ := Int.eq_ofNat_of_zero_le h
  simp only [Decimal.value, Int.toNat_natCast, zpow_natCast, zpow_neg_one]
  push_cast
  rw [pow_succ]
  ring

variable {d : Decimal}

theorem decimalNumeral_digits_ne_zero (negative : Bool) (hd : d.digits ≠ 0) :
    (decimalNumeral negative d).decimal.digits ≠ 0 := by
  rw [decimalNumeral]
  split
  · exact Nat.mul_ne_zero hd (pow_ne_zero _ (by decide))
  · exact hd

/-- A numeral has the value of its decimal, with the place behind the point or without it. -/
theorem value_decimalNumeral (negative : Bool) (d : Decimal) :
    (decimalNumeral negative d).decimal.value = d.value := by
  rw [decimalNumeral]
  split
  next h => exact value_place h.2
  next => rfl

/-- **A decimal in a style with points** is a numeral of the same value. -/
theorem exists_readUnsigned_decimalChars {s : NumberStyle} (hs : s.pointed = true) (negative : Bool)
    (hd : d.digits ≠ 0) : ∃ n, readUnsigned negative (s.decimalChars d) = .ok (n, []) ∧
      n.decimal.digits ≠ 0 ∧ n.decimal.value = d.value := by
  have hpositional := readUnsigned_positionalChars hs negative hd endsNumber_nil
  have hexponent := readUnsigned_exponentChars s negative hd endsNumber_nil
  rw [List.append_nil] at hpositional hexponent
  rw [NumberStyle.decimalChars]
  -- A decimal is written out or with an exponent.
  split
  · rw [hpositional]
    split
    next h =>
      exact ⟨_, rfl, Nat.mul_ne_zero hd (pow_ne_zero _ (by decide)), value_place h⟩
    next => exact ⟨_, rfl, hd, rfl⟩
  · exact ⟨_, hexponent, hd, rfl⟩

/-! ### Numerals in plain text -/

theorem digitsValue_eq (cs : List Char) : digitsValue cs = valueOf cs := rfl

/-- The digits before the point of a numeral: all there are, and at least one. -/
theorem readWholePart_eq_ok {cs ds rest : List Char} (h : readWholePart cs = .ok (ds, rest)) :
    cs.takeWhile Char.isDigit = ds ∧ cs.dropWhile Char.isDigit = rest ∧ ds ≠ [] := by
  unfold readWholePart at h
  split at h
  · cases h
  · cases h
  next hne _ =>
    obtain ⟨rfl, rfl⟩ := Prod.mk.inj (Except.ok.inj h)
    exact ⟨rfl, rfl, hne⟩

/-- The digits behind the point, or no point at all. -/
theorem readPlaces_eq_ok {cs rest : List Char} {places : Option (List Char)}
    (h : readPlaces cs = .ok (places, rest)) :
    (∃ r, cs = '.' :: r ∧ places = some (r.takeWhile Char.isDigit) ∧
      rest = r.dropWhile Char.isDigit) ∨
    ((∀ r, cs ≠ '.' :: r) ∧ places = none ∧ rest = cs) := by
  unfold readPlaces at h
  split at h
  next r =>
    cases hds : r.takeWhile Char.isDigit with
    | nil => simp [hds] at h
    | cons c ds =>
      simp only [hds, Except.ok.injEq, Prod.mk.injEq] at h
      exact .inl ⟨r, rfl, h.1.symm.trans (congrArg some hds.symm), h.2.symm⟩
  next hne =>
    obtain ⟨rfl, rfl⟩ := Prod.mk.inj (Except.ok.inj h)
    exact .inr ⟨hne, rfl, rfl⟩

/-- The digits of an exponent that ends its text. -/
theorem readExponentDigits_eq_ok {negative : Bool} {cs : List Char} {exponent : Option Int}
    (h : readExponentDigits negative cs = .ok (exponent, [])) :
    (cs.isEmpty || !cs.all Char.isDigit) = false ∧
      exponent = some (if negative then -(valueOf cs : Int) else valueOf cs) := by
  unfold readExponentDigits at h
  split at h
  · cases h
  next ds hne =>
    obtain ⟨rfl, hrest⟩ := Prod.mk.inj (Except.ok.inj h)
    have hall : cs.takeWhile Char.isDigit = cs := by
      have happend := List.takeWhile_append_dropWhile (p := Char.isDigit) (l := cs)
      rwa [hrest, List.append_nil] at happend
    rw [hall] at hne ⊢
    have hdigits : cs.all Char.isDigit = true :=
      List.all_eq_true.mpr (List.takeWhile_eq_self_iff.mp hall)
    refine ⟨?_, rfl⟩
    rw [hdigits, Bool.not_true, Bool.or_false, List.isEmpty_eq_false_iff]
    exact hne

/-- An exponent that ends a numeral is one in plain text; without one it is zero. -/
theorem readExponent_eq_ok {cs : List Char} {exponent : Option Int}
    (h : readExponent cs = .ok (exponent, [])) :
    PinnedBench.readExponent cs = some (exponent.getD 0) := by
  unfold readExponent at h
  split at h
  next c rest =>
    split at h
    next hletter =>
      unfold PinnedBench.readExponent
      simp only [if_pos hletter]
      split at h
      -- In all three cases, with a sign of either kind or with none, the digits are read alike.
      all_goals
        obtain ⟨hdigits, rfl⟩ := readExponentDigits_eq_ok h
        simp [takeSign, hdigits, digitsValue_eq]
    next => simp at h
  next =>
    cases h
    rfl

/-- **A numeral of a document** is a decimal of the same digits in plain text. -/
theorem readDecimal_of_readUnsigned {negative : Bool} {cs : List Char} {n : Numeral}
    (h : readUnsigned negative cs = .ok (n, [])) : readDecimal cs = some n.decimal := by
  unfold readUnsigned at h
  obtain ⟨⟨ds, r₁⟩, h₁, h⟩ := bind_eq_ok.mp h
  obtain ⟨⟨places, r₂⟩, h₂, h⟩ := bind_eq_ok.mp h
  obtain ⟨⟨exponent, r₃⟩, h₃, h⟩ := bind_eq_ok.mp h
  obtain ⟨rfl, rfl⟩ := Prod.mk.inj (Except.ok.inj h)
  obtain ⟨hds, hr₁, hne⟩ := readWholePart_eq_ok h₁
  have hexponent := readExponent_eq_ok h₃
  have hwhole : ds.isEmpty = false := List.isEmpty_eq_false_iff.mpr hne
  -- From here on plain text is read in the same three steps, and in each of them with more freedom.
  unfold readDecimal
  simp only [hds, hr₁, hwhole, Bool.false_and, Bool.false_eq_true, if_false]
  rcases readPlaces_eq_ok h₂ with ⟨r, rfl, rfl, rfl⟩ | ⟨hpoint, rfl, rfl⟩
  · simp only [hexponent]
    rfl
  · split
    · exact absurd rfl (hpoint _)
    · rw [hexponent]
      rfl

/-- A numeral with its sign is read from plain text as the number nearest to it. -/
theorem readReal_signedChars {negative : Bool} {cs : List Char} {n : Numeral}
    (h : readUnsigned negative cs = .ok (n, [])) :
    readReal (signedChars negative cs) = .ok (n.decimal.toDouble negative) := by
  have hsize : readSize cs = .ok n.decimal.nearest := by
    rw [readSize, readDecimal_of_readUnsigned h]
  cases negative with
  | true =>
    change (readSize cs).map Double.negate = _
    rw [hsize]
    rfl
  | false =>
    -- A numeral starts with a digit, so it is not taken for a sign.
    obtain ⟨c, rest, rfl, hc⟩ := head?_of_readUnsigned h
    change readReal (c :: rest) = _
    unfold readReal
    split
    next heq => exact absurd heq (by simp)
    next heq => exact absurd ((List.cons.inj heq).1 ▸ hc) (by decide)
    next heq => exact absurd ((List.cons.inj heq).1 ▸ hc) (by decide)
    next => exact hsize

end Json

namespace Double

variable {x : Double}

/-! ### Finite numbers in documents -/

/-- **A finite number** is read back from the numeral that a document holds of it. -/
theorem toDouble_numeral (hfinite : x.isFinite = true) : x.numeral.toDouble = .ok x := by
  have hx : Decimal.toDouble x.numeral.negative x.numeral.decimal = x := by
    rw [numeral]
    split
    next hzero => exact toDouble_of_isZero hzero rfl
    next hzero =>
      have hzero := Bool.eq_false_iff.mpr hzero
      have hnegative : (Json.decimalNumeral x.isNegative (x.shortest .toEven)).negative =
          x.isNegative := by
        rw [Json.decimalNumeral]
        split <;> rfl
      rw [hnegative]
      apply toDouble_eq hfinite hzero
      · exact Json.decimalNumeral_digits_ne_zero _ (shortest_digits_ne_zero hzero .toEven)
      · rw [Json.value_decimalNumeral]
        exact covers_shortest hzero .toEven
  unfold Json.Numeral.toDouble
  change (if (Decimal.toDouble x.numeral.negative x.numeral.decimal).isFinite then
    Except.ok (Decimal.toDouble x.numeral.negative x.numeral.decimal) else _) = _
  rw [hx, if_pos hfinite]

/-! ### Numbers in plain text -/

/-- The text of a number is its sign and the text of its magnitude. -/
theorem chars_of_defined (hdefined : x.isUndefined = false) (s : NumberStyle) :
    s.chars x = Json.signedChars x.isNegative
      (if !x.isFinite then ['i', 'n', 'f']
        else if x.isZero then (if s.pointed then "0.0" else "0").toList
        else s.decimalChars (x.shortest s.tie)) := by
  rw [NumberStyle.chars, hdefined]
  rfl

/-- A number that is not finite is infinite: there are only two patterns of it. -/
theorem magnitude_of_infinite (hdefined : x.isUndefined = false) (hinfinite : x.isFinite = false) :
    Analysis.magnitude x = infinity := by
  have hlarge : 2047 ≤ x.exponentField := by
    rw [isFinite, decide_eq_false_iff_not] at hinfinite
    omega
  have hbound : x.unsigned ≤ 0x7fffffffffffffff := by
    unfold unsigned
    rw [UInt64.toNat_and]
    exact Nat.and_le_right
  have hleading : powerOfTwo 52 = 2 ^ 52 := rfl
  unfold isUndefined at hdefined
  unfold exponentField at hlarge hdefined
  unfold fractionField at hdefined
  rw [hleading] at hlarge hdefined
  -- The exponent is the largest one, and a number has no fraction with it.
  have hexponent : x.unsigned / 2 ^ 52 = 2047 := by omega
  have hfraction : x.unsigned % 2 ^ 52 = 0 := by
    rw [hexponent] at hdefined
    simpa using hdefined
  have hunsigned : x.unsigned = 0x7ff0000000000000 := by omega
  exact congrArg Double.mk (UInt64.toNat_inj.mp hunsigned)

/-- **Every number that is one** is read back from its text in a results table. -/
theorem readReal_chars (hdefined : x.isUndefined = false) :
    readReal (NumberStyle.table.chars x) = .ok x := by
  rw [chars_of_defined hdefined]
  cases hfinite : x.isFinite with
  | false =>
    -- There are two of them, and both are read by their names.
    have hx := x.signed_magnitude
    rw [magnitude_of_infinite hdefined hfinite] at hx
    cases hnegative : x.isNegative <;> rw [hnegative] at hx <;> rw [← hx] <;> rfl
  | true =>
    cases hzero : x.isZero with
    | true =>
      have hread : Json.readUnsigned x.isNegative ['0', '.', '0'] =
          .ok (⟨x.isNegative, 0, -1, false⟩, []) := rfl
      exact (Json.readReal_signedChars hread).trans
        (congrArg Except.ok (toDouble_of_isZero hzero rfl))
    | false =>
      obtain ⟨n, hread, hdigits, hvalue⟩ := Json.exists_readUnsigned_decimalChars
        (s := .table) rfl x.isNegative (shortest_digits_ne_zero hzero .up)
      have hcovers : x.Covers n.decimal.value := hvalue ▸ covers_shortest hzero .up
      exact (Json.readReal_signedChars hread).trans
        (congrArg Except.ok (toDouble_eq hfinite hzero hdigits hcovers))

end Double

end PinnedBench
