import Mathlib.Tactic.Ring
import PinnedBench.Json.Printer

/-!
# Numbers of JSON documents

A number that is written into a document is read back as the numeral that was written, whatever
follows it in the document, provided that what follows cannot be taken for more of the number
(`EndsNumber`). Whole numbers are read back with their value (`readNumber_integerChars`), and finite
doubles with the digits and the scale of the shortest decimal (`readNumber_double`).

A numeral needs a digit before the point and no zero before other digits. For doubles this comes
down to the shortest decimal having digits at all (`Double.shortest_digits_ne_zero`): every point of
a grid that is read as a positive number is positive, and the last resort of the search is the
neighbour of a value that is not below the grid.
-/

namespace PinnedBench

namespace Json

/-! ### Runs of digits -/

/-- What follows a number: nothing that could belong to it. -/
def EndsNumber (rest : List Char) : Prop :=
  ∀ c ∈ rest.head?, c.isDigit = false ∧ c ≠ '.' ∧ c ≠ 'e' ∧ c ≠ 'E'

theorem endsNumber_nil : EndsNumber [] := by
  intro c hc
  simp at hc

/-- A character that is no part of a number ends it. -/
theorem endsNumber_cons {c : Char} {rest : List Char}
    (h : c.isDigit = false ∧ c ≠ '.' ∧ c ≠ 'e' ∧ c ≠ 'E') : EndsNumber (c :: rest) := by
  intro c' hc'
  rw [List.head?_cons, Option.mem_some_iff] at hc'
  exact hc' ▸ h

/-- A run of digits is taken whole. -/
theorem takeWhile_digits {ds rest : List Char} (hds : ∀ c ∈ ds, c.isDigit = true)
    (hrest : ∀ c ∈ rest.head?, c.isDigit = false) :
    (ds ++ rest).takeWhile Char.isDigit = ds := by
  rw [List.takeWhile_append_of_pos hds]
  cases rest with
  | nil => rw [List.takeWhile_nil, List.append_nil]
  | cons c rest =>
    rw [List.takeWhile_cons_of_neg (by simp [hrest c rfl]), List.append_nil]

/-- And what follows it is left. -/
theorem dropWhile_digits {ds rest : List Char} (hds : ∀ c ∈ ds, c.isDigit = true)
    (hrest : ∀ c ∈ rest.head?, c.isDigit = false) :
    (ds ++ rest).dropWhile Char.isDigit = rest := by
  rw [List.dropWhile_append_of_pos hds]
  cases rest with
  | nil => rw [List.dropWhile_nil]
  | cons c rest => rw [List.dropWhile_cons_of_neg (by simp [hrest c rfl])]

theorem isDigit_of_mem_digitChars {n : Nat} {c : Char} (h : c ∈ Nat.toDigits 10 n) :
    c.isDigit = true :=
  Nat.isDigit_of_mem_toDigits (by decide) (by decide) h

/-- The value of digits is the library's, so that its lemmas on powers of ten apply. -/
theorem valueOf_eq (ds : List Char) : valueOf ds = Nat.ofDigitChars 10 ds 0 := rfl

/-- The digits of a positive number do not begin with a zero. -/
theorem head?_toDigits_ne {n : Nat} (h : n ≠ 0) : (Nat.toDigits 10 n).head? ≠ some '0' := by
  induction n using Nat.strongRecOn with
  | ind n ih =>
    by_cases hn : n < 10
    · rw [Nat.toDigits_of_lt_base hn]
      have hsmall : ∀ n < 10, n ≠ 0 → [n.digitChar].head? ≠ some '0' := by decide
      exact hsmall n hn h
    · have hfirst := ih (n / 10) (by omega) (by omega)
      obtain ⟨c, cs, hcs⟩ :=
        List.exists_cons_of_ne_nil (Nat.toDigits_ne_nil (n := n / 10) (b := 10))
      rw [Nat.toDigits_of_base_le (by decide) (Nat.not_lt.mp hn), hcs, List.cons_append]
      rwa [hcs] at hfirst

/-! ### Parts of a number -/

/-- Digits that may stand before the point. -/
structure IsWholePart (ds : List Char) : Prop where
  /-- They are digits. -/
  isDigit : ∀ c ∈ ds, c.isDigit = true
  /-- There is one. -/
  ne_nil : ds ≠ []
  /-- Only a zero that stands alone comes first. -/
  eq_zero : ds.head? = some '0' → ds = ['0']

/-- A zero alone. -/
theorem isWholePart_zero : IsWholePart ['0'] := by
  refine ⟨?_, by simp, fun _ => rfl⟩
  intro c hc
  rw [List.mem_singleton.mp hc]
  decide

/-- The digits of any number: only that of zero begin with a zero, and it stands alone. -/
theorem isWholePart_toDigits (n : Nat) : IsWholePart (Nat.toDigits 10 n) := by
  refine ⟨fun c => isDigit_of_mem_digitChars, Nat.toDigits_ne_nil, fun h => ?_⟩
  by_cases hn : n = 0
  · rw [hn, Nat.toDigits_zero]
  · exact absurd h (head?_toDigits_ne hn)

/-- The part before the point is read up to the first character that is no digit. -/
theorem readWholePart_append {ds rest : List Char} (hds : IsWholePart ds)
    (hrest : ∀ c ∈ rest.head?, c.isDigit = false) :
    readWholePart (ds ++ rest) = .ok (ds, rest) := by
  rw [readWholePart, takeWhile_digits hds.isDigit hrest, dropWhile_digits hds.isDigit hrest]
  match ds, hds with
  | [], hds => exact absurd rfl hds.ne_nil
  | [c], _ => by_cases hc : c = '0' <;> simp
  | c :: c' :: cs, hds =>
    have hc : c ≠ '0' := by
      rintro rfl
      have := hds.eq_zero rfl
      simp at this
    simp [hc]

theorem readPlaces_of_ne {rest : List Char} (h : ∀ c ∈ rest.head?, c ≠ '.') :
    readPlaces rest = .ok (none, rest) := by
  unfold readPlaces
  split
  · exact absurd rfl (h '.' rfl)
  · rfl

/-- The digits behind a point are read up to the first character that is none. -/
theorem readPlaces_point {ds rest : List Char} (hds : ∀ c ∈ ds, c.isDigit = true) (hne : ds ≠ [])
    (hrest : ∀ c ∈ rest.head?, c.isDigit = false) :
    readPlaces ('.' :: (ds ++ rest)) = .ok (some ds, rest) := by
  rw [readPlaces, takeWhile_digits hds hrest, dropWhile_digits hds hrest]
  cases ds with
  | nil => exact absurd rfl hne
  | cons c cs => rfl

/-- Without its letter there is no exponent. -/
theorem readExponent_of_ne {rest : List Char} (h : ∀ c ∈ rest.head?, c ≠ 'e' ∧ c ≠ 'E') :
    readExponent rest = .ok (none, rest) := by
  cases rest with
  | nil => rfl
  | cons c rest =>
    obtain ⟨h1, h2⟩ := h c rfl
    unfold readExponent
    simp only [h1, h2, or_self, if_false]

/-- The digits of an exponent are read with the sign that came before them. -/
theorem readExponentDigits_append {ds rest : List Char} (hds : ∀ c ∈ ds, c.isDigit = true)
    (hne : ds ≠ []) (hrest : ∀ c ∈ rest.head?, c.isDigit = false) (negative : Bool) :
    readExponentDigits negative (ds ++ rest) =
      .ok (some (if negative then -(valueOf ds : Int) else valueOf ds), rest) := by
  rw [readExponentDigits, takeWhile_digits hds hrest, dropWhile_digits hds hrest]
  cases ds with
  | nil => exact absurd rfl hne
  | cons c cs => rfl

/-- The sign of an exponent as it is written. -/
def exponentSign (signed : Bool) (e : Int) : List Char :=
  if e < 0 then ['-'] else if signed then ['+'] else []

/-- An exponent with its sign, or without one if none is written. -/
theorem readExponent_sign (signed : Bool) (e : Int) {rest : List Char}
    (hrest : ∀ c ∈ rest.head?, c.isDigit = false) :
    readExponent ('e' :: (exponentSign signed e ++ (Nat.toDigits 10 e.natAbs ++ rest))) =
      .ok (some e, rest) := by
  have hds : ∀ c ∈ Nat.toDigits 10 e.natAbs, c.isDigit = true := fun c => isDigit_of_mem_digitChars
  have hvalue : valueOf (Nat.toDigits 10 e.natAbs) = e.natAbs := Nat.ofDigitChars_ten_toDigits
  have hdigits (negative : Bool) (hsign : negative = decide (e < 0)) :
      readExponentDigits negative (Nat.toDigits 10 e.natAbs ++ rest) = .ok (some e, rest) := by
    rw [readExponentDigits_append hds Nat.toDigits_ne_nil hrest, hvalue, hsign]
    congr
    simp only [decide_eq_true_eq]
    split <;> omega
  unfold readExponent exponentSign
  simp only [true_or, if_true]
  by_cases he : e < 0
  · rw [if_pos he]
    exact hdigits true (decide_eq_true he).symm
  · rw [if_neg he]
    have hsign : false = decide (e < 0) := (decide_eq_false he).symm
    cases signed with
    | true => exact hdigits false hsign
    | false =>
      -- The first digit is taken for no sign.
      obtain ⟨c, cs, hcs⟩ :=
        List.exists_cons_of_ne_nil (Nat.toDigits_ne_nil (n := e.natAbs) (b := 10))
      have hc : c.isDigit = true := hds c (hcs ▸ List.mem_cons_self)
      have hread := hdigits false hsign
      rw [hcs] at hread ⊢
      simp only [Bool.false_eq_true, if_false, List.nil_append, List.cons_append] at hread ⊢
      split
      next heq => exact absurd ((List.cons.inj heq).1 ▸ hc) (by decide)
      next heq => exact absurd ((List.cons.inj heq).1 ▸ hc) (by decide)
      next => exact hread

/-! ### Whole numbers -/

/-- A number with its sign, if it has one. -/
def signedChars (negative : Bool) (cs : List Char) : List Char := if negative then '-' :: cs else cs

/-- A number without its sign begins with a digit. -/
theorem head?_of_readUnsigned {negative : Bool} {cs : List Char} {r : Numeral × List Char}
    (h : readUnsigned negative cs = .ok r) : ∃ c rest, cs = c :: rest ∧ c.isDigit = true := by
  match cs with
  | [] => simp [readUnsigned, readWholePart, bind, Except.bind] at h
  | c :: rest =>
    refine ⟨c, rest, rfl, ?_⟩
    by_contra hc
    simp [readUnsigned, readWholePart, List.takeWhile_cons_of_neg hc, bind, Except.bind] at h

/-- The sign of a number is read before its digits. -/
theorem readNumber_signed {negative : Bool} {cs : List Char} {r : Numeral × List Char}
    (h : readUnsigned negative cs = .ok r) : readNumber (signedChars negative cs) = .ok r := by
  cases negative with
  | true => exact h
  | false =>
    obtain ⟨c, rest, rfl, hc⟩ := head?_of_readUnsigned h
    change readNumber (c :: rest) = _
    unfold readNumber
    split
    next heq =>
      rw [(List.cons.inj heq).1] at hc
      exact absurd hc (by decide)
    next => exact h

/-- A number begins with a minus sign or a digit. -/
theorem head?_of_readNumber {cs : List Char} {r : Numeral × List Char}
    (h : readNumber cs = .ok r) : ∃ c rest, cs = c :: rest ∧ (c = '-' ∨ c.isDigit = true) := by
  unfold readNumber at h
  split at h
  next rest => exact ⟨'-', rest, rfl, .inl rfl⟩
  next =>
    obtain ⟨c, rest, rfl, hc⟩ := head?_of_readUnsigned h
    exact ⟨c, rest, rfl, .inr hc⟩

/-- The three parts of a number, one after the other. -/
theorem readUnsigned_parts (negative : Bool) {cs ds r₁ r₂ r₃ : List Char}
    {places : Option (List Char)} {exponent : Option Int} (h₁ : readWholePart cs = .ok (ds, r₁))
    (h₂ : readPlaces r₁ = .ok (places, r₂)) (h₃ : readExponent r₂ = .ok (exponent, r₃)) :
    readUnsigned negative cs =
      .ok (⟨negative, valueOf (ds ++ places.getD []), exponent.getD 0 - (places.getD []).length,
        places.isNone && exponent.isNone⟩, r₃) := by
  simp only [readUnsigned, h₁, h₂, h₃, bind, Except.bind]

/-- A number without places and exponent. -/
theorem readUnsigned_whole (negative : Bool) {ds rest : List Char} (hds : IsWholePart ds)
    (hrest : EndsNumber rest) :
    readUnsigned negative (ds ++ rest) = .ok (⟨negative, valueOf ds, 0, true⟩, rest) := by
  rw [readUnsigned_parts negative (readWholePart_append hds fun c hc => (hrest c hc).1)
    (readPlaces_of_ne fun c hc => (hrest c hc).2.1)
    (readExponent_of_ne fun c hc => (hrest c hc).2.2)]
  simp

/-- The numeral that a whole number is written as. -/
def integerNumeral (n : Int) : Numeral := ⟨decide (n < 0), n.natAbs, 0, true⟩

/-- A whole number is its sign and the digits of its magnitude. -/
theorem integerChars_eq (n : Int) :
    integerChars n = signedChars (decide (n < 0)) (Nat.toDigits 10 n.natAbs) := by
  by_cases hn : n < 0 <;> simp [integerChars, signedChars, hn]

theorem signedChars_append (negative : Bool) (cs rest : List Char) :
    signedChars negative cs ++ rest = signedChars negative (cs ++ rest) := by
  cases negative <;> rfl

/-- **A whole number** is read back with its value. -/
theorem readNumber_integerChars (n : Int) {rest : List Char} (hrest : EndsNumber rest) :
    readNumber (integerChars n ++ rest) = .ok (integerNumeral n, rest) := by
  rw [integerChars_eq, signedChars_append]
  refine readNumber_signed ?_
  rw [readUnsigned_whole _ (isWholePart_toDigits n.natAbs) hrest, valueOf_eq,
    Nat.ofDigitChars_ten_toDigits]
  rfl

/-! ### Numbers with places and exponents -/

/-- A number with places, but without an exponent. -/
theorem readUnsigned_places (negative : Bool) {ds ps rest : List Char} (hds : IsWholePart ds)
    (hps : ∀ c ∈ ps, c.isDigit = true) (hne : ps ≠ []) (hrest : EndsNumber rest) :
    readUnsigned negative (ds ++ '.' :: (ps ++ rest)) =
      .ok (⟨negative, valueOf (ds ++ ps), -ps.length, false⟩, rest) := by
  rw [readUnsigned_parts negative (readWholePart_append hds (by simp))
    (readPlaces_point hps hne fun c hc => (hrest c hc).1)
    (readExponent_of_ne fun c hc => (hrest c hc).2.2)]
  simp

/-- A number with an exponent, but without places. -/
theorem readUnsigned_exponent (negative : Bool) {ds rest : List Char} (hds : IsWholePart ds)
    (signed : Bool) (e : Int) (hrest : EndsNumber rest) :
    readUnsigned negative
        (ds ++ 'e' :: (exponentSign signed e ++ (Nat.toDigits 10 e.natAbs ++ rest))) =
      .ok (⟨negative, valueOf ds, e, false⟩, rest) := by
  rw [readUnsigned_parts negative (readWholePart_append hds (by simp))
    (readPlaces_of_ne (by simp)) (readExponent_sign signed e fun c hc => (hrest c hc).1)]
  simp

/-- A number with both. -/
theorem readUnsigned_places_exponent (negative : Bool) {ds ps rest : List Char}
    (hds : IsWholePart ds) (hps : ∀ c ∈ ps, c.isDigit = true) (hne : ps ≠ []) (signed : Bool)
    (e : Int) (hrest : EndsNumber rest) :
    readUnsigned negative (ds ++ '.' ::
        (ps ++ 'e' :: (exponentSign signed e ++ (Nat.toDigits 10 e.natAbs ++ rest)))) =
      .ok (⟨negative, valueOf (ds ++ ps), e - ps.length, false⟩, rest) := by
  rw [readUnsigned_parts negative (readWholePart_append hds (by simp))
    (readPlaces_point hps hne (by simp)) (readExponent_sign signed e fun c hc => (hrest c hc).1)]
  simp

/-! ### Decimals -/

/-- The numeral that a decimal is written as. A whole number that is written without an exponent has
one place behind the point. -/
def decimalNumeral (negative : Bool) (d : Decimal) : Numeral :=
  if NumberStyle.json.positional (d.exponent + (Nat.toDigits 10 d.digits).length - 1) ∧
      0 ≤ d.exponent then
    ⟨negative, d.digits * 10 ^ (d.exponent.toNat + 1), -1, false⟩
  else ⟨negative, d.digits, d.exponent, false⟩

/-- Digits that begin with those of a positive number may stand before the point. -/
theorem isWholePart_of_head? {n : Nat} (hn : n ≠ 0) {ds : List Char}
    (hds : ∀ c ∈ ds, c.isDigit = true) (hhead : ds.head? = (Nat.toDigits 10 n).head?) :
    IsWholePart ds := by
  refine ⟨hds, ?_, fun h => absurd (hhead ▸ h) (head?_toDigits_ne hn)⟩
  rintro rfl
  have := List.head?_eq_none_iff.mp hhead.symm
  exact Nat.toDigits_ne_nil this

theorem isDigit_of_mem_zeros {n : Nat} {c : Char} (h : c ∈ List.replicate n '0') :
    c.isDigit = true := by
  rw [List.eq_of_mem_replicate h]
  decide

/-- A whole number without an exponent: the digits, zeros, a point and one place. -/
theorem readUnsigned_pointed (negative : Bool) {n : Nat} (hn : n ≠ 0) (k : Nat) {rest : List Char}
    (hrest : EndsNumber rest) :
    readUnsigned negative ((Nat.toDigits 10 n ++ List.replicate k '0') ++ '.' :: (['0'] ++ rest)) =
      .ok (⟨negative, n * 10 ^ (k + 1), -1, false⟩, rest) := by
  have hds : IsWholePart (Nat.toDigits 10 n ++ List.replicate k '0') := by
    refine isWholePart_of_head? hn (fun c hc => ?_) ?_
    · rcases List.mem_append.mp hc with hc | hc
      · exact isDigit_of_mem_digitChars hc
      · exact isDigit_of_mem_zeros hc
    · obtain ⟨c, cs, hcs⟩ := List.exists_cons_of_ne_nil (Nat.toDigits_ne_nil (n := n) (b := 10))
      rw [hcs, List.cons_append, List.head?_cons, List.head?_cons]
  have hvalue : valueOf ((Nat.toDigits 10 n ++ List.replicate k '0') ++ ['0']) =
      n * 10 ^ (k + 1) := by
    rw [valueOf_eq, Nat.ofDigitChars_append, Nat.ofDigitChars_append, Nat.ofDigitChars_ten_toDigits,
      Nat.ofDigitChars_replicate_zero, Nat.ofDigitChars_cons, Nat.ofDigitChars_nil, Nat.pow_succ]
    change 10 * (10 ^ k * n) + 0 = _
    ring
  rw [readUnsigned_places negative hds (by simp) (by simp) hrest, hvalue]
  rfl

/-- A decimal with a point among its digits. -/
theorem readUnsigned_split (negative : Bool) {n : Nat} (hn : n ≠ 0) {places : Nat}
    (hpos : 0 < places) (hlt : places < (Nat.toDigits 10 n).length) {rest : List Char}
    (hrest : EndsNumber rest) :
    readUnsigned negative
        ((Nat.toDigits 10 n).take ((Nat.toDigits 10 n).length - places) ++
          '.' :: ((Nat.toDigits 10 n).drop ((Nat.toDigits 10 n).length - places) ++ rest)) =
      .ok (⟨negative, n, -places, false⟩, rest) := by
  have hdigit : ∀ c ∈ Nat.toDigits 10 n, c.isDigit = true := fun c => isDigit_of_mem_digitChars
  have hlength : ((Nat.toDigits 10 n).drop ((Nat.toDigits 10 n).length - places)).length =
      places := by
    rw [List.length_drop]
    omega
  have hds : IsWholePart ((Nat.toDigits 10 n).take ((Nat.toDigits 10 n).length - places)) := by
    refine isWholePart_of_head? hn (fun c hc => hdigit c (List.mem_of_mem_take hc)) ?_
    rw [List.head?_take, if_neg (by omega)]
  have hne : (Nat.toDigits 10 n).drop ((Nat.toDigits 10 n).length - places) ≠ [] := by
    intro h
    rw [h] at hlength
    exact absurd hlength (by simp; omega)
  rw [readUnsigned_places negative hds (fun c hc => hdigit c (List.mem_of_mem_drop hc)) hne hrest,
    List.take_append_drop, hlength, valueOf_eq, Nat.ofDigitChars_ten_toDigits]

/-- A decimal below one: a zero, a point, zeros and the digits. -/
theorem readUnsigned_fraction (negative : Bool) (n : Nat) {places : Nat}
    (hle : (Nat.toDigits 10 n).length ≤ places) {rest : List Char} (hrest : EndsNumber rest) :
    readUnsigned negative
        (['0'] ++ '.' :: ((List.replicate (places - (Nat.toDigits 10 n).length) '0' ++
          Nat.toDigits 10 n) ++ rest)) =
      .ok (⟨negative, n, -places, false⟩, rest) := by
  have hdigit : ∀ c ∈ List.replicate (places - (Nat.toDigits 10 n).length) '0' ++ Nat.toDigits 10 n,
      c.isDigit = true := by
    intro c hc
    rcases List.mem_append.mp hc with hc | hc
    · exact isDigit_of_mem_zeros hc
    · exact isDigit_of_mem_digitChars hc
  have hvalue : valueOf (['0'] ++ (List.replicate (places - (Nat.toDigits 10 n).length) '0' ++
      Nat.toDigits 10 n)) = n := by
    rw [valueOf_eq, Nat.ofDigitChars_append, Nat.ofDigitChars_append, Nat.ofDigitChars_cons,
      Nat.ofDigitChars_nil, Nat.ofDigitChars_replicate_zero]
    change Nat.ofDigitChars 10 _ (10 ^ _ * 0) = n
    rw [Nat.mul_zero, Nat.ofDigitChars_ten_toDigits]
  rw [readUnsigned_places negative isWholePart_zero hdigit (by simp [Nat.toDigits_ne_nil]) hrest,
    hvalue, List.length_append, List.length_replicate, Nat.sub_add_cancel hle]

section Styles

variable {s : NumberStyle} {d : Decimal} {rest : List Char}

/-- A decimal without an exponent, spelled out. -/
theorem positionalChars_pointed (hs : s.pointed = true) (d : Decimal) :
    s.positionalChars d =
      if 0 ≤ d.exponent then
        Nat.toDigits 10 d.digits ++ List.replicate d.exponent.toNat '0' ++ ['.', '0']
      else if (-d.exponent).toNat < (Nat.toDigits 10 d.digits).length then
        (Nat.toDigits 10 d.digits).take ((Nat.toDigits 10 d.digits).length - (-d.exponent).toNat) ++
          '.' :: (Nat.toDigits 10 d.digits).drop
            ((Nat.toDigits 10 d.digits).length - (-d.exponent).toNat)
      else
        '0' :: '.' ::
          List.replicate ((-d.exponent).toNat - (Nat.toDigits 10 d.digits).length) '0' ++
          Nat.toDigits 10 d.digits := by
  rw [NumberStyle.positionalChars, hs]
  rfl

/-- A decimal without an exponent is read back: as it is, or as a whole number with one place. -/
theorem readUnsigned_positionalChars (hs : s.pointed = true) (negative : Bool)
    (hd : d.digits ≠ 0) (hrest : EndsNumber rest) :
    readUnsigned negative (s.positionalChars d ++ rest) =
      .ok (if 0 ≤ d.exponent then ⟨negative, d.digits * 10 ^ (d.exponent.toNat + 1), -1, false⟩
        else ⟨negative, d.digits, d.exponent, false⟩, rest) := by
  rw [positionalChars_pointed hs]
  -- The three forms of it: zeros behind the digits, a point among them, or zeros before them.
  by_cases he : 0 ≤ d.exponent
  · rw [if_pos he, if_pos he, List.append_assoc]
    exact readUnsigned_pointed negative hd _ hrest
  · have hplaces : d.exponent = -((-d.exponent).toNat : Int) := by omega
    rw [if_neg he, if_neg he]
    split
    next hlt =>
      rw [List.append_assoc, List.cons_append,
        readUnsigned_split negative hd (by omega) hlt hrest, ← hplaces]
    next hlt =>
      have hfraction := readUnsigned_fraction negative d.digits (Nat.not_lt.mp hlt) hrest
      rw [← hplaces] at hfraction
      exact hfraction

/-- Digits with a point behind the first one, if there are more. -/
def pointBehindFirst : List Char → List Char
  | [] => []
  | [c] => [c]
  | c :: rest => c :: '.' :: rest

theorem exponentChars_eq (s : NumberStyle) (d : Decimal) :
    s.exponentChars d =
      pointBehindFirst (Nat.toDigits 10 d.digits) ++
        ('e' :: exponentSign s.signedExponent
          (d.exponent + (Nat.toDigits 10 d.digits).length - 1)) ++
        Nat.toDigits 10 (d.exponent + (Nat.toDigits 10 d.digits).length - 1).natAbs := rfl

/-- A decimal with an exponent is read back as it is. -/
theorem readUnsigned_exponentChars (s : NumberStyle) (negative : Bool) (hd : d.digits ≠ 0)
    (hrest : EndsNumber rest) :
    readUnsigned negative (s.exponentChars d ++ rest) =
      .ok (⟨negative, d.digits, d.exponent, false⟩, rest) := by
  have hwhole := isWholePart_toDigits d.digits
  have hhead := head?_toDigits_ne hd
  have hvalue : valueOf (Nat.toDigits 10 d.digits) = d.digits := Nat.ofDigitChars_ten_toDigits
  rw [exponentChars_eq]
  -- Only that the digits are a whole part and do not begin with a zero matters from here on.
  generalize Nat.toDigits 10 d.digits = ds at *
  match ds with
  | [] => exact absurd rfl hwhole.ne_nil
  | [c] =>
    have hexp := readUnsigned_exponent negative hwhole s.signedExponent
      (d.exponent + [c].length - 1) hrest
    rw [hvalue] at hexp
    simpa [pointBehindFirst] using hexp
  | c :: c' :: cs =>
    have hfirst : IsWholePart [c] := by
      refine ⟨fun x hx => hwhole.isDigit x ?_, by simp, fun h => absurd h hhead⟩
      rw [List.mem_singleton.mp hx]
      exact List.mem_cons_self
    have hexp := readUnsigned_places_exponent negative hfirst
      (fun x hx => hwhole.isDigit x (List.mem_cons_of_mem c hx)) (List.cons_ne_nil c' cs)
      s.signedExponent (d.exponent + (c :: c' :: cs).length - 1) hrest
    have hexponent : d.exponent + (c :: c' :: cs).length - 1 - (c' :: cs).length = d.exponent := by
      simp only [List.length_cons]
      omega
    rw [List.singleton_append, List.singleton_append, hvalue, hexponent] at hexp
    simpa only [pointBehindFirst, List.append_assoc, List.cons_append] using hexp

end Styles

/-- **A decimal** is read back with its digits and its scale. -/
theorem readUnsigned_decimalChars (negative : Bool) {d : Decimal} (hd : d.digits ≠ 0)
    {rest : List Char} (hrest : EndsNumber rest) :
    readUnsigned negative (NumberStyle.json.decimalChars d ++ rest) =
      .ok (decimalNumeral negative d, rest) := by
  rw [NumberStyle.decimalChars, decimalNumeral]
  change readUnsigned negative ((if NumberStyle.json.positional
    (d.exponent + (Nat.toDigits 10 d.digits).length - 1) then _ else _) ++ rest) = _
  by_cases hp : NumberStyle.json.positional
      (d.exponent + (Nat.toDigits 10 d.digits).length - 1) = true
  · rw [if_pos hp, readUnsigned_positionalChars rfl negative hd hrest]
    simp only [hp, true_and]
  · rw [if_neg hp, readUnsigned_exponentChars .json negative hd hrest, if_neg fun h => hp h.1]

end Json

/-! ### The digits of shortest decimals -/

namespace Double

theorem powerOfTwo_pos (n : Nat) : 0 < powerOfTwo n := Nat.pow_pos (by decide)

theorem powerOfTen_pos (n : Nat) : 0 < powerOfTen n := Nat.pow_pos (by decide)

/-- A number that is not zero has bits: those of its fraction, or the leading one that is not
stored. -/
theorem significand_ne_zero {x : Double} (hx : x.isZero = false) : x.significand ≠ 0 := by
  rw [isZero, beq_eq_false_iff_ne] at hx
  rw [significand]
  split
  next he =>
    intro hf
    rw [fractionField] at hf
    rw [exponentField, Nat.div_eq_zero_iff] at he
    rcases he with he | he
    · exact absurd he (powerOfTwo_pos 52).ne'
    · exact hx ((Nat.mod_eq_of_lt he).symm.trans hf)
  · have := powerOfTwo_pos 52
    omega

/-- Neither weight is zero, so that both may be divided by. -/
theorem weights_pos (k p : Int) : 0 < (weights k p).1 ∧ 0 < (weights k p).2 :=
  ⟨Nat.mul_pos (powerOfTen_pos _) (powerOfTwo_pos _),
    Nat.mul_pos (powerOfTen_pos _) (powerOfTwo_pos _)⟩

/-- A point of a grid that is read as a number other than zero is not zero. -/
theorem ne_zero_of_readsAs {x : Double} (hx : x.significand ≠ 0) {k : Int} {c : Nat}
    (h : x.readsAs k c = true) : c ≠ 0 := by
  rintro rfl
  -- Zero lies below all that is read as the number.
  have hlower : 0 < x.lowerQuarters * (weights k (x.scale - 2)).2 := by
    refine Nat.mul_pos ?_ (weights_pos k _).2
    rw [lowerQuarters]
    split <;> omega
  rw [readsAs] at h
  simp only [Nat.zero_mul] at h
  split at h
  · have := of_decide_eq_true (Bool.and_eq_true_iff.mp h).1
    omega
  · have := of_decide_eq_true (Bool.and_eq_true_iff.mp h).1
    omega

/-- The number of digits, by the powers of ten around the number. -/
theorem powerOfTen_digitCount_le {n : Nat} (hn : n ≠ 0) : powerOfTen (digitCount n - 1) ≤ n := by
  by_contra hlt
  have hlt : n < 10 ^ (digitCount n - 1) := Nat.not_le.mp hlt
  by_cases h1 : digitCount n - 1 = 0
  · rw [h1] at hlt
    omega
  · have := (Nat.length_toDigits_le_iff (b := 10) (by decide) (Nat.pos_of_ne_zero h1)).mpr hlt
    rw [digitCount] at this h1
    omega

theorem lt_powerOfTen_digitCount (n : Nat) : n < powerOfTen (digitCount n) :=
  (Nat.length_toDigits_le_iff (b := 10) (by decide) Nat.length_toDigits_pos).mp le_rfl

/-- What is not above a value on one grid is not above it on a finer one. -/
theorem weights_le_of_le {v : Nat} {k l p : Int} (hkl : k ≤ l)
    (h : (weights l p).1 ≤ v * (weights l p).2) : (weights k p).1 ≤ v * (weights k p).2 := by
  simp only [weights] at h ⊢
  generalize powerOfTwo (-p).toNat = a at *
  generalize powerOfTwo p.toNat = b at *
  have hpow : powerOfTen k.toNat * powerOfTen (-l).toNat ≤
      powerOfTen l.toNat * powerOfTen (-k).toNat := by
    change 10 ^ _ * 10 ^ _ ≤ 10 ^ _ * 10 ^ _
    rw [← Nat.pow_add, ← Nat.pow_add]
    exact Nat.pow_le_pow_right (by decide) (by omega)
  -- The inequality on the coarser grid, scaled by the powers that the two grids lack.
  refine Nat.le_of_mul_le_mul_right ?_ (powerOfTen_pos (-l).toNat)
  calc powerOfTen k.toNat * a * powerOfTen (-l).toNat
      = powerOfTen k.toNat * powerOfTen (-l).toNat * a := by ring
    _ ≤ powerOfTen l.toNat * powerOfTen (-k).toNat * a := Nat.mul_le_mul_right a hpow
    _ = powerOfTen l.toNat * a * powerOfTen (-k).toNat := by ring
    _ ≤ v * (powerOfTen (-l).toNat * b) * powerOfTen (-k).toNat := Nat.mul_le_mul_right _ h
    _ = v * (powerOfTen (-k).toNat * b) * powerOfTen (-l).toNat := by ring

/-- The leading digit of a value is not above the value. -/
theorem weights_leadingExponent_le {x : Double} (hx : x.significand ≠ 0) :
    (weights x.leadingExponent x.scale).1 ≤
      x.significand * (weights x.leadingExponent x.scale).2 := by
  have hm := Nat.pos_of_ne_zero hx
  unfold leadingExponent
  simp only [weights]
  generalize x.significand = m at *
  generalize x.scale = p
  by_cases hp : 0 ≤ p
  · -- The value is a whole number.
    have hv : m * powerOfTwo p.toNat ≠ 0 := (Nat.mul_pos hm (powerOfTwo_pos _)).ne'
    have hle := powerOfTen_digitCount_le hv
    have hexp : ((digitCount (m * powerOfTwo p.toNat) : Int) - 1).toNat =
        digitCount (m * powerOfTwo p.toNat) - 1 := by omega
    have hneg : (-((digitCount (m * powerOfTwo p.toNat) : Int) - 1)).toNat = 0 := by
      have : 0 < digitCount (m * powerOfTwo p.toNat) := Nat.length_toDigits_pos
      omega
    have hscale : (-p).toNat = 0 := by omega
    rw [if_pos hp, hexp, hneg, hscale]
    simpa [powerOfTwo, powerOfTen] using hle
  · have hscale : p.toNat = 0 := by omega
    rw [if_neg hp, hscale]
    generalize hunit : powerOfTwo (-p).toNat = unit
    have hunitpos : 0 < unit := hunit ▸ powerOfTwo_pos _
    by_cases hum : unit ≤ m
    · -- The value has a whole part.
      have hle := powerOfTen_digitCount_le (Nat.div_pos hum hunitpos).ne'
      have hexp : ((digitCount (m / unit) : Int) - 1).toNat = digitCount (m / unit) - 1 := by omega
      have hneg : (-((digitCount (m / unit) : Int) - 1)).toNat = 0 := by
        have : 0 < digitCount (m / unit) := Nat.length_toDigits_pos
        omega
      rw [if_pos hum, hexp, hneg]
      calc powerOfTen (digitCount (m / unit) - 1) * unit
          ≤ m / unit * unit := Nat.mul_le_mul_right unit hle
        _ ≤ m := Nat.div_mul_le_self m unit
        _ = m * (powerOfTen 0 * powerOfTwo 0) := (Nat.mul_one m).symm
    · -- The value is below one.
      rw [if_neg hum]
      split
      next hj =>
        have hpos : (-((digitCount (unit / m) - 1 : Nat) : Int)).toNat = 0 := by omega
        rw [hpos, Int.neg_neg, Int.toNat_natCast]
        simpa [powerOfTwo, powerOfTen] using hj
      next hj =>
        have hcount : digitCount (unit / m) - 1 + 1 = digitCount (unit / m) := by
          have : 0 < digitCount (unit / m) := Nat.length_toDigits_pos
          omega
        have hpos : (-((digitCount (unit / m) - 1 + 1 : Nat) : Int)).toNat = 0 := by omega
        rw [hpos, Int.neg_neg, Int.toNat_natCast, hcount]
        calc powerOfTen 0 * unit
            = unit := Nat.one_mul unit
          _ ≤ m * (unit / m + 1) := (Nat.lt_mul_div_succ unit hm).le
          _ ≤ m * powerOfTen (digitCount (unit / m)) :=
              Nat.mul_le_mul_left m (lt_powerOfTen_digitCount _)
          _ = m * (powerOfTen (digitCount (unit / m)) * powerOfTwo 0) := by
              rw [show powerOfTwo 0 = 1 from rfl, Nat.mul_one]

/-- The last resort of the search is not zero. -/
theorem nearer_ne_zero {x : Double} (hx : x.significand ≠ 0) (tie : TieRule) :
    x.nearer tie (x.leadingExponent - 16) ≠ 0 := by
  -- The finest grid is finer than that of the leading digit, so the point below is not zero.
  have hbelow : 0 < x.below (x.leadingExponent - 16) :=
    Nat.div_pos (weights_le_of_le (by omega) (weights_leadingExponent_le hx)) (weights_pos _ _).1
  unfold nearer
  simp only
  split
  · omega
  · omega
  · split
    · split <;> omega
    · omega

/-- A point that is found is read as the number. -/
theorem readsAs_of_onGrid? {x : Double} {tie : TieRule} {k : Int} {c : Nat}
    (h : x.onGrid? tie k = some c) : x.readsAs k c = true := by
  unfold onGrid? at h
  simp only at h
  split at h
  next h1 h2 =>
    rw [← Option.some.inj h]
    -- The nearer point is one of the two around the value, and both are read as the number.
    have hnearer : x.nearer tie k = x.below k ∨ x.nearer tie k = x.below k + 1 := by
      unfold nearer
      simp only
      split
      · exact .inl rfl
      · exact .inr rfl
      · split
        · split
          · exact .inl rfl
          · exact .inr rfl
        · exact .inr rfl
    rcases hnearer with he | he <;> rw [he]
    · exact h1
    · exact h2
  next h1 _ => rwa [← Option.some.inj h]
  next _ h2 => rwa [← Option.some.inj h]
  next => simp at h

/-- A point that is not zero has digits, however it is written. -/
theorem ofPoint_digits_ne_zero {c : Nat} (hc : c ≠ 0) (k : Int) : (ofPoint c k).digits ≠ 0 := by
  rw [ofPoint]
  split
  · exact Nat.one_ne_zero
  · exact hc

/-- **The shortest decimal** of a number other than zero has digits. -/
theorem shortest_digits_ne_zero {x : Double} (hx : x.isZero = false) (tie : TieRule) :
    (x.shortest tie).digits ≠ 0 := by
  have hs := significand_ne_zero hx
  rw [shortest]
  cases hfound : (List.range 16).findSome? fun (n : Nat) =>
      (x.onGrid? tie (x.leadingExponent - n)).map fun c => ofPoint c (x.leadingExponent - n) with
  | none => exact nearer_ne_zero hs tie
  | some d =>
    -- The point that was found is read as the number, which is not zero.
    obtain ⟨n, -, hn⟩ := List.exists_of_findSome?_eq_some hfound
    obtain ⟨c, hc, rfl⟩ := Option.map_eq_some_iff.mp hn
    exact ofPoint_digits_ne_zero (ne_zero_of_readsAs hs (readsAs_of_onGrid? hc)) _

/-- The numeral that a finite number is written as in documents. -/
def numeral (x : Double) : Json.Numeral :=
  if x.isZero then ⟨x.isNegative, 0, -1, false⟩
  else Json.decimalNumeral x.isNegative (x.shortest .toEven)

end Double

/-! ### Doubles in documents -/

theorem Double.isUndefined_of_isFinite {x : Double} (hx : x.isFinite = true) :
    x.isUndefined = false := by
  -- The exponent of a finite number is not the largest one.
  have hexponent : x.exponentField < 2047 := of_decide_eq_true hx
  rw [isUndefined, beq_false_of_ne hexponent.ne, Bool.false_and]

namespace Json

theorem chars_json_of_finite {x : Double} (hx : x.isFinite = true) :
    NumberStyle.json.chars x = signedChars x.isNegative
      (if x.isZero then ['0', '.', '0']
        else NumberStyle.json.decimalChars (x.shortest .toEven)) := by
  rw [NumberStyle.chars, if_neg (by simp [Double.isUndefined_of_isFinite hx])]
  simp only [hx, signedChars]
  rfl

/-- **A finite double** is read back with the digits and the scale of its shortest decimal. -/
theorem readNumber_double {x : Double} (hx : x.isFinite = true) {rest : List Char}
    (hrest : EndsNumber rest) :
    readNumber (NumberStyle.json.chars x ++ rest) = .ok (x.numeral, rest) := by
  rw [chars_json_of_finite hx, signedChars_append]
  refine readNumber_signed ?_
  rw [Double.numeral]
  by_cases hz : x.isZero = true
  · rw [if_pos hz, if_pos hz]
    have hplace : ∀ c ∈ ['0'], c.isDigit = true := List.forall_mem_singleton.mpr (by decide)
    exact readUnsigned_places _ isWholePart_zero hplace (by simp) hrest
  · rw [if_neg hz, if_neg hz]
    have hdigits := Double.shortest_digits_ne_zero (Bool.eq_false_iff.mpr hz) .toEven
    exact readUnsigned_decimalChars _ hdigits hrest

end Json

end PinnedBench
