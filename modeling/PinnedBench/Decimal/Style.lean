import PinnedBench.Decimal.Shortest

/-!
# Writing numbers

A `NumberStyle` holds the decisions that a text format makes about numbers: which decimal exponents
are written positionally, whether a whole number keeps a point, whether a positive exponent is
signed, and which of two equally near shortest decimals is taken. `NumberStyle.text` writes a number
in a style.

Three styles are used. `NumberStyle.json` writes JSON documents, `NumberStyle.table` writes the
durations of a results table, and `NumberStyle.message` writes numbers inside messages.
-/

namespace PinnedBench

/-- The decisions of a text format about numbers. -/
structure NumberStyle where
  /-- The decimal exponents of the leading digit that are written without an exponent. -/
  positional : Int → Bool
  /-- Whether a positionally written whole number ends in a point and a zero. -/
  pointed : Bool
  /-- Whether a non-negative exponent is written with its sign. -/
  signedExponent : Bool
  /-- The choice between two equally near shortest decimals. -/
  tie : TieRule

namespace NumberStyle

/-- The digits of a whole number. -/
def digitChars (n : Nat) : List Char := Nat.toDigits 10 n

/-- A decimal written without an exponent. -/
def positionalChars (s : NumberStyle) (d : Decimal) : List Char :=
  let ds := digitChars d.digits
  let zeros (n : Nat) : List Char := List.replicate n '0'
  if 0 ≤ d.exponent then
    ds ++ zeros d.exponent.toNat ++ (if s.pointed then ['.', '0'] else [])
  else
    let places := (-d.exponent).toNat
    if places < ds.length then ds.take (ds.length - places) ++ '.' :: ds.drop (ds.length - places)
    else '0' :: '.' :: zeros (places - ds.length) ++ ds

/-- A decimal written with one digit before the point and an exponent. -/
def exponentChars (s : NumberStyle) (d : Decimal) : List Char :=
  let ds := digitChars d.digits
  let e : Int := d.exponent + ds.length - 1
  -- A single digit has no point behind it, also where positional numbers have one.
  let mantissa := match ds with
    | [] => []
    | [c] => [c]
    | c :: rest => c :: '.' :: rest
  let sign := if e < 0 then ['-'] else if s.signedExponent then ['+'] else []
  mantissa ++ 'e' :: sign ++ digitChars e.natAbs

/-- A decimal in the style's form. -/
def decimalChars (s : NumberStyle) (d : Decimal) : List Char :=
  if s.positional (d.exponent + (digitChars d.digits).length - 1) then s.positionalChars d
  else s.exponentChars d

/-- A number in the style's form: the shortest decimal that reads back, after its sign. -/
def chars (s : NumberStyle) (x : Double) : List Char :=
  if x.isUndefined then "NaN".toList
  else
    let size :=
      if !x.isFinite then "inf".toList
      else if x.isZero then (if s.pointed then "0.0" else "0").toList
      else s.decimalChars (x.shortest s.tie)
    if x.isNegative then '-' :: size else size

/-- A number in the style's form, as a string. -/
def text (s : NumberStyle) (x : Double) : String := String.ofList (s.chars x)

/-- Numbers in JSON documents: no exponent from `0.00001` up to sixteen digits, `1e+16` beyond. -/
def json : NumberStyle where
  positional e := -5 ≤ e && e ≤ 15
  pointed := true
  signedExponent := true
  tie := .toEven

/-- Durations in a results table: no exponent from `0.0001` up to sixteen digits, `1e16` beyond. -/
def table : NumberStyle where
  positional e := -4 ≤ e && e ≤ 15
  pointed := true
  signedExponent := false
  tie := .up

/-- Numbers in messages: never an exponent, and whole numbers without a point. -/
def message : NumberStyle where
  positional _ := true
  pointed := false
  signedExponent := false
  tie := .up

end NumberStyle

end PinnedBench
