import PinnedBench.Decimal.Shortest

/-!
# Numbers with a fixed count of places

`Double.fixed places x` writes the exact value of `x` rounded to `places` digits after the point, a
half going to the even neighbour. The sign is that of the stored number, so a negative number that
rounds to zero is written with its sign.
-/

namespace PinnedBench

/-- The quotient rounded to the nearest whole number, a half to the even neighbour. -/
def roundHalfEven (num den : Nat) : Nat :=
  let q := num / den
  match compare (2 * (num % den)) den with
  | .lt => q
  | .gt => q + 1
  | .eq => if q % 2 = 0 then q else q + 1

namespace Double

/-- The value of a finite number in units of `10 ^ -places`, rounded, without its sign. -/
def scaledUnits (places : Nat) (x : Double) : Nat :=
  roundHalfEven (x.significand * powerOfTen places * powerOfTwo x.scale.toNat)
    (powerOfTwo (-x.scale).toNat)

/-- The digits of a whole number, with zeros in front so that there are more than `places`. -/
def paddedDigits (places units : Nat) : List Char :=
  let ds := Nat.toDigits 10 units
  List.replicate (places + 1 - ds.length) '0' ++ ds

/-- A whole number of units of `10 ^ -places`, written with its point. -/
def unitsChars (places units : Nat) : List Char :=
  let ds := paddedDigits places units
  let whole := ds.take (ds.length - places)
  if places = 0 then whole else whole ++ '.' :: ds.drop (ds.length - places)

/-- A number with a fixed count of digits after the point. -/
def fixed (places : Nat) (x : Double) : String :=
  if x.isUndefined then "NaN"
  else
    let size := if !x.isFinite then "inf".toList else unitsChars places (x.scaledUnits places)
    String.ofList (if x.isNegative then '-' :: size else size)

end Double

end PinnedBench
