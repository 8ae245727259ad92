import PinnedBench.Double

/-!
# The shortest decimal that reads back

A finite double stands for `significand · 2 ^ scale`, and every real number of an interval around
that value is read as the same double: half the way to either neighbour, the ends belonging to it
exactly when the significand is even. `Double.shortest` looks for the decimal with the fewest digits
inside that interval, and takes the one nearest to the value when two of that length fit.

The search runs over grids `10 ^ k`, from the one that allows a single digit to the one that allows
seventeen. On each grid only the two neighbours of the value have to be tested: if any point of the
grid lies in the interval, so does one of them. All comparisons are between whole numbers; seventeen
digits always suffice.
-/

namespace PinnedBench

/-- A decimal number, `digits · 10 ^ exponent`. -/
structure Decimal where
  /-- The digits, as one whole number. -/
  digits : Nat
  /-- The power of ten that scales them. -/
  exponent : Int
  deriving DecidableEq, Repr

/-- Which of two equally near neighbours is taken. -/
inductive TieRule where
  /-- The neighbour whose last digit is even. -/
  | toEven
  /-- The larger neighbour. -/
  | up
  deriving DecidableEq, Repr

namespace Double

/-- The whole number that the stored fraction makes, the hidden leading bit included. -/
def significand (x : Double) : Nat :=
  if x.exponentField = 0 then x.fractionField else powerOfTwo 52 + x.fractionField

/-- The power of two that scales the significand. -/
def scale (x : Double) : Int := (max x.exponentField 1 : Nat) - 1075

/-- The lower end of the numbers read as `x`, in quarters of `2 ^ scale`: the step below a power of
two is half as wide as the step above it. -/
def lowerQuarters (x : Double) : Nat :=
  if x.fractionField = 0 ∧ 1 < x.exponentField then 4 * x.significand - 1
  else 4 * x.significand - 2

/-- The upper end of the numbers read as `x`, in quarters of `2 ^ scale`. -/
def upperQuarters (x : Double) : Nat := 4 * x.significand + 2

/-- **Common measure.** Whole weights `(a, b)` such that `c · 10 ^ k` compares with `v · 2 ^ p` as
`c * a` does with `v * b`. -/
def weights (k p : Int) : Nat × Nat :=
  (powerOfTen k.toNat * powerOfTwo (-p).toNat, powerOfTen (-k).toNat * powerOfTwo p.toNat)

/-- Whether `c · 10 ^ k` is read as `x`. -/
def readsAs (x : Double) (k : Int) (c : Nat) : Bool :=
  let (a, b) := weights k (x.scale - 2)
  if x.significand % 2 = 0 then
    x.lowerQuarters * b ≤ c * a && c * a ≤ x.upperQuarters * b
  else
    x.lowerQuarters * b < c * a && c * a < x.upperQuarters * b

/-- The point of the grid `10 ^ k` just below the value of `x`, or on it. -/
def below (x : Double) (k : Int) : Nat :=
  let (a, b) := weights k x.scale
  x.significand * b / a

/-- Of the two points of the grid `10 ^ k` around the value of `x`, the nearer. -/
def nearer (tie : TieRule) (x : Double) (k : Int) : Nat :=
  let (a, b) := weights k x.scale
  let low := x.below k
  match compare (2 * (x.significand * b)) ((2 * low + 1) * a) with
  | .lt => low
  | .gt => low + 1
  | .eq =>
    match tie with
    | .toEven => if low % 2 = 0 then low else low + 1
    | .up => low + 1

/-- The best point of the grid `10 ^ k` that is read as `x`, if there is one. -/
def onGrid? (tie : TieRule) (x : Double) (k : Int) : Option Nat :=
  let low := x.below k
  match x.readsAs k low, x.readsAs k (low + 1) with
  | true, true => some (x.nearer tie k)
  | true, false => some low
  | false, true => some (low + 1)
  | false, false => none

/-- The number of decimal digits of a whole number. -/
def digitCount (n : Nat) : Nat := (Nat.toDigits 10 n).length

/-- The decimal exponent of the leading digit of a positive number. -/
def leadingExponent (x : Double) : Int :=
  let m := x.significand
  -- With a negative scale the value is `m / unit`.
  let unit := powerOfTwo (-x.scale).toNat
  if 0 ≤ x.scale then digitCount (m * powerOfTwo x.scale.toNat) - 1
  else if unit ≤ m then digitCount (m / unit) - 1
  else
    -- Below one, the place of the leading digit is that of the reciprocal, or the next one.
    let j := digitCount (unit / m) - 1
    if unit ≤ m * powerOfTen j then -j else -(j + 1 : Nat)

/-- A point of a grid as a decimal. Ten units of the coarsest grid are a single digit, one place up.
-/
def ofPoint (c : Nat) (k : Int) : Decimal := if c = 10 then ⟨1, k + 1⟩ else ⟨c, k⟩

/-- **The shortest decimal that reads back** as the positive finite number `x`. -/
def shortest (tie : TieRule) (x : Double) : Decimal :=
  let lead := x.leadingExponent
  let found := (List.range 16).findSome? fun (n : Nat) =>
    (x.onGrid? tie (lead - n)).map fun c => ofPoint c (lead - n)
  -- The seventeenth digit is not tested, since it always suffices.
  found.getD ⟨x.nearer tie (lead - 16), lead - 16⟩

end Double

end PinnedBench
