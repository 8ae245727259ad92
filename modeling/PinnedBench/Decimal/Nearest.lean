import PinnedBench.Decimal.Shortest

/-!
# Reading decimals

`Decimal.toDouble` is the double nearest to a decimal number, a tie going to the even neighbour;
what is too large becomes infinite and what is too small becomes zero. Decimals far outside the
range of doubles are settled by their size alone, before any power of ten is formed.
-/

namespace PinnedBench

namespace Decimal

/-- The double nearest to the decimal, which is not negative. -/
def nearest (d : Decimal) : Double :=
  if d.digits = 0 then ⟨0⟩
  else
    let size : Int := d.exponent + Double.digitCount d.digits
    -- Outside these bounds the power of ten is not formed, however large the exponent is.
    if 310 < size then .infinity
    else if size < -330 then ⟨0⟩
    else .ofFloat (OfScientific.ofScientific d.digits (decide (d.exponent < 0)) d.exponent.natAbs)

/-- The double nearest to a decimal with a sign. -/
def toDouble (negative : Bool) (d : Decimal) : Double :=
  if negative then -d.nearest else d.nearest

end Decimal

end PinnedBench
