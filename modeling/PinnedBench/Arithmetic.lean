/-!
# Arithmetic of measurements

The statistics, the projections and the resource curves are written once, over any type of numbers
that has the four operations, an order and the operations of `Analysis` below. The program runs them
on stored 64-bit numbers (`PinnedBench.Double`); reading the same definitions over an ordered field
gives their exact meaning.

`Analysis` collects what the four operations and the order do not give:

* `magnitude` and `squareRoot`, as usual;
* `larger a b` is the larger of the two, `a` when neither is; a number that is no number loses;
* `finite` tells numbers from infinities and from what is no number;
* `wholePart` is the largest whole number that is not above a non-negative number;
* `precedes` is the order in which samples are sorted, total also where `≤` is not;
* `lowest` is below every finite number, so that a maximum may start from it.
-/

namespace PinnedBench

/-- The operations of analysis that the definitions need beyond the four operations and the
order. -/
class Analysis (α : Type) where
  /-- The absolute value. -/
  magnitude : α → α
  /-- The square root. -/
  squareRoot : α → α
  /-- The larger of two numbers, the first when neither is larger. -/
  larger : α → α → α
  /-- Whether the number is neither infinite nor undefined. -/
  finite : α → Bool
  /-- The whole part of a non-negative number. -/
  wholePart : α → Nat
  /-- The sorting order, which relates any two numbers. -/
  precedes : α → α → Bool
  /-- A number below every finite one. -/
  lowest : α

/-- Two to a whole power. -/
def powerOfTwo (n : Nat) : Nat := Nat.pow 2 n

/-- Ten to a whole power. -/
def powerOfTen (n : Nat) : Nat := Nat.pow 10 n

export Analysis (magnitude squareRoot larger finite wholePart precedes)

end PinnedBench
