import PinnedBench.Arithmetic

/-!
# Stored 64-bit numbers

A `Double` is a binary floating-point number as it is stored: 64 bits, one for the sign, eleven for
the exponent and 52 for the fraction. The bits themselves are the identity of the number, so two
zeros differ, and a pattern that stands for no number keeps its sign and its payload. That matters
twice: the content hash of a dataset covers the stored bytes, and samples are sorted by `rank`,
which places the patterns that are no number at the two ends.

Arithmetic goes through the machine's floating-point operations (`Double.toFloat`,
`Double.ofFloat`); the four operations and the square root round to nearest, ties to even.
-/

namespace PinnedBench

/-- A binary floating-point number, given by its 64 stored bits. -/
structure Double where
  /-- Sign, exponent and fraction, from the highest bit down. -/
  bits : UInt64
  deriving DecidableEq, Repr

namespace Double

/-- The number as an operand of the machine's arithmetic. -/
def toFloat (x : Double) : Float := Float.ofBits x.bits

/-- The stored form of a result of the machine's arithmetic. -/
def ofFloat (x : Float) : Double := ⟨x.toBits⟩

instance : Add Double := ⟨fun a b => ofFloat (a.toFloat + b.toFloat)⟩
instance : Sub Double := ⟨fun a b => ofFloat (a.toFloat - b.toFloat)⟩
instance : Mul Double := ⟨fun a b => ofFloat (a.toFloat * b.toFloat)⟩
instance : Div Double := ⟨fun a b => ofFloat (a.toFloat / b.toFloat)⟩
instance : LT Double := ⟨fun a b => a.toFloat < b.toFloat⟩
instance : LE Double := ⟨fun a b => a.toFloat ≤ b.toFloat⟩
instance : DecidableLT Double := fun a b => inferInstanceAs (Decidable (a.toFloat < b.toFloat))
instance : DecidableLE Double := fun a b => inferInstanceAs (Decidable (a.toFloat ≤ b.toFloat))
instance : NatCast Double := ⟨fun n => ofFloat (Float.ofNat n)⟩
instance : OfScientific Double := ⟨fun m s e => ofFloat (OfScientific.ofScientific m s e)⟩
instance : Inhabited Double := ⟨⟨0⟩⟩

/-! ### Parts of the pattern -/

/-- The sign bit. -/
def signBit : UInt64 := 0x8000000000000000

/-- Whether the sign bit is set. -/
def isNegative (x : Double) : Bool := x.bits &&& signBit != 0

/-- The pattern without its sign, as a whole number. -/
def unsigned (x : Double) : Nat := (x.bits &&& 0x7fffffffffffffff).toNat

/-- The stored exponent. -/
def exponentField (x : Double) : Nat := x.unsigned / powerOfTwo 52

/-- The stored fraction. -/
def fractionField (x : Double) : Nat := x.unsigned % powerOfTwo 52

/-- Whether the pattern stands for a number: the largest exponent is kept for the rest. -/
def isFinite (x : Double) : Bool := x.exponentField < 2047

/-- Whether the pattern stands for no number at all. -/
def isUndefined (x : Double) : Bool := x.exponentField == 2047 && x.fractionField != 0

/-- Whether the pattern is one of the two zeros. -/
def isZero (x : Double) : Bool := x.unsigned == 0

/-- The same pattern with the other sign. -/
def negate (x : Double) : Double := ⟨x.bits ^^^ signBit⟩

instance : Neg Double := ⟨negate⟩

/-- Positive infinity. -/
def infinity : Double := ⟨0x7ff0000000000000⟩

/-- The pattern used for results that are no number. -/
def undefined : Double := ⟨0x7ff8000000000000⟩

/-- **The total order's key.** Patterns without the sign bit count up from zero, those with it count
down from minus one, so that different patterns always have different keys. -/
def rank (x : Double) : Int :=
  if x.isNegative then -(x.unsigned : Int) - 1 else x.unsigned

/-- The eight stored bytes, the lowest first. -/
def toBytes (x : Double) : List UInt8 :=
  (List.range 8).map fun i => (x.bits >>> (8 * i).toUInt64).toUInt8

@[simp]
theorem length_toBytes (x : Double) : x.toBytes.length = 8 := by
  simp [toBytes]

/-- The larger of two numbers, the first when neither is larger or the second is undefined. -/
def maximum (a b : Double) : Double :=
  if a < b then b else if a.isUndefined then b else a

instance : Analysis Double where
  magnitude x := ⟨x.bits &&& 0x7fffffffffffffff⟩
  squareRoot x := ofFloat x.toFloat.sqrt
  larger := maximum
  finite := isFinite
  wholePart x := x.toFloat.toUInt64.toNat
  precedes a b := decide (a.rank ≤ b.rank)
  lowest := ⟨0xffefffffffffffff⟩

end Double

end PinnedBench
