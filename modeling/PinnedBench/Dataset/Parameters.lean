import PinnedBench.Fault

/-!
# Dataset parameters

A dataset has `n` embeddings and `m` axes, all of them rows of `d` numbers, drawn from a seed. The
parameters are valid when the three counts are positive and the bytes of both arrays together can be
counted by a 64-bit word; `Parameters.sizes` counts them, every step checked.

Arrays that can be counted need not fit memory: no object there has `memoryLimit` bytes or more.
That is not a part of what is validated. An array that is too large for memory is found out when the
room for it is asked for (`allocate`).
-/

namespace PinnedBench

/-- The parameters of a dataset. -/
structure Parameters where
  /-- The number of embeddings. -/
  n : Int
  /-- The number of axes. -/
  m : Int
  /-- The length of every row. -/
  d : Int
  /-- The seed of the generator. -/
  seed : UInt64
  deriving DecidableEq, Repr

/-- The bytes of the arrays of a dataset. -/
structure Sizes where
  /-- The bytes of the embeddings. -/
  embeddings : UInt64
  /-- The bytes of the axes. -/
  axes : UInt64
  /-- The bytes of both. -/
  total : UInt64
  deriving DecidableEq, Repr

/-! ### Checked words -/

/-- A whole number as a word, if it is one. -/
def word? (n : Int) : Option UInt64 :=
  if 0 ≤ n ∧ n < powerOfTwo 64 then some n.toNat.toUInt64 else none

/-- The sum of two words, if it is a word. -/
def sum? (a b : UInt64) : Option UInt64 :=
  if a.toNat + b.toNat < powerOfTwo 64 then some (a + b) else none

/-- The product of two words, if it is a word. -/
def product? (a b : UInt64) : Option UInt64 :=
  if a.toNat * b.toNat < powerOfTwo 64 then some (a * b) else none

/-- The bytes of one number of an array. -/
def cellBytes : UInt64 := 8

/-- The bytes of an array, if they can be counted. -/
def arrayBytes? (rows length : UInt64) : Option UInt64 :=
  (product? rows length).bind (product? · cellBytes)

namespace Parameters

/-- The parameters used unless others are given. -/
def standard : Parameters := ⟨2000, 15, 96, 42⟩

/-- The bytes of the arrays, if they can be counted. -/
def sizes? (p : Parameters) : Option Sizes := do
  let d ← word? p.d
  let embeddings ← arrayBytes? (← word? p.n) d
  let axes ← arrayBytes? (← word? p.m) d
  some ⟨embeddings, axes, ← sum? embeddings axes⟩

/-- The bytes of the arrays. -/
def sizes (p : Parameters) : Except ParameterFault Sizes :=
  match p.sizes? with
  | some s => .ok s
  | none => .error (.tooLarge p.n p.m p.d)

/-- Refuses counts that are not positive, and arrays that are too large. -/
def validate (p : Parameters) : Except ParameterFault Unit :=
  if p.n ≤ 0 ∨ p.m ≤ 0 ∨ p.d ≤ 0 then .error (.dimensions p.n p.m p.d)
  else p.sizes.map fun _ => ()

end Parameters

/-! ### Memory -/

/-- The number of bytes that no object in memory reaches. -/
def memoryLimit : Nat := powerOfTwo 63

/-- Asks for the room of an array. -/
def allocate (bytes : UInt64) : Except ParameterFault Unit :=
  if bytes.toNat < memoryLimit then .ok () else .error (.unallocatable bytes)

end PinnedBench
