/-!
# The seeded generator

Random words come from the ChaCha stream cipher with twelve rounds. A 64-bit seed is stretched into
a 256-bit key by a linear congruential step with an output permutation (`Generator.stretch`); the
cipher's blocks for the counters 0, 1, 2, … are then read in order, two 32-bit words making one
64-bit word, the lower word first.

A `Generator` is the key, the counter of the next block and what is left of the last one. The same
seed always gives the same words.
-/

namespace PinnedBench

/-- A stream of random words: the key, the next block's counter and the words not read yet. -/
structure Generator where
  /-- The eight words of the key. -/
  key : Vector UInt32 8
  /-- The counter of the next block. -/
  counter : UInt64
  /-- The words of the last block that have not been read. -/
  pending : List UInt64

namespace Generator

/-! ### Seeding -/

/-- The state that follows in the stretching of a seed. -/
def advance (s : UInt64) : UInt64 := s * 6364136223846793005 + 11634580027462260723

/-- The word that a state of the stretching gives: its mixed upper half, rotated by its top bits. -/
def permuted (s : UInt64) : UInt32 :=
  let mixed := (((s >>> 18) ^^^ s) >>> 27).toUInt32
  let turn := (s >>> 59).toUInt32
  (mixed >>> turn) ||| (mixed <<< ((32 - turn) % 32))

/-- The `n`-th state of the stretching, counted from the seed. -/
def stateAt (seed : UInt64) : Nat → UInt64
  | 0 => seed
  | n + 1 => advance (stateAt seed n)

/-- The key of a seed. -/
def stretch (seed : UInt64) : Vector UInt32 8 :=
  Vector.ofFn fun i => permuted (stateAt seed (i + 1))

/-- The generator of a seed, before any word has been read. -/
def ofSeed (seed : UInt64) : Generator := ⟨stretch seed, 0, []⟩

/-! ### Blocks -/

/-- A word rotated to the left. -/
def rotateLeft (x n : UInt32) : UInt32 := (x <<< n) ||| (x >>> (32 - n))

/-- The quarter round on four of the sixteen words. -/
def quarterRound (v : Vector UInt32 16) (a b c d : Fin 16) : Vector UInt32 16 :=
  let v := v.set a (v[a] + v[b])
  let v := v.set d (rotateLeft (v[d] ^^^ v[a]) 16)
  let v := v.set c (v[c] + v[d])
  let v := v.set b (rotateLeft (v[b] ^^^ v[c]) 12)
  let v := v.set a (v[a] + v[b])
  let v := v.set d (rotateLeft (v[d] ^^^ v[a]) 8)
  let v := v.set c (v[c] + v[d])
  v.set b (rotateLeft (v[b] ^^^ v[c]) 7)

/-- Two rounds: the four columns, then the four diagonals. -/
def doubleRound (v : Vector UInt32 16) : Vector UInt32 16 :=
  let v := quarterRound v 0 4 8 12
  let v := quarterRound v 1 5 9 13
  let v := quarterRound v 2 6 10 14
  let v := quarterRound v 3 7 11 15
  let v := quarterRound v 0 5 10 15
  let v := quarterRound v 1 6 11 12
  let v := quarterRound v 2 7 8 13
  quarterRound v 3 4 9 14

/-- The block's input: four constants, the key, the counter and the stream number zero. -/
def blockInput (key : Vector UInt32 8) (counter : UInt64) : Vector UInt32 16 :=
  #v[0x61707865, 0x3320646e, 0x79622d32, 0x6b206574,
    key[0], key[1], key[2], key[3], key[4], key[5], key[6], key[7],
    counter.toUInt32, (counter >>> 32).toUInt32, 0, 0]

/-- The sixteen words of a block: twelve rounds added to the input. -/
def block (key : Vector UInt32 8) (counter : UInt64) : Vector UInt32 16 :=
  let input := blockInput key counter
  let mixed := Nat.repeat doubleRound 6 input
  Vector.zipWith (· + ·) mixed input

/-- The eight 64-bit words of a block, the lower half of each first. -/
def blockWords (key : Vector UInt32 8) (counter : UInt64) : List UInt64 :=
  let v := block key counter
  (List.finRange 8).map fun i =>
    (v.get ⟨2 * i.val, by omega⟩).toUInt64 ||| ((v.get ⟨2 * i.val + 1, by omega⟩).toUInt64 <<< 32)

/-- The next 64-bit word. -/
def next (g : Generator) : UInt64 × Generator :=
  match g.pending with
  | w :: rest => (w, { g with pending := rest })
  | [] =>
    match blockWords g.key g.counter with
    | w :: rest => (w, { g with counter := g.counter + 1, pending := rest })
    -- A block is never empty.
    | [] => (0, { g with counter := g.counter + 1 })

end Generator

end PinnedBench
