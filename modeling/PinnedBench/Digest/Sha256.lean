import PinnedBench.Arithmetic
import PinnedBench.Text.Hexadecimal

/-!
# The SHA-256 digest

`Sha256.digest` is the 32-byte SHA-256 digest of a sequence of bytes, and `Sha256.hex` the same
digest in lower-case hexadecimal, the form in which the digest of a dataset is recorded and pinned.

The message is padded to whole blocks of 64 bytes (a set bit, zeros, the length in bits), and every
block is mixed into eight 32-bit registers by 64 rounds over the block's message schedule.
-/

namespace PinnedBench.Sha256

/-- The eight working registers. -/
structure Registers where
  /-- The first register. -/
  a : UInt32
  /-- The second register. -/
  b : UInt32
  /-- The third register. -/
  c : UInt32
  /-- The fourth register. -/
  d : UInt32
  /-- The fifth register. -/
  e : UInt32
  /-- The sixth register. -/
  f : UInt32
  /-- The seventh register. -/
  g : UInt32
  /-- The eighth register. -/
  h : UInt32

/-- The registers before the first block. -/
def start : Registers :=
  ⟨0x6a09e667, 0xbb67ae85, 0x3c6ef372, 0xa54ff53a, 0x510e527f, 0x9b05688c, 0x1f83d9ab, 0x5be0cd19⟩

/-- The constants of the 64 rounds. -/
def roundConstants : Array UInt32 := #[
  0x428a2f98, 0x71374491, 0xb5c0fbcf, 0xe9b5dba5, 0x3956c25b, 0x59f111f1, 0x923f82a4, 0xab1c5ed5,
  0xd807aa98, 0x12835b01, 0x243185be, 0x550c7dc3, 0x72be5d74, 0x80deb1fe, 0x9bdc06a7, 0xc19bf174,
  0xe49b69c1, 0xefbe4786, 0x0fc19dc6, 0x240ca1cc, 0x2de92c6f, 0x4a7484aa, 0x5cb0a9dc, 0x76f988da,
  0x983e5152, 0xa831c66d, 0xb00327c8, 0xbf597fc7, 0xc6e00bf3, 0xd5a79147, 0x06ca6351, 0x14292967,
  0x27b70a85, 0x2e1b2138, 0x4d2c6dfc, 0x53380d13, 0x650a7354, 0x766a0abb, 0x81c2c92e, 0x92722c85,
  0xa2bfe8a1, 0xa81a664b, 0xc24b8b70, 0xc76c51a3, 0xd192e819, 0xd6990624, 0xf40e3585, 0x106aa070,
  0x19a4c116, 0x1e376c08, 0x2748774c, 0x34b0bcb5, 0x391c0cb3, 0x4ed8aa4a, 0x5b9cca4f, 0x682e6ff3,
  0x748f82ee, 0x78a5636f, 0x84c87814, 0x8cc70208, 0x90befffa, 0xa4506ceb, 0xbef9a3f7, 0xc67178f2]

/-- A word rotated to the right. -/
def rotateRight (x n : UInt32) : UInt32 := (x >>> n) ||| (x <<< (32 - n))

/-- One round, with its constant and the schedule's word. -/
def round (r : Registers) (k w : UInt32) : Registers :=
  let s1 := rotateRight r.e 6 ^^^ rotateRight r.e 11 ^^^ rotateRight r.e 25
  let choice := (r.e &&& r.f) ^^^ (~~~ r.e &&& r.g)
  let t1 := r.h + s1 + choice + k + w
  let s0 := rotateRight r.a 2 ^^^ rotateRight r.a 13 ^^^ rotateRight r.a 22
  let majority := (r.a &&& r.b) ^^^ (r.a &&& r.c) ^^^ (r.b &&& r.c)
  ⟨t1 + (s0 + majority), r.a, r.b, r.c, r.d + t1, r.e, r.f, r.g⟩

/-- The next word of the message schedule, from the sixteen before it. -/
def nextWord (w : Array UInt32) : UInt32 :=
  let back (i : Nat) : UInt32 := w.getD (w.size - i) 0
  let s0 := rotateRight (back 15) 7 ^^^ rotateRight (back 15) 18 ^^^ (back 15 >>> 3)
  let s1 := rotateRight (back 2) 17 ^^^ rotateRight (back 2) 19 ^^^ (back 2 >>> 10)
  back 16 + s0 + back 7 + s1

/-- The schedule with `n` more words. -/
def extend : Nat → Array UInt32 → Array UInt32
  | 0, w => w
  | n + 1, w => extend n (w.push (nextWord w))

/-- The byte at a position, zero beyond the end. -/
def byteAt (m : ByteArray) (i : Nat) : UInt8 := if h : i < m.size then m[i] else 0

/-- The big-endian word at a position. -/
def wordAt (m : ByteArray) (i : Nat) : UInt32 :=
  ((byteAt m i).toUInt32 <<< 24) ||| ((byteAt m (i + 1)).toUInt32 <<< 16) |||
  ((byteAt m (i + 2)).toUInt32 <<< 8) ||| (byteAt m (i + 3)).toUInt32

/-- The 64 words of the schedule of the block at a position. -/
def schedule (m : ByteArray) (offset : Nat) : Array UInt32 :=
  extend 48 (Array.ofFn fun i : Fin 16 => wordAt m (offset + 4 * i))

/-- Mixes the block at a position into the registers. -/
def mixBlock (m : ByteArray) (offset : Nat) (r : Registers) : Registers :=
  let q := (roundConstants.zip (schedule m offset)).foldl (fun q kw => round q kw.1 kw.2) r
  ⟨r.a + q.a, r.b + q.b, r.c + q.c, r.d + q.d, r.e + q.e, r.f + q.f, r.g + q.g, r.h + q.h⟩

/-- Mixes `n` blocks from a position on. -/
def mixBlocks (m : ByteArray) : Nat → Nat → Registers → Registers
  | 0, _, r => r
  | n + 1, offset, r => mixBlocks m n (offset + 64) (mixBlock m offset r)

/-- The padding of a message of `n` bytes: a set bit, zeros up to eight bytes before a whole block,
and the length in bits. -/
def padding (n : Nat) : ByteArray :=
  -- Nine bytes of the padding are other ones: the byte with the set bit, and the length.
  let zeros := (119 - n % 64) % 64
  let length := (List.range 8).map fun i => (8 * n / powerOfTwo (8 * (7 - i))).toUInt8
  ⟨(0x80 :: List.replicate zeros 0 ++ length).toArray⟩

/-- The bytes of a word, the highest first. -/
def wordBytes (w : UInt32) : List UInt8 :=
  [(w >>> 24).toUInt8, (w >>> 16).toUInt8, (w >>> 8).toUInt8, w.toUInt8]

/-- The registers as a digest. -/
def Registers.toBytes (r : Registers) : List UInt8 :=
  [r.a, r.b, r.c, r.d, r.e, r.f, r.g, r.h].flatMap wordBytes

/-- The SHA-256 digest of a message. -/
def digest (m : ByteArray) : List UInt8 :=
  let whole := m ++ padding m.size
  (mixBlocks whole (whole.size / 64) 0 start).toBytes

/-- The SHA-256 digest in lower-case hexadecimal. -/
def hex (m : ByteArray) : String := String.ofList (hexChars (digest m))

end PinnedBench.Sha256
