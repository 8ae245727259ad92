import PinnedBench.Dataset.Parameters
import PinnedBench.Digest.Sha256
import PinnedBench.Random.Noise

/-!
# The content of a dataset

The content of a dataset is two arrays of numbers, stored as the eight bytes of each number, the
lowest byte first, one number behind the other. All numbers are standard normal draws from one
seeded generator, those of the embeddings before those of the axes.

`Content.hash` is the digest of the embeddings followed by the axes, with nothing in between. The
same parameters always give the same content, and so the same digest.
-/

namespace PinnedBench

/-- The stored arrays of a dataset. -/
structure Content where
  /-- The bytes of the embeddings. -/
  embeddings : ByteArray
  /-- The bytes of the axes. -/
  axes : ByteArray

/-- Numbers as they are stored. -/
def storedBytes (xs : List Double) : ByteArray := ⟨(xs.flatMap Double.toBytes).toArray⟩

/-- An array of so many numbers, and the generator behind them. -/
def drawArray (count : Nat) (g : Generator) : ByteArray × Generator :=
  let (xs, g) := draws Generator.normal count g
  (storedBytes xs, g)

/-- The numbers of an array of so many bytes. -/
def cellCount (bytes : UInt64) : Nat := (bytes / cellBytes).toNat

namespace Content

/-- **The digest of stored arrays** in hexadecimal: that of the embeddings followed by the axes. -/
def hash (c : Content) : String := Sha256.hex (c.embeddings ++ c.axes)

/-- The content that a seed gives to arrays of so many numbers. -/
def draw (seed : UInt64) (embeddings axes : Nat) : Content :=
  let (first, g) := drawArray embeddings (.ofSeed seed)
  let (second, _) := drawArray axes g
  ⟨first, second⟩

/-- The content of a dataset with arrays of the given sizes. -/
def generate (p : Parameters) (s : Sizes) : Content :=
  draw p.seed (cellCount s.embeddings) (cellCount s.axes)

end Content

end PinnedBench
