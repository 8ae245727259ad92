import PinnedBench.Double
import PinnedBench.Random.Generator

/-!
# Noise

A `Noise` is a source of random numbers read one at a time from a state: standard normal draws, and
draws from the half-open range from zero to ten. What is computed from noise is written for any
source; the program uses `Noise.seeded`, which reads a seeded generator.

A normal draw takes two uniform numbers and applies the Box–Muller transform. The first of them is
turned round, so that the logarithm is never taken of zero.

`draws` reads a number of values in order and hands back the state that follows them.
-/

namespace PinnedBench

/-- A source of random numbers over states `σ`. -/
structure Noise (σ α : Type) where
  /-- A standard normal draw. -/
  normal : σ → α × σ
  /-- A draw from zero to ten, ten excluded. -/
  toTen : σ → α × σ

/-- Reads `n` more values behind those of `taken`. -/
def drawsOnto {σ α : Type} (draw : σ → α × σ) : Nat → σ → Array α → Array α × σ
  | 0, s, taken => (taken, s)
  | n + 1, s, taken => drawsOnto draw n (draw s).2 (taken.push (draw s).1)

/-- Reads `n` values in order. -/
def draws {σ α : Type} (draw : σ → α × σ) (n : Nat) (s : σ) : List α × σ :=
  let (taken, s) := drawsOnto draw n s #[]
  (taken.toList, s)

@[simp]
theorem size_drawsOnto {σ α : Type} (draw : σ → α × σ) (n : Nat) (s : σ) (taken : Array α) :
    (drawsOnto draw n s taken).1.size = taken.size + n := by
  induction n generalizing s taken with
  | zero => rfl
  | succ n ih => simp [drawsOnto, ih]; omega

@[simp]
theorem length_draws {σ α : Type} (draw : σ → α × σ) (n : Nat) (s : σ) :
    (draws draw n s).1.length = n := by
  simp [draws]

namespace Generator

/-- A number from zero to one, one excluded: the upper 53 bits of a word, scaled. -/
def unit (g : Generator) : Float × Generator :=
  let (w, g) := g.next
  ((w >>> 11).toFloat * Float.ofBits 0x3ca0000000000000, g)

/-- **A standard normal draw** by the Box–Muller transform of two uniform numbers. -/
def normal (g : Generator) : Double × Generator :=
  let (first, g) := g.unit
  let (second, g) := g.unit
  let radius := (-2.0 * (1.0 - first).log).sqrt
  let turn := Float.ofBits 0x401921fb54442d18 * second
  (.ofFloat (radius * turn.cos), g)

/-- A draw from zero to ten: a number from one to two with the upper 52 bits of a word as its
fraction, moved to zero and scaled. The largest such number is scaled to the neighbour below ten. -/
def toTen (g : Generator) : Double × Generator :=
  let (w, g) := g.next
  (.ofFloat ((Float.ofBits ((w >>> 12) ||| 0x3ff0000000000000) - 1.0) * 10.0 + 0.0), g)

end Generator

/-- The noise of a seeded generator. -/
def Noise.seeded : Noise Generator Double where
  normal := Generator.normal
  toTen := Generator.toTen

end PinnedBench
