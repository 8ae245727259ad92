import PinnedBench.Machine.Stamp
import PinnedBench.Text.Numeral

/-!
# The clock of the kernel

The kernel tells the second of the epoch at which the machine was started, and how long it has been
up, to the hundredth of a second. `Moment.ofTexts` adds the two.
-/

namespace PinnedBench

/-- The number behind the name of a counter, at the start of a line. -/
def counterOf (name : String) (text : String) : Option Nat := do
  let line ← (lines text.toList).find? fun line => (words line).head? == some name.toList
  let number ← (words line)[1]?
  (readWhole (powerOfTwo 63) number).toOption

/-- The nanoseconds in a time that is written in seconds, with places behind a point. -/
def nanosecondsOf (cs : List Char) : Option Nat := do
  let whole ← (readWhole (powerOfTwo 63) (cs.takeWhile (· != '.'))).toOption
  let places := ((cs.dropWhile (· != '.')).drop 1).take 9
  if places.all Char.isDigit then
    some (whole * 1000000000 + digitsValue places * powerOfTen (9 - places.length))
  else none

/-- The moment at which a machine that was started at a second of the epoch has been up for some
nanoseconds. -/
def Moment.afterStart (start nanoseconds : Nat) : Moment where
  seconds := start + nanoseconds / 1000000000
  nanoseconds := (nanoseconds % 1000000000).toUInt32

/-- **The moment** that the counters of the kernel and the time since the start tell; the start of
the epoch if they cannot be read. -/
def Moment.ofTexts (counters upTime : Option String) : Moment :=
  let moment := do
    let start ← counters.bind (counterOf "btime")
    let up ← (words (← upTime).toList).head?
    some (Moment.afterStart start (← nanosecondsOf up))
  moment.getD ⟨0, 0⟩

end PinnedBench
