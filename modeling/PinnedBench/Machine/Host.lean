import PinnedBench.Double
import PinnedBench.Machine.Stamp
import PinnedBench.Profile.Series

/-!
# The host

What a program needs from the machine beside its files. A benchmark leaves the machine alone for a
while, watches it while something is computed, and asks for the time and the place: that is `Host`.
A command also tells what it does: that is `Console`. The program asks the machine; a pure host
answers from its state.
-/

namespace PinnedBench

/-- What a benchmark needs from the machine. -/
class Host (m : Type → Type) where
  /-- Leaves the machine alone for so many milliseconds and gives the seconds that have passed. -/
  settle : Nat → m Double
  /-- Computes a value and gives it with the samples taken meanwhile. -/
  observe : {β : Type} → (Unit → β) → m (β × List (Sample Double))
  /-- The time and the place. -/
  stamp : m Stamp

/-- Where a command tells what it does. -/
class Console (m : Type → Type) where
  /-- Prints a text that belongs to the outcome. -/
  print : String → m Unit
  /-- Prints a text about the way there. -/
  remark : String → m Unit

end PinnedBench
