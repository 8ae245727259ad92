import PinnedBench.Double

/-!
# Results tables

A results table holds one row per measured run: the implementation, its variant, the index of the
run and the duration in milliseconds. Rows keep the order of measurement, and `Table.append` numbers
the runs of one implementation from zero.
-/

namespace PinnedBench

/-- One measured run. -/
structure Row where
  /-- The language or tool. -/
  implementation : String
  /-- The variant within it. -/
  variant : String
  /-- The index of the run. -/
  run : Nat
  /-- The duration in milliseconds. -/
  duration : Double
  deriving DecidableEq, Repr

/-- The rows of measured runs, in the order of measurement. -/
structure Table where
  /-- The rows. -/
  rows : List Row
  deriving DecidableEq, Repr

namespace Table

/-- The table without rows. -/
def empty : Table := ⟨[]⟩

/-- The rows of one implementation's durations, the runs numbered from zero. -/
def rowsOf (implementation variant : String) (durations : List Double) : List Row :=
  durations.zipIdx.map fun (d, run) => ⟨implementation, variant, run, d⟩

/-- The table with the runs of one implementation behind its rows. -/
def append (t : Table) (implementation variant : String) (durations : List Double) : Table :=
  ⟨t.rows ++ rowsOf implementation variant durations⟩

@[simp]
theorem rows_append (t : Table) (implementation variant : String) (durations : List Double) :
    (t.append implementation variant durations).rows =
      t.rows ++ rowsOf implementation variant durations := rfl

/-- The durations of one implementation and variant, in order. -/
def durations (t : Table) (implementation variant : String) : List Double :=
  (t.rows.filter fun r => r.implementation == implementation && r.variant == variant).map
    (·.duration)

end Table

end PinnedBench
