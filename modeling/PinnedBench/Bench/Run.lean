import PinnedBench.Bench.Outcome
import PinnedBench.Bench.Workload
import PinnedBench.Dataset.Directory
import PinnedBench.Machine.Host
import PinnedBench.Results.Csv

/-!
# Running a benchmark

`Bench.run` refuses a configuration that measures nothing and a descriptor that the lock of its
directory does not pin; only then are the implementations run, one after the other, and their
resources observed if that is asked for. `Bench.save` keeps an outcome as a results table and a
summary.
-/

namespace PinnedBench

namespace Bench

variable {m : Type → Type} [Monad m]

/-- Runs one implementation. -/
def measure [Host m] (c : Configuration) (i : Implementation) : m Measurement := do
  let work := fun (_ : Unit) => Workload.durations i.variant c.runs
  if c.observes then
    let (durations, samples) ← Host.observe work
    pure ⟨i, durations, some (.of samples)⟩
  else pure ⟨i, work (), none⟩

/-- **Runs the implementations** on a dataset that its lock pins. -/
def run [Files m] [Host m] (x : Descriptor) (directory : Path)
    (implementations : List Implementation) (c : Configuration) : ExceptT Fault m Outcome := do
  checked .parameter c.validate
  Dataset.verifyLock x directory
  ExceptT.lift (implementations.mapM (measure c))

/-- The file of the results table. -/
def tableName : String := "results.csv"

/-- The file of the summary. -/
def summaryName : String := "summary.json"

/-- Keeps an outcome in a directory and gives the paths of the table and of the summary. -/
def save [Files m] (o : Outcome) (directory : Path) (x : Descriptor) (c : Configuration) :
    ExceptT Fault m (Path × Path) := do
  makeDirectories directory
  let tablePath := directory.join tableName
  writeText tablePath o.table.toCsv
  let summaryPath := directory.join summaryName
  writeText summaryPath (RunSummary.of o x c).document
  pure (tablePath, summaryPath)

end Bench

/-- Loads a summary of runs. -/
def RunSummary.load {m : Type → Type} [Monad m] [Files m] (path : Path) :
    ExceptT Fault m RunSummary := do
  let text ← readText path
  checked id (RunSummary.ofText text)

end PinnedBench
