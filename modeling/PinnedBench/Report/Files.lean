import PinnedBench.Conversion.Entry
import PinnedBench.Dataset.Directory
import PinnedBench.Impact.Configuration
import PinnedBench.Report.Encoding

/-!
# Files of reports

What a report is built from beside the summary of runs is loaded from files: evidence, which may be
missing, constants of the projection, and collected figures. A report is written with the
directories above it.
-/

namespace PinnedBench

variable {m : Type → Type} [Monad m] [Files m]

/-- Loads the evidence of a telemetry agent. No path, or one with nothing there, means that there is
none. -/
def loadEvidence (path : Option Path) : ExceptT Fault m Json := do
  match path with
  | none => pure noEvidence
  | some path =>
    if ← ExceptT.lift (Files.present path) then
      let text ← readText path
      checked (fun e => .document path.text e.message) (Json.ofText text)
    else pure noEvidence

/-- Loads the constants of a projection. -/
def Rates.load (path : Path) : ExceptT Fault m (Rates Double) := do
  let text ← readText path
  checked id (Rates.ofToml text)

/-- Loads collected figures. -/
def Collection.load (path : Path) : ExceptT Fault m Collection := do
  let text ← readText path
  checked id (Collection.ofText text)

namespace Report

/-- Loads a report. -/
def load (path : Path) : ExceptT Fault m Report := do
  let text ← readText path
  checked id (ofText text)

/-- Writes a report, after making the directories above it. -/
def write (r : Report) (path : Path) : ExceptT Fault m Unit := do
  match path.parent? with
  | some above => if above.isEmpty then pure () else makeDirectories above
  | none => pure ()
  writeText path r.document

end Report

end PinnedBench
