import PinnedBench.Bench.Run
import PinnedBench.Command.Basic
import PinnedBench.Command.Failure
import PinnedBench.Conversion.Build
import PinnedBench.Report.Files

/-!
# Execution of commands

`Command.execute` does what a command asks for and prints what it comes to. A command that fails
ends there, within the `Activity` that has failed.

* A command loads all that it needs before it writes anything. A dataset that has been generated is
  verified afterwards.
* A benchmark holds its dataset against the lock before the machine settles and again before it
  runs.
-/

namespace PinnedBench

variable {m : Type → Type} [Monad m]

/-- A step whose faults are told alone. -/
def plainly {α : Type} (step : ExceptT Fault m α) : ExceptT Failure m α :=
  ExceptT.adapt Failure.fault step

/-- A step whose faults are told within an activity. -/
def during {α : Type} (activity : Activity) (step : ExceptT Fault m α) : ExceptT Failure m α :=
  ExceptT.adapt (Failure.within activity) step

/-- Prints a line. -/
def say [Console m] (line : String) : ExceptT Failure m Unit :=
  ExceptT.lift (Console.print (line ++ "\n"))

/-- Prints lines. -/
def sayAll [Console m] (lines : List String) : ExceptT Failure m Unit := lines.forM say

section Commands

variable [Files m] [Host m] [Console m]

/-! ### Datasets -/

/-- Verifies a dataset. -/
def VerifyArguments.execute (a : VerifyArguments) : ExceptT Failure m Unit := do
  let hash ← ExceptT.adapt Failure.unverified (Dataset.verify a.directory)
  say s!"✓ Dataset verified: {hash}"

/-- Generates a dataset and verifies it. -/
def GenerateArguments.execute (a : GenerateArguments) : ExceptT Failure m Unit := do
  let p := a.parameters
  say s!"Generating dataset: N={p.n}, M={p.m}, D={p.d}, seed={p.seed}"
  let x ← during (.generating a.directory) (Dataset.generate p a.directory a.overwrite)
  say s!"  Hash: {x.hash}"
  say s!"  Size: {x.sizes.total} bytes"
  VerifyArguments.execute ⟨a.directory⟩

/-! ### Benchmarks -/

/-- The characters that make up the first so many bytes of a text, if a character ends there. -/
def leadingBytes? : Nat → List Char → Option (List Char)
  | 0, _ => some []
  | _ + 1, [] => none
  | n + 1, c :: cs =>
    if c.utf8Size ≤ n + 1 then (leadingBytes? (n + 1 - c.utf8Size) cs).map (c :: ·) else none

/-- The start of a digest: its first sixteen bytes, or all of it. -/
def digestStart (hash : String) : String :=
  -- Bytes that end within a character make no text, and then nothing is cut off.
  match leadingBytes? 16 hash.toList with
  | some cs => String.ofList cs
  | none => hash

/-- The directory of a dataset, given the path of its descriptor. -/
def datasetDirectory (descriptor : Path) : Path :=
  match descriptor.parent? with
  | some above => if above.isEmpty then ⟨"."⟩ else above
  | none => ⟨"."⟩

/-- Lets the machine settle if that is asked for, and gives the seconds that it was left alone. -/
def Configuration.settle (c : Configuration) (limit : Nat) : m Double :=
  match if c.settles then c.mode.settleTime limit else none with
  | some milliseconds => Host.settle milliseconds
  | none => pure ((0 : Nat) : Double)

/-- A comparison as the lines that are printed of it. -/
def Comparison.console (c : Comparison Double) : List String :=
  ["", "Baseline:  " ++ c.baseline.median.fixed 1 ++ "ms (median)",
    "Optimized: " ++ c.optimized.median.fixed 1 ++ "ms (median)",
    "Delta:     " ++ c.delta.fixed 1 ++ "ms",
    "Gain:      " ++ c.gain.fixed 1 ++ "%",
    "Verdict:   " ++ c.verdict.word]

/-- The comparison of the first two measurements as lines, if there are two. -/
def Outcome.comparisonLines : Outcome → List String
  | baseline :: optimized :: _ =>
    (Comparison.of baseline.durations optimized.durations).console
  | _ => []

/-- Runs a benchmark, and gives the descriptor that it was run with, the configuration with the time
that was waited, and what has been measured. -/
def RunArguments.measured (a : RunArguments) :
    ExceptT Failure m (Descriptor × Configuration × Outcome) := do
  let x ← during (.loading a.descriptor) (Dataset.load a.descriptor)
  say (s!"Dataset: N={x.n}, M={x.m}, D={x.d} (" ++ digestStart x.hash ++ "...)")
  let directory := datasetDirectory a.descriptor
  let implementations ← plainly (checked .implementations
    (Implementation.parseList a.implementations.toList))
  -- A dataset that is not pinned is refused before any time is spent on settling.
  during .checkingLock (Dataset.verifyLock x directory)
  let waited ← ExceptT.lift (a.configuration.settle (1000 * a.settleLimit.toNat))
  let c := { a.configuration with waited := waited }
  say s!"Benchmarking {implementations.length} implementations:"
  sayAll (implementations.map fun i => "  - " ++ i.key)
  let outcome ← plainly (Bench.run x directory implementations c)
  pure (x, c, outcome)

/-- Keeps what a benchmark has measured, and prints the comparison and where the results are. -/
def RunArguments.conclude (a : RunArguments) (x : Descriptor) (c : Configuration) (o : Outcome) :
    ExceptT Failure m Unit := do
  let (table, summary) ← during (.saving a.directory) (Bench.save o a.directory x c)
  sayAll o.comparisonLines
  sayAll ["", "✓ Results: " ++ table.text, "✓ Summary: " ++ summary.text]

/-- Runs a benchmark and keeps its results. -/
def RunArguments.execute (a : RunArguments) : ExceptT Failure m Unit := do
  let (x, c, outcome) ← a.measured
  a.conclude x c outcome

/-! ### Reports -/

/-- Writes a report and prints its headline. -/
def Report.deliver (r : Report) (target : Path) : ExceptT Failure m Unit := do
  during (.writing target) (r.write target)
  say s!"✓ Report generated: {target.text}"
  ExceptT.lift (Console.print r.headline)

/-- Builds a report from a benchmark. -/
def ReportArguments.execute (a : ReportArguments) : ExceptT Failure m Unit := do
  let summary ← during (.loading a.summary) (RunSummary.load a.summary)
  let x ← during (.loading a.descriptor) (Dataset.load a.descriptor)
  let evidence ← during .loadingEvidence (loadEvidence a.evidence)
  let rates ← match a.rates with
    | some path => during (.loading path) (Rates.load path)
    | none => pure .standard
  let inputs := { Inputs.of summary x.identity a.baseline a.optimized with
    evidence := some evidence
    commandLine := a.commandLine
    rates := rates }
  let stamp ← ExceptT.lift Host.stamp
  (Report.build inputs stamp).deliver a.target

/-- Builds a report from collected figures. -/
def ConvertArguments.execute (a : ConvertArguments) : ExceptT Failure m Unit := do
  let x ← during (.loading a.source) (Collection.load a.source)
  let dataset ← a.descriptor.mapM fun path => do
    pure (← plainly (Dataset.load path)).identity
  let stamp ← ExceptT.lift Host.stamp
  let r ← plainly (checked id (x.report a.baseline a.optimized dataset stamp))
  r.deliver a.target

/-! ### Commands -/

/-- **Does what a command asks for.** -/
def Command.execute : Command → ExceptT Failure m Unit
  | .generate a => a.execute
  | .verify a => a.execute
  | .run a => a.execute
  | .report a => a.execute
  | .convert a => a.execute

end Commands

end PinnedBench
