import PinnedBench.Command.Program
import PinnedBench.Machine.Clock
import PinnedBench.Machine.Repository
import PinnedBench.Profile.Counters

/-!
# The program on a machine

The operations that the library needs from files, host and console, run on the machine itself.
-/

namespace PinnedBench

/-- Why the machine refuses an operation. -/
def Refusal.ofError : IO.Error → Refusal
  | .noFileOrDirectory .. => .missing
  | e => .other (toString e)

/-- The outcome of an operation on files. -/
def attempt {α : Type} (operation : IO α) : IO (Except Refusal α) := do
  match ← operation.toBaseIO with
  | .ok a => pure (.ok a)
  | .error e => pure (.error (.ofError e))

instance : Files IO where
  present p := do
    match ← (IO.FS.realPath p.text).toBaseIO with
    | .ok _ => pure true
    | .error _ => pure false
  read p := attempt (IO.FS.readBinFile p.text)
  write p content := attempt (IO.FS.writeBinFile p.text content)
  makeDirectories p := attempt (IO.FS.createDirAll p.text)

/-- The text of a file, if it can be read. -/
def textOf? (path : String) : IO (Option String) := do
  match ← (IO.FS.readFile path).toBaseIO with
  | .ok text => pure (some text)
  | .error _ => pure none

/-- The machine as the kernel describes it. -/
def currentMachine : IO Machine := do
  let hostNames := [← textOf? "/proc/sys/kernel/hostname", ← IO.getEnv "HOSTNAME",
    ← textOf? "/etc/hostname"]
  pure (.ofTexts hostNames (← textOf? "/proc/sys/kernel/osrelease") (← textOf? "/proc/cpuinfo"))

/-- The commit of the current directory. -/
def currentCommit : IO (Option String) := do
  match (← textOf? ".git/HEAD").bind Head.ofText with
  | none => pure none
  | some head =>
    let own ← match head with
      | .branch name => textOf? s!".git/{name}"
      | .commit _ => pure none
    pure (head.hash own (← textOf? ".git/packed-refs"))

/-- The counters of the kernel. -/
def currentCounters : IO CounterTexts := do
  pure ⟨← textOf? "/proc/stat", ← textOf? "/proc/meminfo", ← textOf? "/proc/diskstats"⟩

/-- The milliseconds in a number of nanoseconds. -/
def millisecondsOf (nanoseconds : Nat) : Double :=
  (nanoseconds : Double) / ((1000000 : Nat) : Double)

/-- Waits for a signal, in steps of some milliseconds, and tells whether it has come. -/
def waitFor (signal : IO.Ref Bool) (step : UInt32) : Nat → IO Bool
  | 0 => signal.get
  | n + 1 => do
    if ← signal.get then pure true
    else
      IO.sleep step
      waitFor signal step n

/-- Takes samples until a signal comes, one at once and then ten in a second. -/
partial def sampleUntil (signal : IO.Ref Bool) (start : Nat) (memory : CpuMemory)
    (taken : Array (Sample Double)) : IO (Array (Sample Double)) := do
  let (reading, memory) := (← currentCounters).reading memory
  let taken := taken.push ⟨millisecondsOf ((← IO.monoNanosNow) - start), reading⟩
  if ← waitFor signal 5 20 then pure taken
  else sampleUntil signal start memory taken

instance : Host IO where
  settle milliseconds := do
    let start ← IO.monoNanosNow
    IO.sleep milliseconds.toUInt32
    pure (millisecondsOf ((← IO.monoNanosNow) - start) / ((1000 : Nat) : Double))
  observe work := do
    let signal ← IO.mkRef false
    let start ← IO.monoNanosNow
    let sampler ← IO.asTask (sampleUntil signal start none #[]) .dedicated
    let value ← IO.lazyPure work
    signal.set true
    match ← IO.wait sampler with
    | .ok samples => pure (value, samples.toList)
    | .error _ => pure (value, [])
  stamp := do
    let moment := Moment.ofTexts (← textOf? "/proc/stat") (← textOf? "/proc/uptime")
    pure ⟨moment, ← currentMachine, ← currentCommit⟩

instance : Console IO where
  print := IO.print
  remark := IO.eprint

end PinnedBench

/-- Runs the program. -/
def main (words : List String) : IO UInt32 := PinnedBench.runProgram words
