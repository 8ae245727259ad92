import PinnedBench.Dataset.Directory

/-!
# Failures of commands

A command fails by a fault, alone or within an `Activity` of the command, or by a flaw of a dataset
that it verifies. `Failure.message` is the text that the program ends with: what was being done, and
below it the causes. A crash is told as it is, and ends the program with a code of its own.
-/

namespace PinnedBench

/-- What a command is doing when it fails. -/
inductive Activity where
  /-- It generates a dataset. -/
  | generating (directory : Path)
  /-- It loads a file. -/
  | loading (path : Path)
  /-- It loads evidence. -/
  | loadingEvidence
  /-- It holds a descriptor against its lock. -/
  | checkingLock
  /-- It saves results. -/
  | saving (directory : Path)
  /-- It writes a file. -/
  | writing (path : Path)
  deriving DecidableEq, Repr

/-- What is said of an activity that fails. -/
def Activity.message : Activity → String
  | generating directory => s!"Failed to generate dataset in {directory.text}"
  | loading path => s!"Failed to load {path.text}"
  | loadingEvidence => "Failed to load evidence"
  | checkingLock => "Dataset lock check failed"
  | saving directory => s!"Failed to save results to {directory.text}"
  | writing path => s!"Failed to write {path.text}"

/-- Why a command fails. -/
inductive Failure where
  /-- There is a fault. -/
  | fault (cause : Fault)
  /-- There is a fault in an activity. -/
  | within (activity : Activity) (cause : Fault)
  /-- A dataset does not verify. -/
  | unverified (flaw : Flaw)
  deriving DecidableEq, Repr

/-- A fault and what is behind it, from the outside in: behind a fault of the storage there is the
reason that the machine gives. -/
def Fault.chain : Fault → List String
  | .storage reason => [Fault.message (.storage reason), reason]
  | f => [f.message]

namespace Failure

/-- Whether the program breaks down at a failure. -/
def isCrash : Failure → Bool
  | fault cause => cause.isCrash
  | within _ cause => cause.isCrash
  | unverified _ => false

/-- The code that the program ends with. -/
def code (f : Failure) : UInt32 := if f.isCrash then 101 else 1

/-- A failure and its causes, from the outside in. -/
def chain : Failure → List String
  | fault cause => cause.chain
  | within activity cause => activity.message :: cause.chain
  | unverified flaw => ["Dataset verification failed: " ++ flaw.message]

/-- A text whose lines are set in, those behind the first by blanks alone. -/
def setIn (first others text : String) : String :=
  first ++ ("\n" ++ others).intercalate (text.splitOn "\n")

/-- The causes below a failure: one is set in by four blanks, several are numbered. -/
def causesText : List String → String
  | [] => ""
  | [cause] => setIn "    " "    " cause
  | causes =>
    "\n".intercalate (causes.zipIdx.map fun (cause, i) => setIn s!"    {i}: " "       " cause)

/-- **The text of a failure.** Of a crash only the last cause is told. -/
def message (f : Failure) : String :=
  if f.isCrash then f.chain.getLastD ""
  else
    match f.chain with
    | [] => "Error"
    | [only] => "Error: " ++ only
    | first :: causes => "Error: " ++ first ++ "\n\nCaused by:\n" ++ causesText causes

end Failure

end PinnedBench
