import PinnedBench.Decimal.Style
import PinnedBench.Text.Numeral

/-!
# Faults

Everything that can go wrong in this library is a `Fault`: a cause, with the data that describes it.
The wording of a cause is a function of it (`Fault.message`), so that no other definition has to
build or inspect texts. Statistics never fail.

Causes that belong to one kind of input have a type of their own: `ParameterFault` for numbers out
of their range, `TableFault` for results tables, `ImplementationFault` for lists of implementations.
-/

namespace PinnedBench

/-! ### Parameters -/

/-- A number that is out of its range. -/
inductive ParameterFault where
  /-- A dimension of a dataset is not positive. -/
  | dimensions (n m d : Int)
  /-- The arrays of a dataset do not fit the address space. -/
  | tooLarge (n m d : Int)
  /-- An array is larger than anything that memory can hold. -/
  | unallocatable (bytes : UInt64)
  /-- No run is to be measured. -/
  | noRuns
  /-- A run is to be repeated no times. -/
  | noRepeat
  /-- A rate of the impact projection is negative or not finite. -/
  | rate (name : String) (value : Double)
  deriving DecidableEq, Repr

/-- The wording of a parameter fault. -/
def ParameterFault.message : ParameterFault → String
  | dimensions n m d => s!"N, M, and D must be positive integers (got N={n}, M={m}, D={d})"
  | tooLarge n m d => s!"dataset of N={n}, M={m}, D={d} is too large to allocate"
  | unallocatable _ => "capacity overflow"
  | noRuns => "runs must be >= 1"
  | noRepeat => "repeat must be >= 1"
  | rate name value =>
    s!"{name} must be a non-negative number, got " ++ NumberStyle.message.text value

/-! ### Results tables -/

/-- What is wrong with a row of a results table. -/
inductive RowFault where
  /-- The row does not have four fields. -/
  | fieldCount (count : Nat)
  /-- The third field is no run index. -/
  | runIndex (cause : WholeFault)
  /-- The fourth field is no duration. -/
  | duration (cause : RealFault)
  deriving DecidableEq, Repr

/-- The wording of a row fault. -/
def RowFault.message : RowFault → String
  | fieldCount count => s!"expected 4 fields, got {count}"
  | runIndex cause => "bad run index: " ++ cause.message
  | duration cause => "bad duration: " ++ cause.message

/-- The header line of a results table. -/
def tableHeader : String := "impl,variant,run,duration_ms"

/-- What is wrong with a results table. -/
inductive TableFault where
  /-- There is no header line. -/
  | empty
  /-- The first line is another one. -/
  | header (found : String)
  /-- A row, named by its line in the text, is not well formed. -/
  | row (line : Nat) (cause : RowFault)
  deriving DecidableEq, Repr

/-- The wording of a table fault. -/
def TableFault.message : TableFault → String
  | empty => "empty results CSV"
  | header found => s!"unexpected CSV header '{found}', expected '{tableHeader}'"
  | row line cause => s!"line {line}: " ++ cause.message

/-! ### Implementation lists -/

/-- What is wrong with a list of implementations. -/
inductive ImplementationFault where
  /-- An entry is not a language and a variant joined by a hyphen. -/
  | form (text : String)
  /-- The list has no entry. -/
  | noneGiven
  deriving DecidableEq, Repr

/-- The wording of an implementation fault. -/
def ImplementationFault.message : ImplementationFault → String
  | form text =>
    s!"invalid implementation format '{text}', expected language-variant (e.g. python-naive)"
  | noneGiven => "no implementations given"

/-! ### All faults -/

/-- The causes of failure of this library. -/
inductive Fault where
  /-- A number is out of its range. -/
  | parameter (cause : ParameterFault)
  /-- A dataset is in the way. -/
  | alreadyExists (directory : String)
  /-- A file is missing. -/
  | notFound (path : String)
  /-- A recorded digest is not the pinned one. -/
  | integrity (expected actual : String)
  /-- A results table cannot be read. -/
  | table (cause : TableFault)
  /-- A list of implementations cannot be read. -/
  | implementations (cause : ImplementationFault)
  /-- A document, named by what it is or where it is, cannot be read. -/
  | document (name reason : String)
  /-- No entry of a table has the name. -/
  | unknownImplementation (name : String)
  /-- The file system refused an operation. -/
  | storage (reason : String)
  deriving DecidableEq, Repr

/-- Whether the program breaks down at a fault, where others are reported. -/
def Fault.isCrash : Fault → Bool
  | parameter (.unallocatable _) => true
  | _ => false

/-- **The wording of a fault.** -/
def Fault.message : Fault → String
  | parameter (.unallocatable bytes) => (ParameterFault.unallocatable bytes).message
  | parameter cause => "Invalid parameters: " ++ cause.message
  | alreadyExists directory =>
    s!"Dataset already exists at {directory}; pass --force to overwrite"
  | notFound path => s!"Not found: {path}"
  | integrity expected actual => s!"Integrity mismatch: expected {expected}, got {actual}"
  | table cause => "Malformed input: " ++ cause.message
  | implementations cause => "Malformed input: " ++ cause.message
  | document name reason => s!"Malformed input: {name}: {reason}"
  | unknownImplementation name => s!"Implementation '{name}' not found in entries"
  | storage reason => s!"IO error: {reason}"

end PinnedBench
