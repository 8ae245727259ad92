import PinnedBench.Bench.Configuration
import PinnedBench.Bench.Implementation
import PinnedBench.Dataset.Parameters
import PinnedBench.Files.Path

/-!
# Commands

A `Command` is what the program can be asked to do: to generate a dataset, to verify one, to run a
benchmark, to build a report from a benchmark, or to build one from collected figures. Every command
has a structure of arguments, and `standard` arguments are those that hold unless others are given.
-/

namespace PinnedBench

/-- What a dataset is generated from. -/
structure GenerateArguments where
  /-- The parameters of the dataset. -/
  parameters : Parameters
  /-- The directory of the dataset. -/
  directory : Path
  /-- Whether a dataset that is there already is replaced. -/
  overwrite : Bool
  deriving DecidableEq, Repr

/-- What is verified. -/
structure VerifyArguments where
  /-- The directory of the dataset. -/
  directory : Path
  deriving DecidableEq, Repr

/-- How a benchmark is run. -/
structure RunArguments where
  /-- The descriptor of the dataset. -/
  descriptor : Path
  /-- The list of implementations, as it is written. -/
  implementations : String
  /-- The configuration, but for the time that the machine settles. -/
  configuration : Configuration
  /-- The most seconds that the machine may settle. -/
  settleLimit : UInt64
  /-- The directory of the results. -/
  directory : Path
  deriving DecidableEq, Repr

/-- What a report is built from. -/
structure ReportArguments where
  /-- The summary of the runs. -/
  summary : Path
  /-- The evidence of a telemetry agent. -/
  evidence : Option Path
  /-- The descriptor of the dataset. -/
  descriptor : Path
  /-- The file of the report. -/
  target : Path
  /-- The command line to be reported. -/
  commandLine : String
  /-- The baseline. -/
  baseline : Implementation
  /-- The optimized side. -/
  optimized : Implementation
  /-- The constants of the projection. -/
  rates : Option Path
  deriving DecidableEq, Repr

/-- Which collected figures are made a report. -/
structure ConvertArguments where
  /-- The file of the figures. -/
  source : Path
  /-- The file of the report. -/
  target : Path
  /-- The implementation that is the baseline. -/
  baseline : String
  /-- The implementation that is the optimized side. -/
  optimized : String
  /-- The descriptor of the dataset. -/
  descriptor : Option Path
  deriving DecidableEq, Repr

namespace GenerateArguments

/-- The standard dataset. -/
def standard : GenerateArguments := ⟨.standard, ⟨"data"⟩, false⟩

end GenerateArguments

namespace VerifyArguments

/-- The directory of the standard dataset. -/
def standard : VerifyArguments := ⟨⟨"data"⟩⟩

end VerifyArguments

namespace RunArguments

/-- A standard benchmark of no implementation. -/
def standard : RunArguments := ⟨⟨""⟩, "", .standard, 60, ⟨"runner"⟩⟩

end RunArguments

namespace ReportArguments

/-- A standard report of nothing. -/
def standard : ReportArguments :=
  ⟨⟨""⟩, none, ⟨""⟩, ⟨"report.json"⟩, "", ⟨"python", "naive"⟩, ⟨"python", "numpy"⟩, none⟩

end ReportArguments

namespace ConvertArguments

/-- A standard conversion of nothing. -/
def standard : ConvertArguments := ⟨⟨""⟩, ⟨"report.json"⟩, "", "", none⟩

end ConvertArguments

/-- What the program can be asked to do. -/
inductive Command where
  /-- To generate a dataset. -/
  | generate (arguments : GenerateArguments)
  /-- To verify a dataset. -/
  | verify (arguments : VerifyArguments)
  /-- To run a benchmark. -/
  | run (arguments : RunArguments)
  /-- To build a report from a benchmark. -/
  | report (arguments : ReportArguments)
  /-- To build a report from collected figures. -/
  | convert (arguments : ConvertArguments)
  deriving DecidableEq, Repr

/-- A command line. -/
structure Invocation where
  /-- The command. -/
  command : Command
  /-- Whether the program tells what it does. -/
  debug : Bool
  deriving DecidableEq, Repr

end PinnedBench
