import PinnedBench.Command.Execution
import PinnedBench.Command.Usage

/-!
# The program

`runProgram` reads a command line, does what it asks for, and gives the code that the program ends
with: zero if all went well, one if a command failed, two if the command line is not taken. A crash
has a code of its own (`Failure.code`).
-/

namespace PinnedBench

/-- The name of a command. -/
def Command.name : Command → String
  | .generate _ => "generate"
  | .verify _ => "verify"
  | .run _ => "run"
  | .report _ => "report"
  | .convert _ => "convert"

variable {m : Type → Type} [Monad m] [Files m] [Host m] [Console m]

/-- Does what a command line asks for and gives the exit code. -/
def Invocation.perform (i : Invocation) : m UInt32 := do
  if i.debug then Console.remark s!"DEBUG {i.command.name}\n"
  match ← i.command.execute.run with
  | .ok () => pure 0
  | .error failure => do
    Console.remark (failure.message ++ "\n")
    pure failure.code

/-- **Runs the program** on the words of a command line and gives the exit code. -/
def runProgram (words : List String) : m UInt32 := do
  match Invocation.ofWords words with
  | .ok i => i.perform
  | .error stop =>
    if stop.isAnswer then do
      Console.print stop.text
      pure 0
    else do
      Console.remark stop.text
      pure 2

end PinnedBench
