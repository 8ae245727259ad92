import PinnedBench.Fault
import PinnedBench.Files.Path

/-!
# Access to files

What this library does with files it does through the four operations of `Files`: ask whether there
is something at a path, read a file, write a file, and make a directory with those above it. The
program runs them on the machine's file system; `PinnedBench.Store` is a file system held in memory,
on which the same definitions can be run and reasoned about.

An operation that is refused gives a `Refusal`. A file that is to be read and is missing has a fault
of its own; every other refusal is a fault of the storage. Text files are UTF-8.
-/

namespace PinnedBench

/-- Why an operation on files is refused. -/
inductive Refusal where
  /-- There is nothing at the path. -/
  | missing
  /-- A part of the path that is to be a directory is none. -/
  | notDirectory
  /-- There is a directory where a file is wanted. -/
  | isDirectory
  /-- There is something already. -/
  | alreadyThere
  /-- The path or a part of it is too long. -/
  | tooLong
  /-- The path has a character that no path may have. -/
  | invalidPath
  /-- The content of a file is no text. -/
  | invalidText
  /-- The machine refuses, for a reason of its own. -/
  | other (reason : String)
  deriving DecidableEq, Repr

/-- The wording of a refusal. -/
def Refusal.message : Refusal → String
  | missing => "no such file or directory"
  | notDirectory => "not a directory"
  | isDirectory => "is a directory"
  | alreadyThere => "file exists"
  | tooLong => "file name too long"
  | invalidPath => "file name contains an unexpected NUL byte"
  | invalidText => "stream did not contain valid UTF-8"
  | other reason => reason

/-- The fault of a file that cannot be read. -/
def Refusal.onRead (path : Path) : Refusal → Fault
  | missing => .notFound path.text
  | r => .storage r.message

/-- The fault of a file or directory that cannot be written. -/
def Refusal.onWrite (r : Refusal) : Fault := .storage r.message

/-- The operations on files. -/
class Files (m : Type → Type) where
  /-- Whether there is something at a path. -/
  present : Path → m Bool
  /-- The content of a file. -/
  read : Path → m (Except Refusal ByteArray)
  /-- Gives a file a content, in place of one it has. -/
  write : Path → ByteArray → m (Except Refusal Unit)
  /-- Makes a directory and those above it, as far as they are missing. -/
  makeDirectories : Path → m (Except Refusal Unit)

variable {m : Type → Type} [Monad m]

/-- The text that bytes write. -/
def textOfBytes (bytes : ByteArray) : Except Refusal String :=
  match String.fromUTF8? bytes with
  | some s => .ok s
  | none => .error .invalidText

/-- The outcome of a check as a step. -/
def checked {α ε : Type} (fault : ε → Fault) (outcome : Except ε α) : ExceptT Fault m α :=
  ExceptT.mk (pure (outcome.mapError fault))

variable [Files m]

/-- The text of a file. -/
def readText (path : Path) : ExceptT Fault m String :=
  ExceptT.mk do
    let content ← Files.read path
    pure ((content >>= textOfBytes).mapError (Refusal.onRead path))

/-- Gives a file a content. -/
def writeFile (path : Path) (content : ByteArray) : ExceptT Fault m Unit :=
  ExceptT.mk do
    let outcome ← Files.write path content
    pure (outcome.mapError Refusal.onWrite)

/-- Gives a file a text as its content. -/
def writeText (path : Path) (text : String) : ExceptT Fault m Unit := writeFile path text.toUTF8

/-- Makes a directory and those above it. -/
def makeDirectories (path : Path) : ExceptT Fault m Unit :=
  ExceptT.mk do
    let outcome ← Files.makeDirectories path
    pure (outcome.mapError Refusal.onWrite)

end PinnedBench
