import PinnedBench.Dataset.Descriptor
import PinnedBench.Files.Access
import PinnedBench.Text.Blank

/-!
# Dataset directories

A dataset is kept in a directory of four files: the two arrays, the descriptor, and a lock that pins
the digest of the content.

* `Dataset.generate` writes the four files, in that order, and refuses a directory that has a
  descriptor unless it may be overwritten. An array is drawn and written before the next one is
  drawn; where there is no room for it in memory, the generation ends there.
* `Dataset.verify` reads the arrays that the descriptor names, holds their lengths against the
  shapes and their digest against the recorded one. What does not agree is a `Flaw`, not a fault.
* `Dataset.verifyLock` holds the recorded digest against the lock alone.
-/

namespace PinnedBench

/-- Why a dataset directory does not verify. -/
inductive Flaw where
  /-- A file is missing. -/
  | missing (path : String)
  /-- The descriptor cannot be read. -/
  | descriptor (cause : Fault)
  /-- An array cannot be read. -/
  | unreadable (path reason : String)
  /-- The bytes of a shape cannot be counted. -/
  | overflow (shape : ArrayShape)
  /-- An array has another length than its shape requires. -/
  | length (path : String) (found : Nat) (shape : ArrayShape) (required : Nat)
  /-- The arrays have another digest than the recorded one. -/
  | digest (recorded found : String)
  deriving DecidableEq, Repr

/-- A shape as it is written in a message. -/
def ArrayShape.text (s : ArrayShape) : String := s!"[{s.1}, {s.2}]"

/-- The wording of a flaw. -/
def Flaw.message : Flaw → String
  | missing path => s!"{path} not found"
  | descriptor cause => cause.message
  | unreadable path reason => s!"failed to read {path}: {reason}"
  | overflow shape => "shape " ++ shape.text ++ " overflows"
  | length path found shape required =>
    s!"{path} has {found} bytes, shape " ++ shape.text ++ s!" requires {required}"
  | digest recorded found => s!"hash mismatch: expected {recorded}, got {found}"

namespace Dataset

/-- The file of the descriptor. -/
def descriptorName : String := "metadata.json"

/-- The file of the lock. -/
def lockName : String := "dataset.lock"

/-- The path of the descriptor in a directory. -/
def descriptorPath (directory : Path) : Path := directory.join descriptorName

/-- The path of the lock in a directory. -/
def lockPath (directory : Path) : Path := directory.join lockName

/-- The files of a dataset and their contents, in the order in which they are written. -/
def files (x : Descriptor) (c : Content) : List (String × ByteArray) :=
  [(Descriptor.embeddingsName, c.embeddings), (Descriptor.axesName, c.axes),
    (descriptorName, x.document.toUTF8), (lockName, x.hash.toUTF8)]

variable {m : Type → Type} [Monad m] [Files m]

/-! ### Generating -/

/-- Writes files of a directory, one after the other. -/
def writeFiles (directory : Path) : List (String × ByteArray) → ExceptT Fault m Unit
  | [] => pure ()
  | (name, content) :: rest => do
    writeFile (directory.join name) content
    writeFiles directory rest

/-- Draws an array of so many bytes, if there is room for it. -/
def drawStored (bytes : UInt64) (g : Generator) : ExceptT Fault m (ByteArray × Generator) := do
  checked .parameter (allocate bytes)
  pure (drawArray (cellCount bytes) g)

/-- Draws the arrays of a dataset and writes its files. -/
def fill (p : Parameters) (sizes : Sizes) (directory : Path) : ExceptT Fault m Descriptor := do
  let (embeddings, g) ← drawStored sizes.embeddings (.ofSeed p.seed)
  writeFiles directory [(Descriptor.embeddingsName, embeddings)]
  let (axes, _) ← drawStored sizes.axes g
  let descriptor := Descriptor.of p sizes ⟨embeddings, axes⟩
  -- The embeddings stand there already.
  writeFiles directory (files descriptor ⟨embeddings, axes⟩).tail
  pure descriptor

/-- **Generates a dataset** in a directory and gives its descriptor. -/
def generate (p : Parameters) (directory : Path) (overwrite : Bool) :
    ExceptT Fault m Descriptor := do
  checked .parameter p.validate
  let sizes ← checked .parameter p.sizes
  let there ← ExceptT.lift (Files.present (descriptorPath directory))
  if there && !overwrite then throw (.alreadyExists directory.text)
  -- From here on files are written, and nothing is refused any more but room in memory.
  makeDirectories directory
  fill p sizes directory

/-! ### Loading and verifying -/

/-- Loads a descriptor. -/
def load (path : Path) : ExceptT Fault m Descriptor := do
  let text ← readText path
  checked (fun e => .document path.text e.message) (Json.decodeText Descriptor.decode text)

/-- An array of a directory, if its length is the one that its shape requires. -/
def readArray (path : Path) (shape : ArrayShape) : ExceptT Flaw m ByteArray := do
  match ← ExceptT.lift (Files.read path) with
  | .error .missing => throw (.missing path.text)
  | .error e => throw (.unreadable path.text e.message)
  | .ok bytes =>
    match arrayBytes? shape.1 shape.2 with
    | none => throw (.overflow shape)
    | some required =>
      if bytes.size = required.toNat then pure bytes
      else throw (.length path.text bytes.size shape required.toNat)

/-- **Verifies a dataset directory** and gives the digest of its content. -/
def verify (directory : Path) : ExceptT Flaw m String := do
  let path := descriptorPath directory
  if !(← ExceptT.lift (Files.present path)) then throw (.missing path.text)
  let x ← ExceptT.adapt Flaw.descriptor (load path)
  let embeddings ← readArray (directory.join x.embeddingsFile) x.embeddingsShape
  let axes ← readArray (directory.join x.axesFile) x.axesShape
  let found := Content.hash ⟨embeddings, axes⟩
  if found = x.hash then pure found else throw (.digest x.hash found)

/-! ### Locks -/

/-- Whether a lock pins the recorded digest. -/
def checkLock (x : Descriptor) (lock : String) : Bool := x.hash == lock

/-- The digest that the lock of a directory pins. -/
def readLock (directory : Path) : ExceptT Fault m String := do
  pure (trimText (← readText (lockPath directory)))

/-- **Holds a descriptor against the lock** of a directory. -/
def verifyLock (x : Descriptor) (directory : Path) : ExceptT Fault m Unit := do
  let lock ← readLock directory
  if checkLock x lock then pure () else throw (.integrity x.hash lock)

end Dataset

end PinnedBench
