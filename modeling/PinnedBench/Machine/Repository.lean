import PinnedBench.Machine.Stamp

/-!
# Version control

The commit of a directory under version control is told by its head: either the head is a commit
itself, or it names a branch, whose commit is kept in a file of its own or in a list of packed
branches.
-/

namespace PinnedBench

/-- What the head of a repository says. -/
inductive Head where
  /-- It is a commit. -/
  | commit (hash : String)
  /-- It is the commit of a branch. -/
  | branch (name : String)
  deriving DecidableEq, Repr

/-- Reads the text of a head. -/
def Head.ofText (text : String) : Option Head := do
  let fact ← Machine.factOf text
  match fact.splitOn "ref: " with
  | ["", name] => some (.branch name)
  | _ => some (.commit fact)

/-- The commit of a branch in a list of packed branches. -/
def packedCommit (name : String) (text : String) : Option String :=
  (lines text.toList).findSome? fun line =>
    match words line with
    | [hash, branch] => if String.ofList branch = name then some (String.ofList hash) else none
    | _ => none

/-- The commit that a head leads to, given the text of the branch's own file and the list of packed
branches. -/
def Head.hash (own packed : Option String) : Head → Option String
  | commit hash => some hash
  | branch name => (own.bind Machine.factOf).or (packed.bind (packedCommit name))

end PinnedBench
