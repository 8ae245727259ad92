import PinnedBench.Fault
import PinnedBench.Text.Blank

/-!
# Implementations under test

An implementation under test is a language and a variant, written joined by one hyphen. A list of
them is written with commas in between; blank entries are skipped and blanks around an entry
ignored.
-/

namespace PinnedBench

/-- An implementation under test. -/
structure Implementation where
  /-- The language or tool. -/
  name : String
  /-- The variant within it. -/
  variant : String
  deriving DecidableEq, Repr

namespace Implementation

/-- The key of an implementation in summaries and logs. -/
def key (i : Implementation) : String := s!"{i.name}/{i.variant}"

/-- Reads one implementation: a language and a variant, both not empty, around the only hyphen. -/
def parse (text : List Char) : Except ImplementationFault Implementation :=
  match (trim text).splitOn '-' with
  | [name, variant] =>
    if name.isEmpty || variant.isEmpty then .error (.form (String.ofList (trim text)))
    else .ok ⟨String.ofList name, String.ofList variant⟩
  | _ => .error (.form (String.ofList (trim text)))

/-- The entries of a list that are not blank. -/
def entries (text : List Char) : List (List Char) :=
  (text.splitOn ',').filter fun entry => !(trim entry).isEmpty

/-- **Reads a list of implementations.** The first entry that is refused decides. -/
def parseList (text : List Char) : Except ImplementationFault (List Implementation) := do
  let implementations ← (entries text).mapM parse
  if implementations.isEmpty then .error .noneGiven else .ok implementations

end Implementation

end PinnedBench
