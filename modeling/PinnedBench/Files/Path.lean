/-!
# Paths

A path is a text whose parts are separated by slashes. `Path.join` puts a name behind a path and
`Path.parent?` leaves its last part out; slashes and single dots at the end do not count as parts.
-/

namespace PinnedBench

/-- The name of a place in the file system. -/
structure Path where
  /-- The path as it is written. -/
  text : String
  deriving DecidableEq, Repr, Inhabited

namespace Path

/-- Whether the path starts at the root of the file system. -/
def isAbsolute (p : Path) : Bool := p.text.toList.head? == some '/'

/-- Whether the path is written with no character. -/
def isEmpty (p : Path) : Bool := p.text.isEmpty

/-- The path followed by another one. An absolute one takes its place. -/
def join (p : Path) (name : String) : Path :=
  if (Path.mk name).isAbsolute ∨ p.isEmpty then ⟨name⟩
  else if p.text.toList.getLast? = some '/' then ⟨p.text ++ name⟩
  else ⟨p.text ++ "/" ++ name⟩

/-- The parts between the slashes, empty ones included. -/
def parts (p : Path) : List String := (p.text.toList.splitOn '/').map String.ofList

/-- A path written backwards, without the slashes and single dots at its end; the root stays. -/
def trimEnd : List Char → List Char
  | '/' :: c :: rest => trimEnd (c :: rest)
  | '.' :: '/' :: rest => trimEnd ('/' :: rest)
  | cs => cs

/-- The path without its last part, unless there is no part. -/
def parent? (p : Path) : Option Path :=
  match trimEnd p.text.toList.reverse with
  | [] => none
  | ['/'] => none
  | cs => some ⟨String.ofList (trimEnd (cs.dropWhile (· != '/'))).reverse⟩

end Path

end PinnedBench
