/-!
# Lines of a text

A line ends with a line feed, and a carriage return just before that line feed belongs to the line's
end. Text after the last line feed is a line of its own, which keeps a final carriage return;
nothing after the last line feed is no line.
-/

namespace PinnedBench

/-- A line without the carriage return before its line feed. -/
def dropReturn (line : List Char) : List Char :=
  if line.getLast? = some '\r' then line.dropLast else line

/-- The lines among the pieces of a text between line feeds. -/
def linesOfPieces : List (List Char) → List (List Char)
  | [] => []
  | [last] => if last.isEmpty then [] else [last]
  | line :: rest => dropReturn line :: linesOfPieces rest

/-- The lines of a text. -/
def lines (cs : List Char) : List (List Char) := linesOfPieces (cs.splitOn '\n')

@[simp]
theorem lines_nil : lines [] = [] := rfl

end PinnedBench
