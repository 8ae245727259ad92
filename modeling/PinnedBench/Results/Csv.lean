import PinnedBench.Fault
import PinnedBench.Results.Table
import PinnedBench.Text.Blank
import PinnedBench.Text.Lines

/-!
# Results tables as comma-separated text

A results table is written as a header line and one line per row. A field with a comma, a quote or a
line feed is put in quotes, and a quote inside it is written twice.

Reading splits the text into lines first, so a quoted line feed does not survive. Within a line a
quote opens or closes quoting wherever it stands, a pair of quotes inside quoting is one quote, and
a comma outside quoting ends a field. Blank lines are skipped but counted: a fault names the line of
the text in which it was met.
-/

namespace PinnedBench

namespace Csv

/-! ### Fields -/

/-- Every quote written twice. -/
def doubleQuotes : List Char → List Char
  | [] => []
  | c :: rest => if c = '"' then '"' :: '"' :: doubleQuotes rest else c :: doubleQuotes rest

/-- Whether a field has to be put in quotes. -/
def needsQuotes (field : List Char) : Bool :=
  field.any fun c => c == ',' || c == '"' || c == '\n'

/-- A field as it is written. -/
def escapeField (field : List Char) : List Char :=
  if needsQuotes field then '"' :: doubleQuotes field ++ ['"'] else field

/-- The fields of a line, read behind what has been read of the current one (last character first),
inside quotes or outside. -/
def splitOnto (current : List Char) : Bool → List Char → List (List Char)
  | _, [] => [current.reverse]
  | true, '"' :: '"' :: rest => splitOnto ('"' :: current) true rest
  | quoted, c :: rest =>
    -- A quote that is not one of a pair opens or closes quoting, in the middle of a field as well.
    if c = '"' then splitOnto current (!quoted) rest
    else if c = ',' ∧ quoted = false then current.reverse :: splitOnto [] false rest
    else splitOnto (c :: current) quoted rest

/-- The fields of a line. -/
def splitRecord (line : List Char) : List (List Char) := splitOnto [] false line

/-! ### Rows -/

/-- A row as a line, without its end. -/
def rowChars (r : Row) : List Char :=
  escapeField r.implementation.toList ++ ',' :: escapeField r.variant.toList ++
    ',' :: Nat.toDigits 10 r.run ++ ',' :: NumberStyle.table.chars r.duration

/-- The row that a line's fields make. -/
def rowOfFields : List (List Char) → Except RowFault Row
  | [implementation, variant, run, duration] => do
    let run ← (readWhole (powerOfTwo 64 - 1) (trim run)).mapError .runIndex
    let duration ← (readReal (trim duration)).mapError .duration
    .ok ⟨String.ofList implementation, String.ofList variant, run, duration⟩
  | fields => .error (.fieldCount fields.length)

/-- The rows of the lines of a text from a line number on, blank lines left out. -/
def rowsOfLines (number : Nat) : List (List Char) → Except TableFault (List Row)
  | [] => .ok []
  | line :: rest =>
    if (trim line).isEmpty then rowsOfLines (number + 1) rest
    else do
      let row ← (rowOfFields (splitRecord line)).mapError (.row number)
      let rows ← rowsOfLines (number + 1) rest
      .ok (row :: rows)

end Csv

namespace Table

/-- The table as comma-separated text. -/
def toCsv (t : Table) : String :=
  String.ofList (tableHeader.toList ++ '\n' :: t.rows.flatMap fun r => Csv.rowChars r ++ ['\n'])

/-- **Reads a table** from comma-separated text. -/
def ofCsv (text : String) : Except TableFault Table :=
  match lines text.toList with
  | [] => .error .empty
  | header :: rest =>
    -- The header is the first line, so the rows begin with the second.
    if trim header = tableHeader.toList then (Csv.rowsOfLines 2 rest).map Table.mk
    else .error (.header (String.ofList (trim header)))

end Table

end PinnedBench
