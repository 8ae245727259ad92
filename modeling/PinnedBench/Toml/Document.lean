import PinnedBench.Toml.Scalar
import PinnedBench.Toml.Tables

/-!
# TOML documents

A document is a sequence of statements, one a line: entries, headers of tables, and headers of the
elements of arrays of tables. `statements` reads them, `Document.ofText` puts their tables together.

Values, arrays and tables that are written out may be nested, fewer than eighty levels deep. Arrays
may run over several lines, with comments and a comma behind the last item; tables may not. A
comment ends with its line, and so does a statement.
-/

namespace PinnedBench.Toml

/-! ### Blanks and comments -/

/-- What follows the end of a line, blanks and a comment before it included; the end of the text
ends the line. -/
def endOfLine (cs : List Char) : Except Fault (List Char) :=
  let rest := match skipSpace cs with
    | '#' :: comment => comment.dropWhile isPlain
    | rest => rest
  match rest, lineEnd? rest with
  | [], _ => .ok []
  | _, some after => .ok after
  | _, none => .error (unexpected rest)

/-- What follows blanks, line ends and comments, with `fuel` bounding their number. -/
def skipLines : Nat → List Char → Except Fault (List Char)
  | 0, _ => .error .unexpectedEnd
  | fuel + 1, cs =>
    match skipSpace cs with
    | [] => .ok []
    | c :: rest =>
      if c = '#' ∨ c = '\n' ∨ c = '\r' then do skipLines fuel (← endOfLine (c :: rest))
      else .ok (c :: rest)

/-! ### Values -/

mutual

/-- A value, with so many levels of nesting left and `fuel` bounding the calls. -/
def value (levels : Nat) : Nat → List Char → Except Fault (Value × List Char)
  | 0, _ => .error .unexpectedEnd
  | fuel + 1, cs =>
    match string? cs with
    | some found => found.map fun (text, rest) => (.string (String.ofList text), rest)
    | none =>
      match cs, levels with
      | '[' :: _, 0 => .error .tooDeep
      | '{' :: _, 0 => .error .tooDeep
      | '[' :: rest, levels + 1 => do
        let (vs, rest) ← items levels fuel rest
        .ok (.array vs, rest)
      | '{' :: rest, levels + 1 =>
        match skipSpace rest with
        | '}' :: rest => .ok (.table [], rest)
        | rest => do
          let (found, rest) ← entries levels fuel rest
          .ok (.table (← membersOf found), rest)
      | 't' :: 'r' :: 'u' :: 'e' :: rest, _ => .ok (.boolean true, rest)
      | 'f' :: 'a' :: 'l' :: 's' :: 'e' :: rest, _ => .ok (.boolean false, rest)
      | cs, _ =>
        match moment? cs with
        | some found => .ok found
        | none => number cs

/-- The items of an array up to its closing bracket. -/
def items (levels : Nat) : Nat → List Char → Except Fault (List Value × List Char)
  | 0, _ => .error .unexpectedEnd
  | fuel + 1, cs => do
    match ← skipLines cs.length.succ cs with
    | ']' :: rest => .ok ([], rest)
    | cs =>
      let (v, rest) ← value levels fuel cs
      match ← skipLines rest.length.succ rest with
      | ',' :: rest =>
        let (vs, rest) ← items levels fuel rest
        .ok (v :: vs, rest)
      | ']' :: rest => .ok ([v], rest)
      | rest => .error (unexpected rest)

/-- The entries of a table that is written out, up to its closing brace. -/
def entries (levels : Nat) : Nat → List Char → Except Fault (List (List String × Value) × List Char)
  | 0, _ => .error .unexpectedEnd
  | fuel + 1, cs => do
    let (path, rest) ← key cs
    match rest with
    | '=' :: rest =>
      let (v, rest) ← value levels fuel (skipSpace rest)
      match skipSpace rest with
      | ',' :: rest =>
        let (found, rest) ← entries levels fuel rest
        .ok ((path, v) :: found, rest)
      | '}' :: rest => .ok ([(path, v)], rest)
      | rest => .error (unexpected rest)
    | rest => .error (unexpected rest)

end

/-! ### Statements -/

/-- One statement of a document. -/
inductive Statement where
  /-- An entry of the current table. -/
  | entry (key : List String) (value : Value)
  /-- The header of a table. -/
  | table (key : List String)
  /-- The header of an element of an array of tables. -/
  | element (key : List String)
  deriving Repr

/-- What follows a header's closing brackets and its line. -/
def closeHeader : List Char → List Char → Except Fault (List Char)
  | [], cs => endOfLine cs
  | c :: closing, d :: cs =>
    if c = d then closeHeader closing cs else .error (.unexpectedCharacter d)
  | _ :: _, [] => .error .unexpectedEnd

/-- A statement and what follows its line. -/
def statement : List Char → Except Fault (Statement × List Char)
  | '[' :: '[' :: rest => do
    let (path, rest) ← key rest
    .ok (.element path, ← closeHeader [']', ']'] rest)
  | '[' :: rest => do
    let (path, rest) ← key rest
    .ok (.table path, ← closeHeader [']'] rest)
  | cs => do
    let (path, rest) ← key cs
    match rest with
    | '=' :: rest =>
      let (v, rest) ← value (levelBound - 1) (2 * rest.length + 2) (skipSpace rest)
      .ok (.entry path v, ← endOfLine rest)
    | rest => .error (unexpected rest)

/-- The statements of a text, with `fuel` bounding their number. -/
def statements : Nat → List Char → Except Fault (List Statement)
  | 0, _ => .error .unexpectedEnd
  | fuel + 1, cs => do
    match ← skipLines cs.length.succ cs with
    | [] => .ok []
    | cs =>
      let (s, rest) ← statement cs
      .ok (s :: (← statements fuel rest))

/-- The document with one more statement, and the path of the table that is current behind it. -/
def Statement.apply : List String × Members → Statement → Except Fault (List String × Members)
  | (current, root), .entry path v => do
    .ok (current, ← within false (addEntry path v) current .header root)
  | (_, root), .table path => do .ok (path, ← openTable path .header root)
  | (_, root), .element path => do .ok (path, ← addTable path .header root)

/-- **The table that a text writes.** A mark of the byte order may come first. -/
def Document.ofText (text : String) : Except Fault (List (String × Value)) := do
  let cs := match text.toList with
    | '\ufeff' :: rest => rest
    | cs => cs
  let found ← statements cs.length.succ cs
  let (_, root) ← found.foldlM Statement.apply ([], [])
  .ok (valuesOf root)

end PinnedBench.Toml
