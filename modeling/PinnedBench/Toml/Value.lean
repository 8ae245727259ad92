import PinnedBench.Double

/-!
# TOML values

A TOML value is a truth value, a whole number of 64 bits, a double, a string, a moment in time, an
array, or a table of values under keys. Moments are checked when they are read and then kept as they
are written.

`Fault` says why a text is no TOML document.
-/

namespace PinnedBench.Toml

/-- A TOML value. -/
inductive Value where
  /-- A truth value. -/
  | boolean (value : Bool)
  /-- A whole number. -/
  | integer (value : Int)
  /-- A number with a point or an exponent, or a word for infinity or for no number. -/
  | real (value : Double)
  /-- A string. -/
  | string (text : String)
  /-- A date, a time, or both, as it is written. -/
  | moment (text : String)
  /-- An array. -/
  | array (items : List Value)
  /-- A table. -/
  | table (members : List (String × Value))
  deriving Repr

/-- Why a text is no TOML document, or not the one that was asked for. -/
inductive Fault where
  /-- The text ends too early. -/
  | unexpectedEnd
  /-- A character cannot stand where it does. -/
  | unexpectedCharacter (c : Char)
  /-- A number is out of its range. -/
  | outOfRange
  /-- A backslash is followed by something else than an escape. -/
  | invalidEscape
  /-- Values are nested too deeply, or a key has too many parts. -/
  | tooDeep
  /-- A key is given twice. -/
  | duplicateKey (key : String)
  /-- A key that is to hold a table holds something else. -/
  | noTable (key : String)
  /-- A key holds a value of another type. -/
  | wrongType (key : String)
  deriving DecidableEq, Repr

/-- The wording of a fault. -/
def Fault.message : Fault → String
  | unexpectedEnd => "unexpected end of the text"
  | unexpectedCharacter c => s!"unexpected character {c.toNat}"
  | outOfRange => "number out of range"
  | invalidEscape => "invalid escape"
  | tooDeep => "nesting is too deep"
  | duplicateKey key => s!"duplicate key {key}"
  | noTable key => s!"key {key} holds no table"
  | wrongType key => s!"key {key} holds a value of another type"

/-- The fault of a text that goes on like this where it should not. -/
def unexpected : List Char → Fault
  | [] => .unexpectedEnd
  | c :: _ => .unexpectedCharacter c

/-- Whether a character is a blank within a line. -/
def isSpace (c : Char) : Bool := c == ' ' || c == '\t'

/-- The text from the next character on that is no blank. -/
def skipSpace (cs : List Char) : List Char := cs.dropWhile isSpace

/-- Whether a character may stand in a comment or a literal string: tabulators and everything that
is no control character of ASCII. -/
def isPlain (c : Char) : Bool := c == '\t' || (' ' ≤ c && c != '\x7f')

/-- The text behind a line's end, if it starts with one. -/
def lineEnd? : List Char → Option (List Char)
  | '\n' :: rest => some rest
  | '\r' :: '\n' :: rest => some rest
  | _ => none

end PinnedBench.Toml
