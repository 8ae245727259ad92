import PinnedBench.Decimal.Style
import PinnedBench.Json.Value

/-!
# Writing JSON documents

`Json.pretty` writes a value over several lines, every level indented by two blanks: one item or
member per line, a colon and a blank behind a key, and the bare brackets for an empty array or
object. Members are written in the order in which the value holds them. In strings the quote, the
backslash and the control characters are escaped, and nothing else.
-/

namespace PinnedBench.Json

/-- The low digit of an escaped control character, and its neighbours. -/
def hexDigitOf (n : Nat) : Char := Nat.digitChar n

/-- A character as it is written inside a string. -/
def escapeChar (c : Char) : List Char :=
  if c = '"' then ['\\', '"']
  else if c = '\\' then ['\\', '\\']
  else if c = '\n' then ['\\', 'n']
  else if c = '\r' then ['\\', 'r']
  else if c = '\t' then ['\\', 't']
  else if c = '\x08' then ['\\', 'b']
  else if c = '\x0c' then ['\\', 'f']
  else if c.toNat < 0x20 then
    ['\\', 'u', '0', '0', hexDigitOf (c.toNat / 16), hexDigitOf (c.toNat % 16)]
  else [c]

/-- A string as it is written, quotes included. -/
def quoteChars (s : String) : List Char := '"' :: s.toList.flatMap escapeChar ++ ['"']

/-- The start of a line at a level. -/
def newLine (level : Nat) : List Char := '\n' :: List.replicate (2 * level) ' '

/-- A whole number as it is written. -/
def integerChars (n : Int) : List Char :=
  if n < 0 then '-' :: Nat.toDigits 10 n.natAbs else Nat.toDigits 10 n.natAbs

mutual

/-- A value as it is written at a level. -/
def prettyChars (level : Nat) : Json → List Char
  | .null => ['n', 'u', 'l', 'l']
  | .boolean true => ['t', 'r', 'u', 'e']
  | .boolean false => ['f', 'a', 'l', 's', 'e']
  | .integer n => integerChars n
  | .real x => if x.isFinite then NumberStyle.json.chars x else ['n', 'u', 'l', 'l']
  | .string s => quoteChars s
  | .array [] => ['[', ']']
  | .array (item :: items) =>
    '[' :: newLine (level + 1) ++ prettyChars (level + 1) item ++ itemsChars (level + 1) items ++
      newLine level ++ [']']
  | .object [] => ['{', '}']
  | .object ((key, value) :: members) =>
    '{' :: newLine (level + 1) ++ quoteChars key ++ ':' :: ' ' :: prettyChars (level + 1) value ++
      membersChars (level + 1) members ++ newLine level ++ ['}']

/-- The items that follow the first one. -/
def itemsChars (level : Nat) : List Json → List Char
  | [] => []
  | item :: items => ',' :: newLine level ++ prettyChars level item ++ itemsChars level items

/-- The members that follow the first one. -/
def membersChars (level : Nat) : List (String × Json) → List Char
  | [] => []
  | (key, value) :: members =>
    ',' :: newLine level ++ quoteChars key ++ ':' :: ' ' :: prettyChars level value ++
      membersChars level members

end

/-- **A value as a document.** -/
def pretty (j : Json) : String := String.ofList (prettyChars 0 j)

end PinnedBench.Json
