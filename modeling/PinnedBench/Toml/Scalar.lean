import PinnedBench.Decimal.Nearest
import PinnedBench.Text.Hexadecimal
import PinnedBench.Text.Numeral
import PinnedBench.Toml.Value

/-!
# TOML scalars

This module reads the values that hold no other values, and keys. Every reader takes the text from
its first character on and hands back what follows it.

* Digits of numbers may be grouped by single underscores between digits. Whole numbers have no
  leading zeros, fit a signed word of 64 bits, and may be written in hexadecimal, octal or binary
  form without a sign. Other numbers have digits on both sides of a point, an exponent, or both, and
  are not above the largest double.
* Strings stand between quotes, in which backslashes escape, or between apostrophes, in which
  nothing is escaped; three of them surround a string of several lines. Up to two quotes may stand
  right before the three that close it.
* Moments are dates of the calendar, times of a day, or both, with an offset or without.
-/

namespace PinnedBench.Toml

/-! ### Numbers -/

/-- Digits with single underscores between them, and what follows. -/
def groupedDigits (isDigit : Char → Bool) : List Char → List Char × List Char
  | [] => ([], [])
  | c :: '_' :: d :: rest =>
    if isDigit c then
      if isDigit d then
        let (ds, after) := groupedDigits isDigit (d :: rest)
        (c :: ds, after)
      -- An underscore without a digit behind it does not belong to the number.
      else ([c], '_' :: d :: rest)
    else ([], c :: '_' :: d :: rest)
  | c :: rest =>
    if isDigit c then
      let (ds, after) := groupedDigits isDigit rest
      (c :: ds, after)
    else ([], c :: rest)

/-- The digits of a whole number: grouped ones without a leading zero, or a zero. -/
def wholeDigits : List Char → List Char × List Char
  | '0' :: rest => (['0'], rest)
  | cs => groupedDigits Char.isDigit cs

/-- Digits that have to be there. -/
def someDigits (cs : List Char) : Except Fault (List Char × List Char) :=
  match groupedDigits Char.isDigit cs with
  | ([], _) => .error (unexpected cs)
  | found => .ok found

/-- The digits behind a point, if there is one. -/
def places : List Char → Except Fault (Option (List Char) × List Char)
  | '.' :: rest => do
    let (ds, after) ← someDigits rest
    .ok (some ds, after)
  | cs => .ok (none, cs)

/-- An exponent behind its letter. -/
def exponentDigits : List Char → Except Fault (Int × List Char)
  | '-' :: rest => do
    let (ds, after) ← someDigits rest
    .ok (-(digitsValue ds : Int), after)
  | '+' :: rest => do
    let (ds, after) ← someDigits rest
    .ok (digitsValue ds, after)
  | cs => do
    let (ds, after) ← someDigits cs
    .ok (digitsValue ds, after)

/-- An exponent, if there is one. -/
def exponent : List Char → Except Fault (Option Int × List Char)
  | 'e' :: rest => (exponentDigits rest).map fun (e, after) => (some e, after)
  | 'E' :: rest => (exponentDigits rest).map fun (e, after) => (some e, after)
  | cs => .ok (none, cs)

/-- A whole number in its range. -/
def integerValue (negative : Bool) (n : Nat) : Except Fault Value :=
  if negative then if n ≤ powerOfTwo 63 then .ok (.integer (-n)) else .error .outOfRange
  else if n < powerOfTwo 63 then .ok (.integer n)
  else .error .outOfRange

/-- A double that is not above the largest one. -/
def realValue (negative : Bool) (d : Decimal) : Except Fault Value :=
  let x := Decimal.toDouble negative d
  -- Only the upper end is looked at; beyond the lower one there is the negative infinity.
  if x = .infinity then .error .outOfRange else .ok (.real x)

/-- A decimal number behind its sign. -/
def decimalNumber (negative : Bool) (cs : List Char) : Except Fault (Value × List Char) := do
  match wholeDigits cs with
  | ([], _) => .error (unexpected cs)
  | (ds, rest) =>
    let (behind, rest) ← places rest
    let (e, rest) ← exponent rest
    -- Without a point and an exponent the number is whole.
    match behind, e with
    | none, none => .ok (← integerValue negative (digitsValue ds), rest)
    | _, _ =>
      let fraction := behind.getD []
      let d : Decimal := ⟨digitsValue (ds ++ fraction), e.getD 0 - fraction.length⟩
      .ok (← realValue negative d, rest)

/-- A number behind its sign: digits, or a word. -/
def signedNumber (negative : Bool) : List Char → Except Fault (Value × List Char)
  | 'i' :: 'n' :: 'f' :: rest =>
    .ok (.real (if negative then -Double.infinity else .infinity), rest)
  | 'n' :: 'a' :: 'n' :: rest =>
    .ok (.real (if negative then -Double.undefined else .undefined), rest)
  | cs => decimalNumber negative cs

/-- The value of a digit in a base. -/
def baseDigit? (base : Nat) (c : Char) : Option Nat := (hexValue? c).filter fun v => v < base

/-- A whole number in a base, behind the letter that names it. -/
def baseNumber (base : Nat) (cs : List Char) : Except Fault (Value × List Char) := do
  match groupedDigits (fun c => (baseDigit? base c).isSome) cs with
  | ([], _) => .error (unexpected cs)
  | (ds, rest) =>
    let n := ds.foldl (fun n c => base * n + (baseDigit? base c).getD 0) 0
    .ok (← integerValue false n, rest)

/-- A number. -/
def number : List Char → Except Fault (Value × List Char)
  | '0' :: 'x' :: rest => baseNumber 16 rest
  | '0' :: 'o' :: rest => baseNumber 8 rest
  | '0' :: 'b' :: rest => baseNumber 2 rest
  | '-' :: rest => signedNumber true rest
  | '+' :: rest => signedNumber false rest
  | cs => signedNumber false cs

/-! ### Moments -/

/-- The value of exactly so many digits. -/
def fixedDigits? (n : Nat) (cs : List Char) : Option (Nat × List Char) :=
  let ds := cs.take n
  if ds.length = n ∧ ds.all Char.isDigit then some (digitsValue ds, cs.drop n) else none

/-- The value of two digits between two bounds. -/
def twoDigits? (low high : Nat) (cs : List Char) : Option (Nat × List Char) :=
  (fixedDigits? 2 cs).filter fun (n, _) => low ≤ n ∧ n ≤ high

/-- What follows a character. -/
def after? (c : Char) : List Char → Option (List Char)
  | d :: rest => if c = d then some rest else none
  | [] => none

/-- The number of days of a month. -/
def daysOfMonth (year month : Nat) : Nat :=
  if month = 2 then
    if year % 4 = 0 ∧ (year % 100 ≠ 0 ∨ year % 400 = 0) then 29 else 28
  else if month = 4 ∨ month = 6 ∨ month = 9 ∨ month = 11 then 30
  else 31

/-- What follows a date. -/
def date? (cs : List Char) : Option (List Char) := do
  let (year, cs) ← fixedDigits? 4 cs
  let cs ← after? '-' cs
  let (month, cs) ← twoDigits? 1 12 cs
  let cs ← after? '-' cs
  let (_, cs) ← twoDigits? 1 (daysOfMonth year month) cs
  some cs

/-- What follows a fraction of a second, or the text if there is none. -/
def secondFraction (cs : List Char) : List Char :=
  match cs with
  | '.' :: rest => if (rest.takeWhile Char.isDigit).isEmpty then cs else rest.dropWhile Char.isDigit
  | _ => cs

/-- What follows a time of a day. -/
def time? (cs : List Char) : Option (List Char) := do
  let (_, cs) ← twoDigits? 0 23 cs
  let cs ← after? ':' cs
  let (_, cs) ← twoDigits? 0 59 cs
  let cs ← after? ':' cs
  let (_, cs) ← twoDigits? 0 60 cs
  some (secondFraction cs)

/-- What follows the hours and minutes of an offset. -/
def offsetDigits? (cs : List Char) : Option (List Char) := do
  let (_, cs) ← twoDigits? 0 23 cs
  let cs ← after? ':' cs
  let (_, cs) ← twoDigits? 0 59 cs
  some cs

/-- What follows an offset. -/
def offset? : List Char → Option (List Char)
  | [] => none
  | c :: rest =>
    if c = 'Z' ∨ c = 'z' then some rest
    else if c = '+' ∨ c = '-' then offsetDigits? rest
    else none

/-- What follows the time that belongs to a date, if there is one. -/
def timeOfDate? : List Char → Option (List Char)
  | [] => none
  | c :: rest =>
    if c = 'T' ∨ c = 't' ∨ c = ' ' then (time? rest).map fun cs => (offset? cs).getD cs else none

/-- A moment, and what follows it. -/
def moment? (cs : List Char) : Option (Value × List Char) :=
  -- A date stands alone if what follows it is no time.
  let found := match date? cs with
    | some rest => some ((timeOfDate? rest).getD rest)
    | none => time? cs
  found.map fun rest => (.moment (String.ofList (cs.take (cs.length - rest.length))), rest)

/-! ### Strings -/

/-- The character that a short escape stands for. -/
def shortEscape? : Char → Option Char
  | 'b' => some '\x08'
  | 't' => some '\t'
  | 'n' => some '\n'
  | 'f' => some '\x0c'
  | 'r' => some '\r'
  | '"' => some '"'
  | '\\' => some '\\'
  | _ => none

/-- The character with a number in hexadecimal digits. -/
def hexCharacter? (ds : List Char) : Option Char := do
  let n ← ds.foldlM (fun n c => (hexValue? c).map fun v => 16 * n + v) 0
  if n.isValidChar then some (Char.ofNat n) else none

/-- The text between quotes, behind what has been read of it (last character first). -/
def basicOnto (taken : List Char) : List Char → Except Fault (List Char × List Char)
  | [] => .error .unexpectedEnd
  | '"' :: rest => .ok (taken.reverse, rest)
  | '\\' :: 'u' :: a :: b :: c :: d :: rest =>
    match hexCharacter? [a, b, c, d] with
    | some e => basicOnto (e :: taken) rest
    | none => .error .invalidEscape
  | '\\' :: 'U' :: a :: b :: c :: d :: e :: f :: g :: h :: rest =>
    match hexCharacter? [a, b, c, d, e, f, g, h] with
    | some e => basicOnto (e :: taken) rest
    | none => .error .invalidEscape
  | '\\' :: c :: rest =>
    match shortEscape? c with
    | some e => basicOnto (e :: taken) rest
    | none => .error .invalidEscape
  | c :: rest =>
    if c ≠ '\\' ∧ isPlain c then basicOnto (c :: taken) rest else .error (.unexpectedCharacter c)

/-- The text between apostrophes, behind what has been read of it (last character first). -/
def literalOnto (taken : List Char) : List Char → Except Fault (List Char × List Char)
  | [] => .error .unexpectedEnd
  | '\'' :: rest => .ok (taken.reverse, rest)
  | c :: rest =>
    if isPlain c then literalOnto (c :: taken) rest else .error (.unexpectedCharacter c)

/-- The end of a string of several lines: the marks that still belong to it, and what follows the
three that close it. -/
def closing? (mark : Char) (cs : List Char) : Option (List Char × List Char) :=
  let run := (cs.takeWhile (· == mark)).length
  -- Of a longer run, five marks are taken: two of the text and the three that close it.
  if run < 3 then none
  else some (List.replicate (min run 5 - 3) mark, cs.drop (min run 5))

/-- Whether a backslash before this text hides a line's end. -/
def hidesLineEnd (cs : List Char) : Bool := (lineEnd? (skipSpace cs)).isSome

/-- The text of a string of several lines between quotes, behind what has been read of it (last
character first). Behind a hidden line's end, blanks and further line ends are skipped. -/
def longBasicOnto (taken : List Char) : Bool → List Char → Except Fault (List Char × List Char)
  | _, [] => .error .unexpectedEnd
  | hidden, '\r' :: '\n' :: rest =>
    longBasicOnto (if hidden then taken else '\n' :: taken) hidden rest
  | hidden, '\n' :: rest => longBasicOnto (if hidden then taken else '\n' :: taken) hidden rest
  | _, '\\' :: 'u' :: a :: b :: c :: d :: rest =>
    match hexCharacter? [a, b, c, d] with
    | some e => longBasicOnto (e :: taken) false rest
    | none => .error .invalidEscape
  | _, '\\' :: 'U' :: a :: b :: c :: d :: e :: f :: g :: h :: rest =>
    match hexCharacter? [a, b, c, d, e, f, g, h] with
    | some e => longBasicOnto (e :: taken) false rest
    | none => .error .invalidEscape
  | hidden, c :: rest =>
    match closing? '"' (c :: rest) with
    | some (last, after) => .ok (taken.reverse ++ last, after)
    | none =>
      if hidden ∧ isSpace c then longBasicOnto taken true rest
      else if c = '\\' then
        if hidesLineEnd rest then longBasicOnto taken true rest
        else
          match rest with
          | [] => .error .unexpectedEnd
          | e :: rest =>
            match shortEscape? e with
            | some e => longBasicOnto (e :: taken) false rest
            | none => .error .invalidEscape
      else if isPlain c then longBasicOnto (c :: taken) false rest
      else .error (.unexpectedCharacter c)

/-- The text of a string of several lines between apostrophes, behind what has been read of it (last
character first). -/
def longLiteralOnto (taken : List Char) : List Char → Except Fault (List Char × List Char)
  | [] => .error .unexpectedEnd
  | '\r' :: '\n' :: rest => longLiteralOnto ('\n' :: taken) rest
  | c :: rest =>
    match closing? '\'' (c :: rest) with
    | some (last, after) => .ok (taken.reverse ++ last, after)
    | none =>
      if c = '\n' ∨ isPlain c then longLiteralOnto (c :: taken) rest
      else .error (.unexpectedCharacter c)

/-- The text without a line's end at its start. -/
def dropLineEnd (cs : List Char) : List Char := (lineEnd? cs).getD cs

/-- A string that stands on one line, if the text starts with a mark. -/
def shortString? : List Char → Option (Except Fault (List Char × List Char))
  | '"' :: rest => some (basicOnto [] rest)
  | '\'' :: rest => some (literalOnto [] rest)
  | _ => none

/-- A string, if the text starts with a mark. -/
def string? : List Char → Option (Except Fault (List Char × List Char))
  | '"' :: '"' :: '"' :: rest => some (longBasicOnto [] false (dropLineEnd rest))
  | '\'' :: '\'' :: '\'' :: rest => some (longLiteralOnto [] (dropLineEnd rest))
  | cs => shortString? cs

/-! ### Keys -/

/-- Whether a character may stand in a key without quotes. -/
def isBare (c : Char) : Bool :=
  c.isDigit || ('a' ≤ c && c ≤ 'z') || ('A' ≤ c && c ≤ 'Z') || c == '_' || c == '-'

/-- One part of a key. -/
def keyPart (cs : List Char) : Except Fault (String × List Char) :=
  match shortString? cs with
  | some found => found.map fun (text, rest) => (String.ofList text, rest)
  | none =>
    match cs.takeWhile isBare with
    | [] => .error (unexpected cs)
    | text => .ok (String.ofList text, cs.dropWhile isBare)

/-- The parts of a key, read behind those found already, up to `room` more. Blanks may surround
them. -/
def keyParts (found : List String) : Nat → List Char → Except Fault (List String × List Char)
  | 0, _ => .error .tooDeep
  | room + 1, cs => do
    let (part, rest) ← keyPart (skipSpace cs)
    match skipSpace rest with
    | '.' :: rest => keyParts (found ++ [part]) room rest
    | rest => .ok (found ++ [part], rest)

/-- The number of levels that nested values and the parts of a key stay below. -/
def levelBound : Nat := 80

/-- A key. -/
def key (cs : List Char) : Except Fault (List String × List Char) := keyParts [] (levelBound - 1) cs

end PinnedBench.Toml
