import PinnedBench.Decimal.Nearest

/-!
# Numbers in plain text

`readWhole limit` reads a whole number that is at most `limit`, `readInteger` one with a sign, and
`readReal` reads a decimal number. All three read the complete text: a sign may come first, digits
are those of ASCII, and nothing else may surround them. A text that is refused is refused for the
first cause met from the left.

Decimal numbers may leave out the digits on one side of the point, may have an exponent, and may be
the words for infinity and for what is no number, in any case. A decimal that is out of range is
infinite, not an error.
-/

namespace PinnedBench

/-- Why a text is no whole number. -/
inductive WholeFault where
  /-- There is no text. -/
  | empty
  /-- Some character is no digit, or there is no digit. -/
  | invalidDigit
  /-- The number is above the limit. -/
  | tooLarge
  /-- The number is below the limit. -/
  | tooSmall
  deriving DecidableEq, Repr

/-- Why a text is no decimal number. -/
inductive RealFault where
  /-- There is no text. -/
  | empty
  /-- The text has another form. -/
  | invalid
  deriving DecidableEq, Repr

namespace WholeFault

/-- The wording of the fault. -/
def message : WholeFault → String
  | empty => "cannot parse integer from empty string"
  | invalidDigit => "invalid digit found in string"
  | tooLarge => "number too large to fit in target type"
  | tooSmall => "number too small to fit in target type"

end WholeFault

namespace RealFault

/-- The wording of the fault. -/
def message : RealFault → String
  | empty => "cannot parse float from empty string"
  | invalid => "invalid float literal"

end RealFault

/-- The value of an ASCII digit. -/
def digitValue (c : Char) : Nat := c.toNat - '0'.toNat

/-- The number that a run of digits writes. -/
def digitsValue (cs : List Char) : Nat := cs.foldl (fun n c => 10 * n + digitValue c) 0

/-! ### Whole numbers -/

/-- Reads digits onto `n`, refusing the first character that is no digit or takes the number above
`limit`, whichever comes first. -/
def readDigits (limit : Nat) (above : WholeFault) : Nat → List Char → Except WholeFault Nat
  | n, [] => .ok n
  | n, c :: rest =>
    if !c.isDigit then .error .invalidDigit
    else if limit < 10 * n + digitValue c then .error above
    else readDigits limit above (10 * n + digitValue c) rest

/-- At least one digit. -/
def readSomeDigits (limit : Nat) (above : WholeFault) (cs : List Char) : Except WholeFault Nat :=
  if cs.isEmpty then .error .invalidDigit else readDigits limit above 0 cs

/-- Reads a whole number up to `limit`; a plus sign may come first. -/
def readWhole (limit : Nat) : List Char → Except WholeFault Nat
  | [] => .error .empty
  | '+' :: rest => readSomeDigits limit .tooLarge rest
  | cs => readSomeDigits limit .tooLarge cs

/-- Reads a number of a signed 64-bit word. -/
def readInteger : List Char → Except WholeFault Int
  | [] => .error .empty
  | '+' :: rest => (readSomeDigits (powerOfTwo 63 - 1) .tooLarge rest).map Int.ofNat
  | '-' :: rest => (readSomeDigits (powerOfTwo 63) .tooSmall rest).map fun n => -(n : Int)
  | cs => (readSomeDigits (powerOfTwo 63 - 1) .tooLarge cs).map Int.ofNat

/-! ### Decimal numbers -/

/-- Takes a sign off a text, and tells whether it is a minus. -/
def takeSign : List Char → Bool × List Char
  | '-' :: rest => (true, rest)
  | '+' :: rest => (false, rest)
  | cs => (false, cs)

/-- An exponent: the letter, a sign and at least one digit; no text is the exponent zero. -/
def readExponent : List Char → Option Int
  | [] => some 0
  | c :: rest =>
    if c = 'e' ∨ c = 'E' then
      let (negative, ds) := takeSign rest
      if ds.isEmpty || !ds.all Char.isDigit then none
      else some (if negative then -(digitsValue ds : Int) else digitsValue ds)
    else none

/-- A decimal number without its sign. -/
def readDecimal (cs : List Char) : Option Decimal :=
  let whole := cs.takeWhile Char.isDigit
  let (places, rest) := match cs.dropWhile Char.isDigit with
    | '.' :: rest => (rest.takeWhile Char.isDigit, rest.dropWhile Char.isDigit)
    | rest => ([], rest)
  if whole.isEmpty && places.isEmpty then none
  else (readExponent rest).map fun e => ⟨digitsValue (whole ++ places), e - places.length⟩

/-- The words that stand for numbers without digits, in lower case. -/
def wordValue (cs : List Char) : Option Double :=
  let w := String.ofList (cs.map Char.toLower)
  if w = "inf" ∨ w = "infinity" then some .infinity
  else if w = "nan" then some .undefined
  else none

/-- The size of a decimal number or of a word, without a sign. -/
def readSize (cs : List Char) : Except RealFault Double :=
  match readDecimal cs, wordValue cs with
  | some d, _ => .ok d.nearest
  | none, some x => .ok x
  | none, none => .error .invalid

/-- Reads a decimal number. -/
def readReal : List Char → Except RealFault Double
  | [] => .error .empty
  | '-' :: rest => (readSize rest).map Double.negate
  | '+' :: rest => readSize rest
  | cs => readSize cs

end PinnedBench
