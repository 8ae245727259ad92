/-!
# Hexadecimal text

Bytes are written as two lower-case hexadecimal digits each, the higher half first.
-/

namespace PinnedBench

/-- The lower-case digit of a number below sixteen. -/
def hexDigit (n : Nat) : Char := Nat.digitChar n

/-- The two digits of a byte. -/
def hexByte (b : UInt8) : List Char := [hexDigit (b.toNat / 16), hexDigit (b.toNat % 16)]

/-- Bytes in hexadecimal. -/
def hexChars (bytes : List UInt8) : List Char := bytes.flatMap hexByte

@[simp]
theorem length_hexChars (bytes : List UInt8) : (hexChars bytes).length = 2 * bytes.length := by
  induction bytes with
  | nil => rfl
  | cons b bs ih =>
    show (hexByte b ++ hexChars bs).length = _
    simp [hexByte, ih]
    omega

/-- The value of a hexadecimal digit of either case. -/
def hexValue? (c : Char) : Option Nat :=
  if c.isDigit then some (c.toNat - '0'.toNat)
  else if 'a' ≤ c ∧ c ≤ 'f' then some (c.toNat - 'a'.toNat + 10)
  else if 'A' ≤ c ∧ c ≤ 'F' then some (c.toNat - 'A'.toNat + 10)
  else none

end PinnedBench
