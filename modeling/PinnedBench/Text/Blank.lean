/-!
# Blank characters

The blank characters are those with the Unicode property `White_Space`: the tabulator to the
carriage return, the space, the next-line character, the no-break spaces and the separators of the
general punctuation block. Trimming removes them from both ends of a text, and the words of a text
are its maximal runs of other characters.
-/

namespace PinnedBench

/-- Whether a character is white space. -/
def isBlank (c : Char) : Bool :=
  let n := c.val
  (0x0009 ≤ n && n ≤ 0x000d) || n == 0x0020 || n == 0x0085 || n == 0x00a0 || n == 0x1680 ||
  (0x2000 ≤ n && n ≤ 0x200a) || n == 0x2028 || n == 0x2029 || n == 0x202f || n == 0x205f ||
  n == 0x3000

/-- The text without the blanks at its two ends. -/
def trim (cs : List Char) : List Char :=
  ((cs.dropWhile isBlank).reverse.dropWhile isBlank).reverse

/-- A string without the blanks at its two ends. -/
def trimText (s : String) : String := String.ofList (trim s.toList)

/-- The words of a text: its pieces between blanks, the empty ones left out. -/
def words (cs : List Char) : List (List Char) :=
  (cs.splitOnP isBlank).filter (!·.isEmpty)

end PinnedBench
