import Ambient.Text.CharClass.Letters
import Ambient.Text.CharClass.Shown

/-!
# Character classes

The lexer sorts characters by four properties of the Unicode standard: white space (`isSpace`),
alphabetic (`isAlphabetic`), numeric (`isNumeric`) and the union of the last two
(`isAlphanumeric`). Messages that show a text need one more class, the characters that are visible
on their own (`isPrintable`). ASCII is decided directly, everything else by the tables.
-/

namespace Ambient.Text

/-- Membership of a code point in a list of closed ranges. -/
def inRanges (ranges : List (Nat × Nat)) (n : Nat) : Bool :=
  ranges.any fun r => r.1 ≤ n && n ≤ r.2

/-- The property White_Space. -/
def isSpace (c : Char) : Bool :=
  let n := c.toNat
  (9 ≤ n && n ≤ 13) || n == 0x20 || n == 0x85 || n == 0xA0 || n == 0x1680 ||
    (0x2000 ≤ n && n ≤ 0x200A) || n == 0x2028 || n == 0x2029 || n == 0x202F || n == 0x205F ||
    n == 0x3000

/-- The property Alphabetic. -/
def isAlphabetic (c : Char) : Bool :=
  if c.toNat < 0x80 then c.isAlpha else inRanges CharClass.alphabeticRanges c.toNat

/-- Decimal digits, letter numbers and other numbers. -/
def isNumeric (c : Char) : Bool :=
  if c.toNat < 0x80 then c.isDigit else inRanges CharClass.numericRanges c.toNat

/-- Alphabetic or numeric. -/
def isAlphanumeric (c : Char) : Bool :=
  isAlphabetic c || isNumeric c

/-- Characters that show themselves: no control, format or separator character other than the
blank, and none that only extends the character before it. -/
def isPrintable (c : Char) : Bool :=
  if c.toNat < 0x80 then 0x20 ≤ c.toNat && c.toNat != 0x7F
  else !(inRanges CharClass.extendRanges c.toNat || inRanges CharClass.invisibleRanges c.toNat)

end Ambient.Text
