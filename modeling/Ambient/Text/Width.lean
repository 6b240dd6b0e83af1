import Ambient.Text.CharClass

/-!
# Columns on a terminal

`charWidth` is the number of columns that a character takes: two for wide characters, none for
controls and for characters that extend the one before them, one for the rest. A tab reaches to
the next multiple of the tab width, so its width depends on the column where it stands.
-/

namespace Ambient.Text

/-- Whether a character beyond ASCII takes no column. -/
def isZeroWidth (n : Nat) : Bool :=
  inRanges CharClass.zeroWidthRanges n || inRanges CharClass.extendRanges n

/-- Columns taken by a character other than a tab. -/
def charWidth (c : Char) : Nat :=
  let n := c.toNat
  if n < 0x80 then if 0x20 ≤ n && n != 0x7F then 1 else 0
  else if n < 0xA0 then 0
  else if isZeroWidth n then 0
  else if inRanges CharClass.wideRanges n then 2
  else 1

/-- The distance between tab stops. -/
def tabWidth : Nat := 4

/-- Columns taken by a character that stands at the given column. -/
def widthAt (column : Nat) (c : Char) : Nat :=
  if c = '\t' then tabWidth - column % tabWidth else charWidth c

/-- Columns taken by a text that starts at the given column. -/
def textWidth (column : Nat) : List Char → Nat
  | [] => 0
  | c :: cs => widthAt column c + textWidth (column + widthAt column c) cs

/-- A text that starts at the given column, with each tab replaced by blanks up to the next tab
stop. -/
def expandTabs (column : Nat) : List Char → List Char
  | [] => []
  | c :: cs =>
    (if c = '\t' then List.replicate (widthAt column c) ' ' else [c]) ++
      expandTabs (column + widthAt column c) cs

end Ambient.Text
