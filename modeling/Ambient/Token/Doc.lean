import Ambient.Text.Lines

/-!
# Documentation comments

`cleanDoc` takes the text out of the body of a documentation comment: each line loses white space
at both ends, one star at its front and one blank after the star, and blank lines at the two ends
of the comment go.
-/

namespace Ambient.Text

/-- A text without the given character at its front. -/
def dropFront (c : Char) : List Char → List Char
  | [] => []
  | d :: cs => if d = c then cs else d :: cs

/-- One line of a documentation comment without its gutter. -/
def docLine (line : List Char) : List Char :=
  trimEnd (dropFront ' ' (dropFront '*' (trim line)))

/-- Drops empty lines at the end of a list of lines. -/
def dropBlankEnd : List (List Char) → List (List Char)
  | [] => []
  | l :: ls =>
    match dropBlankEnd ls with
    | [] => if l.isEmpty then [] else [l]
    | r => l :: r

/-- Lines joined by line feeds. -/
def unlines : List (List Char) → List Char
  | [] => []
  | [l] => l
  | l :: m :: r => l ++ '\n' :: unlines (m :: r)

/-- The text of a documentation comment, from the characters between its opening and closing
marks. -/
def cleanDoc (body : List Char) : List Char :=
  unlines (dropBlankEnd (((lines body).map docLine).dropWhile List.isEmpty))

end Ambient.Text
