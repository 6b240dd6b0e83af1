import Ambient.Parser.Basic
import Ambient.Text.Width

/-!
# Reports on parse errors

`report` shows an error with the line of the source where it is, and carets below the character at
fault. Lines end at line feeds only. Columns are counted in characters where they are told, and in
the width that characters have on a terminal where carets are placed. Carriage returns and NUL
characters at the end of a line are not shown.
-/

namespace Ambient

open Text (textWidth widthAt expandTabs)

/-- The characters of a text in front of a byte offset, from the last to the first and in front of
those that were passed before, and the characters behind it. -/
def passBytes (pos : Nat) (passed : List Char) : List Char → List Char × List Char
  | [] => (passed, [])
  | c :: cs =>
    if c.utf8Size ≤ pos then passBytes (pos - c.utf8Size) (c :: passed) cs
    else (passed, c :: cs)

theorem passBytes_append (pos : Nat) (passed cs : List Char) :
    (passBytes pos passed cs).1.reverse ++ (passBytes pos passed cs).2 =
      passed.reverse ++ cs := by
  fun_induction passBytes pos passed cs with
  | case1 => rfl
  | case2 pos passed c cs _ ih => simpa using ih
  | case3 => rfl

/-- A place in a source. -/
structure Spot where
  /-- The number of the line, counted from one. -/
  line : Nat
  /-- The characters of the line in front of the place. -/
  before : List Char
  /-- The rest of the line. -/
  behind : List Char
  deriving DecidableEq, Repr

/-- The place of a byte offset. An offset behind the source is the place at its end. -/
def Spot.ofByte (source : String) (pos : Nat) : Spot :=
  let r := passBytes pos [] source.toList
  { line := r.1.count '\n' + 1
    before := (r.1.takeWhile (· != '\n')).reverse
    behind := r.2.takeWhile (· != '\n') }

namespace Spot

/-- The number of the place in its line, counted from one. -/
def column (s : Spot) : Nat :=
  s.before.length + 1

/-- The whole line without carriage returns and NUL characters at its end. -/
def text (s : Spot) : List Char :=
  ((s.before ++ s.behind).reverse.dropWhile fun c => c == '\r' || c == '\x00').reverse

/-- The columns in front of the place. The end of the shown line counts as one more when the place
lies behind it. -/
def margin (s : Spot) : Nat :=
  textWidth 0 s.before + if s.text.length < s.before.length then 1 else 0

/-- The carets below the character at the place: as many as it has columns, one at the end of the
shown line, and none behind that. -/
def carets (s : Spot) : Nat :=
  match s.text.drop s.before.length with
  | c :: _ => widthAt s.margin c
  | [] => if s.text.length < s.before.length then 0 else 1

end Spot

/-- A number of blanks. -/
def blanks (n : Nat) : String :=
  String.ofList (List.replicate n ' ')

/-- An error at a byte offset of a source, shown with the line where it is. -/
def reportAt (name source message : String) (pos : Nat) : String :=
  let spot := Spot.ofByte source pos
  let number := toString spot.line
  let gutter := blanks (number.length + 1)
  "error: " ++ message ++ "\n" ++
    gutter ++ "┌─ " ++ name ++ ":" ++ number ++ ":" ++ toString spot.column ++ "\n" ++
    gutter ++ "│\n" ++
    number ++ " │ " ++ String.ofList (expandTabs 0 spot.text) ++ "\n" ++
    gutter ++ "│ " ++ blanks spot.margin ++ String.ofList (List.replicate spot.carets '^') ++
      " error occurs here\n\n"

/-- A parse error of a source, shown with the line where it is. -/
def report (name source : String) (e : ParseError) : String :=
  reportAt name source e.message e.pos

end Ambient
