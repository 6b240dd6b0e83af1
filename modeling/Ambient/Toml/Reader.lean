import Ambient.Text.Hex
import Ambient.Text.Lines
import Ambient.Toml.Table

/-!
# Reading TOML

`readToml` reads a document. A text that is no document gives nothing; why it is none is not told.
Every reader takes the characters that are left and gives what it read and what is left behind it.
-/

namespace Ambient.Toml

open Text (hexValue?)

/-- A function that reads characters. -/
abbrev Reader (α : Type) := List Char → Option (α × List Char)

/-! ## Blanks and comments -/

/-- Drops blanks and tabs. -/
def skipBlanks (cs : List Char) : List Char :=
  cs.dropWhile fun c => c == ' ' || c == '\t'

/-- Whether a character may stand in a comment or a literal: no control character but the tab. -/
def isPlain (c : Char) : Bool :=
  c == '\t' || (0x20 ≤ c.toNat && c.toNat != 0x7F)

/-- What is left behind the end of a line, if it ends here. -/
def newline? : List Char → Option (List Char)
  | '\n' :: cs => some cs
  | '\r' :: '\n' :: cs => some cs
  | _ => none

/-- What is left behind the rest of a line that may hold a comment only. -/
def lineEnd? (cs : List Char) : Option (List Char) :=
  match skipBlanks cs with
  | [] => some []
  | '#' :: rest =>
    match rest.dropWhile isPlain with
    | [] => some []
    | r => newline? r
  | r => newline? r

/-- Drops blanks, line ends and comments between the values of an array. -/
def skipLines : (inComment : Bool) → List Char → Option (List Char)
  | _, [] => some []
  | _, '\n' :: cs => skipLines false cs
  | _, '\r' :: '\n' :: cs => skipLines false cs
  | true, c :: cs => if isPlain c then skipLines true cs else none
  | false, c :: cs =>
    if c = ' ' ∨ c = '\t' then skipLines false cs
    else if c = '#' then skipLines true cs
    else some (c :: cs)

/-! ## Strings -/

/-- The character that a number of hexadecimal digits stand for. -/
def codePoint? (digits : Nat) : Reader Char := fun cs => do
  let ds := cs.take digits
  if ds.length = digits then
    let n ← hexValue? ds
    if n.isValidChar then some (Char.ofNat n, cs.drop digits) else none
  else none

/-- What stands behind a backslash. -/
def escape? : Reader Char
  | 'b' :: cs => some ('\x08', cs)
  | 't' :: cs => some ('\t', cs)
  | 'n' :: cs => some ('\n', cs)
  | 'f' :: cs => some ('\x0c', cs)
  | 'r' :: cs => some ('\r', cs)
  | '"' :: cs => some ('"', cs)
  | '\\' :: cs => some ('\\', cs)
  | 'u' :: cs => codePoint? 4 cs
  | 'U' :: cs => codePoint? 8 cs
  | _ => none

/-- The rest of a string in double quotes. The bound is above the number of characters left. -/
def basicRest : Nat → Reader (List Char)
  | 0, _ => none
  | _, [] => none
  | _ + 1, '"' :: cs => some ([], cs)
  | n + 1, '\\' :: cs => do
    let (c, cs) ← escape? cs
    let (r, cs) ← basicRest n cs
    some (c :: r, cs)
  | n + 1, c :: cs => do
    if isPlain c then
      let (r, cs) ← basicRest n cs
      some (c :: r, cs)
    else none

/-- The rest of a string in single quotes. -/
def literalRest (cs : List Char) : Option (List Char × List Char) :=
  let text := cs.takeWhile fun c => isPlain c && c != '\''
  match cs.drop text.length with
  | '\'' :: rest => some (text, rest)
  | _ => none

/-- The quotes at the front of a text, at most five. -/
def quoteRun (quote : Char) (cs : List Char) : Nat :=
  min 5 (cs.takeWhile (· == quote)).length

/-- What is left behind a backslash at the end of a line: the line end and all blanks and line ends
that follow it. -/
def foldedLines? (cs : List Char) : Option (List Char) := do
  let rest ← newline? (skipBlanks cs)
  let text := rest.dropWhile fun c => c == ' ' || c == '\t' || c == '\n' || c == '\r'
  some text

/-- The rest of a string between tripled quotes. Backslashes mean something only between double
quotes, and up to two quotes may stand in front of the closing ones. The bound is above the number
of characters left. -/
def multilineRest (quote : Char) : Nat → Reader (List Char)
  | 0, _ => none
  | _, [] => none
  | n + 1, c :: cs =>
    if c = quote then
      let run := quoteRun quote (c :: cs)
      if run < 3 then do
        let (r, cs) ← multilineRest quote n cs
        some (c :: r, cs)
      else some (List.replicate (run - 3) quote, (c :: cs).drop run)
    else if c = '\\' ∧ quote = '"' then
      match foldedLines? cs with
      | some cs => multilineRest quote n cs
      | none => do
        let (c, cs) ← escape? cs
        let (r, cs) ← multilineRest quote n cs
        some (c :: r, cs)
    else
      match newline? (c :: cs) with
      | some cs => do
        let (r, cs) ← multilineRest quote n cs
        some ('\n' :: r, cs)
      | none => do
        if isPlain c then
          let (r, cs) ← multilineRest quote n cs
          some (c :: r, cs)
        else none

/-- A string between tripled quotes, behind the opening ones. A line end directly behind them does
not count. -/
def multiline (quote : Char) (cs : List Char) : Option (List Char × List Char) :=
  multilineRest quote (cs.length + 1) ((newline? cs).getD cs)

/-- A string in quotes on one line. -/
def quoted? : Reader String
  | '"' :: cs => (basicRest (cs.length + 1) cs).map fun r => (String.ofList r.1, r.2)
  | '\'' :: cs => (literalRest cs).map fun r => (String.ofList r.1, r.2)
  | _ => none

/-- A string in single or tripled quotes. -/
def string? : Reader String
  | '"' :: '"' :: '"' :: cs => (multiline '"' cs).map fun r => (String.ofList r.1, r.2)
  | '\'' :: '\'' :: '\'' :: cs => (multiline '\'' cs).map fun r => (String.ofList r.1, r.2)
  | cs => quoted? cs

/-! ## Keys -/

/-- A part of a key. -/
def keyPart? (cs : List Char) : Option (String × List Char) :=
  let bare := cs.takeWhile fun c => c.isAlphanum || c == '_' || c == '-'
  if bare.isEmpty then quoted? cs else some (String.ofList bare, cs.drop bare.length)

/-- The parts of a key, with dots between them and blanks around. The bound is on their number. -/
def key? : Nat → Reader (List String)
  | 0, _ => none
  | n + 1, cs => do
    let (part, cs) ← keyPart? (skipBlanks cs)
    match skipBlanks cs with
    | '.' :: cs =>
      let (parts, cs) ← key? n cs
      some (part :: parts, cs)
    | cs => some ([part], cs)

/-! ## Numbers and dates -/

/-- Digits of a number with underscores between some of them, without the underscores. -/
def digits? (isDigit : Char → Bool) : List Char → Option (List Char)
  | [] => none
  | [c] => if isDigit c then some [c] else none
  | c :: d :: cs =>
    if isDigit c then
      if d = '_' then (digits? isDigit cs).map (c :: ·)
      else (digits? isDigit (d :: cs)).map (c :: ·)
    else none

/-- The number that digits stand for. -/
def decimalValue (ds : List Char) : Nat :=
  ds.foldl (fun n c => 10 * n + (c.toNat - '0'.toNat)) 0

/-- A sign at the front, and whether it is a minus. -/
def sign : List Char → Bool × List Char
  | '-' :: cs => (true, cs)
  | '+' :: cs => (false, cs)
  | cs => (false, cs)

/-- An integer that fits into 64 bits. -/
def integerValue? (negative : Bool) (n : Nat) : Option Value :=
  if negative then if n ≤ Nat.pow 2 63 then some (.integer (-n)) else none
  else if n < Nat.pow 2 63 then some (.integer n) else none

/-- An integer to a base that is a power of two. -/
def basedInteger? (base : Nat) (isDigit : Char → Bool) (cs : List Char) : Option Value := do
  let ds ← digits? isDigit cs
  let n ← ds.foldlM (fun n c => (hexValue? [c]).map (base * n + ·)) 0
  integerValue? false n

/-- Digits without a needless zero at the front. -/
def wholePart? (cs : List Char) : Option (List Char) := do
  let ds ← digits? Char.isDigit cs
  if ds.length > 1 ∧ ds.head? = some '0' then none else some ds

/-- An integer to the base ten, with or without a sign. -/
def decimalInteger? (cs : List Char) : Option Value := do
  let (negative, cs) := sign cs
  let ds ← wholePart? cs
  integerValue? negative (decimalValue ds)

/-- The floating point number with the given digits and exponent. A positive one that is too large
is refused, and a negative one counts as infinite. -/
def floatValue? (negative : Bool) (ds : List Char) (exponent : Int) : Option Value :=
  let x : Float :=
    if 0 ≤ exponent then .ofScientific (decimalValue ds) false exponent.toNat
    else .ofScientific (decimalValue ds) true (-exponent).toNat
  if x.isInf ∧ !negative then none else some (.float (if negative then -x else x))

/-- A floating point number: digits with a fraction, an exponent or both, or one of the two
words for what is no number or infinite. -/
def float? (cs : List Char) : Option Value := do
  let (negative, cs) := sign cs
  if cs = ['i', 'n', 'f'] then some (.float (if negative then -(1.0 / 0.0) else 1.0 / 0.0))
  else if cs = ['n', 'a', 'n'] then some (.float (0.0 / 0.0))
  else
    let whole := cs.takeWhile fun c => c != '.' && c != 'e' && c != 'E'
    let ds ← wholePart? whole
    let rest := cs.drop whole.length
    let (fraction, rest) ←
      match rest with
      | '.' :: r => do
        let text := r.takeWhile fun c => c != 'e' && c != 'E'
        let fs ← digits? Char.isDigit text
        some (fs, r.drop text.length)
      | r => some ([], r)
    let exponent : Int ←
      match rest with
      | [] => some 0
      | _ :: r => do
        let (minus, r) := sign r
        let es ← digits? Char.isDigit r
        some (if minus then -(decimalValue es : Int) else decimalValue es)
    if rest.isEmpty ∧ fraction.isEmpty then none
    else floatValue? negative (ds ++ fraction) (exponent - fraction.length)

/-- A number of exactly so many digits within bounds. -/
def field? (digits low high : Nat) (cs : List Char) : Option (Nat × List Char) :=
  let ds := cs.take digits
  let n := decimalValue ds
  if ds.length = digits ∧ ds.all Char.isDigit ∧ low ≤ n ∧ n ≤ high then some (n, cs.drop digits)
  else none

/-- What is left behind a character, if it stands next. -/
def punct? (c : Char) : List Char → Option (List Char)
  | [] => none
  | d :: cs => if d = c then some cs else none

/-- The days of a month, with a leap day by the Gregorian rule. -/
def daysInMonth (year month : Nat) : Nat :=
  if month = 2 then
    if year % 4 = 0 ∧ (year % 100 ≠ 0 ∨ year % 400 = 0) then 29 else 28
  else if month = 4 ∨ month = 6 ∨ month = 9 ∨ month = 11 then 30
  else 31

/-- What is left behind a date. -/
def date? (cs : List Char) : Option (List Char) := do
  let (year, cs) ← field? 4 0 9999 cs
  let (month, cs) ← field? 2 1 12 (← punct? '-' cs)
  let (_, cs) ← field? 2 1 (daysInMonth year month) (← punct? '-' cs)
  some cs

/-- What is left behind a time of day. -/
def time? (cs : List Char) : Option (List Char) := do
  let (_, cs) ← field? 2 0 23 cs
  let (_, cs) ← field? 2 0 59 (← punct? ':' cs)
  let (_, cs) ← field? 2 0 60 (← punct? ':' cs)
  match cs with
  | '.' :: rest =>
    if (rest.takeWhile Char.isDigit).isEmpty then none else some (rest.dropWhile Char.isDigit)
  | cs => some cs

/-- What is left behind the offset of a time, if there is one. -/
def offset? : List Char → Option (List Char)
  | 'Z' :: cs => some cs
  | 'z' :: cs => some cs
  | [] => some []
  | c :: cs => do
    if c = '+' ∨ c = '-' then
      let (_, cs) ← field? 2 0 23 cs
      let (_, cs) ← field? 2 0 59 (← punct? ':' cs)
      some cs
    else none

/-- A date, a time or both, as the whole text. -/
def datetime? (cs : List Char) : Option Value := do
  let rest ←
    match date? cs with
    | some [] => some []
    | some (c :: rest) =>
      if c = 'T' ∨ c = 't' ∨ c = ' ' then time? rest >>= offset? else none
    | none => time? cs
  if rest.isEmpty then some .datetime else none

/-- Characters of numbers, dates and words. -/
def isScalar (c : Char) : Bool :=
  c.isAlphanum || c == '_' || c == '+' || c == '-' || c == '.' || c == ':'

/-- The text of a number, date or word. A blank belongs to it between a date and a time. -/
def scalarText (cs : List Char) : List Char :=
  let text := cs.takeWhile isScalar
  match cs.drop text.length with
  | ' ' :: c :: rest =>
    if c.isDigit ∧ date? text = some [] then text ++ ' ' :: c :: rest.takeWhile isScalar else text
  | _ => text

/-- The value of a number, date or word. -/
def scalar? (text : List Char) : Option Value :=
  match text with
  | ['t', 'r', 'u', 'e'] => some (.boolean true)
  | ['f', 'a', 'l', 's', 'e'] => some (.boolean false)
  | '0' :: 'x' :: cs => basedInteger? 16 (fun c => (hexValue? [c]).isSome) cs
  | '0' :: 'o' :: cs => basedInteger? 8 (fun c => '0' ≤ c ∧ c ≤ '7') cs
  | '0' :: 'b' :: cs => basedInteger? 2 (fun c => c = '0' ∨ c = '1') cs
  | cs => decimalInteger? cs <|> float? cs <|> datetime? cs

/-! ## Values -/

/-- How deep values may nest, and how many parts a key may have. -/
def nestingLimit : Nat := 79

/-- The rest of an array behind its opening bracket or a comma. The bound is above the number of
characters left. -/
def arrayRest (value : Reader Value) : Nat → Reader (List Value)
  | 0, _ => none
  | n + 1, cs => do
    match ← skipLines false cs with
    | ']' :: cs => some ([], cs)
    | cs =>
      let (v, cs) ← value cs
      match ← skipLines false cs with
      | ',' :: cs =>
        let (vs, cs) ← arrayRest value n cs
        some (v :: vs, cs)
      | ']' :: cs => some ([v], cs)
      | _ => none

/-- A key, an equals sign and a value. -/
def pair? (value : Reader Value) : Reader (List String × String × Value) := fun cs => do
  let (parts, cs) ← key? nestingLimit cs
  let cs ← punct? '=' (skipBlanks cs)
  let (v, cs) ← value (skipBlanks cs)
  let key ← parts.getLast?
  some ((parts.dropLast, key, v), cs)

/-- The rest of an inline table behind its opening brace or a comma, where a pair has to follow. -/
def inlineRest (value : Reader Value) : Nat → Table → Reader Table
  | 0, _, _ => none
  | n + 1, t, cs => do
    let ((path, key, v), cs) ← pair? value cs
    let t ← t.insert path key v
    match skipBlanks cs with
    | ',' :: cs => inlineRest value n t cs
    | '\x7d' :: cs => some (t, cs)
    | _ => none

/-- A value that nests below a bound. -/
def value? : Nat → Reader Value
  | 0, _ => none
  | n + 1, cs =>
    match cs with
    | '[' :: rest => do
      if n = 0 then none
      else
        let (vs, rest) ← arrayRest (value? n) (rest.length + 1) rest
        some (.array vs, rest)
    | '\x7b' :: rest => do
      if n = 0 then none
      else
        match skipBlanks rest with
        | '\x7d' :: rest => some (.table [], rest)
        | rest =>
          let (t, rest) ← inlineRest (value? n) (rest.length + 1) .fresh rest
          some (t.toValue, rest)
    | '"' :: _ | '\'' :: _ => do
      let (s, rest) ← string? cs
      some (.string s, rest)
    | cs => do
      let text := scalarText cs
      let v ← scalar? text
      some (v, cs.drop text.length)

/-! ## Documents -/

/-- A header behind its first bracket. -/
def header? (d : Draft) : Reader Draft
  | '[' :: cs => do
    let (path, cs) ← key? nestingLimit cs
    let cs ← punct? ']' cs
    let cs ← punct? ']' cs
    let d ← d.openArray path
    some (d, cs)
  | cs => do
    let (path, cs) ← key? nestingLimit cs
    let cs ← punct? ']' cs
    let d ← d.openTable path
    some (d, cs)

/-- The lines of a document. The bound is above the number of characters left. -/
def lines? : Nat → Draft → List Char → Option Draft
  | 0, _, _ => none
  | _, d, [] => some d
  | n + 1, d, cs =>
    match lineEnd? cs with
    | some rest => lines? n d rest
    | none =>
      match skipBlanks cs with
      | '[' :: cs => do
        let (d, cs) ← header? d cs
        let cs ← lineEnd? cs
        lines? n d cs
      | cs => do
        let ((path, key, v), cs) ← pair? (value? (nestingLimit + 1)) cs
        let d ← d.insert path key v
        let cs ← lineEnd? cs
        lines? n d cs

/-- Reads a document. A byte order mark in front of it does not count. -/
def readToml (s : String) : Option Value := do
  let cs := match s.toList with
    | '\uFEFF' :: cs => cs
    | cs => cs
  let d ← lines? (cs.length + 1) {} cs
  d.finish

end Ambient.Toml
