import Ambient.Text.Hex

/-!
# JSON

`readJson` reads a text that holds one value and nothing else but blanks. Numbers are checked and
their values forgotten. A string may hold halves of surrogate pairs that stand alone; it is a
string of JSON then, but has no text.
-/

namespace Ambient

/-- A value of JSON. A string without a text is `none`. -/
inductive JsonValue where
  | null
  | boolean (b : Bool)
  | number
  | string (text : Option String)
  | array (items : List JsonValue)
  | object (members : List (Option String × JsonValue))

namespace JsonValue

/-- Drops blanks. -/
def skipBlanks (cs : List Char) : List Char :=
  cs.dropWhile fun c => c == ' ' || c == '\n' || c == '\r' || c == '\t'

/-! ## Strings -/

/-- What a letter behind a backslash stands for. -/
def escapeCode? : Char → Option Nat
  | '"' => some 0x22
  | '\\' => some 0x5C
  | '/' => some 0x2F
  | 'b' => some 0x08
  | 'f' => some 0x0C
  | 'n' => some 0x0A
  | 'r' => some 0x0D
  | 't' => some 0x09
  | _ => none

/-- The codes of a string behind its opening quote, and what is left behind the closing one. -/
def readCodes : List Char → Option (List Nat × List Char)
  | [] => none
  | '"' :: cs => some ([], cs)
  | '\\' :: 'u' :: a :: b :: c :: d :: cs => do
    let n ← Text.hexValue? [a, b, c, d]
    let (codes, rest) ← readCodes cs
    some (n :: codes, rest)
  | '\\' :: e :: cs => do
    let n ← escapeCode? e
    let (codes, rest) ← readCodes cs
    some (n :: codes, rest)
  | c :: cs =>
    if c = '\\' ∨ c.toNat < 0x20 then none
    else do
      let (codes, rest) ← readCodes cs
      some (c.toNat :: codes, rest)

/-- Whether a code is the first half of a surrogate pair. -/
def isHighHalf (n : Nat) : Bool :=
  0xD800 ≤ n && n ≤ 0xDBFF

/-- Whether a code is the second half of a surrogate pair. -/
def isLowHalf (n : Nat) : Bool :=
  0xDC00 ≤ n && n ≤ 0xDFFF

/-- The character that a surrogate pair stands for. -/
def pairChar (high low : Nat) : Char :=
  Char.ofNat (0x10000 + (high - 0xD800) * 0x400 + (low - 0xDC00))

/-- The characters of codes, unless half of a surrogate pair stands alone. -/
def charsOfCodes? : List Nat → Option (List Char)
  | [] => some []
  | [n] => if isHighHalf n || isLowHalf n then none else some [Char.ofNat n]
  | a :: b :: r =>
    if isHighHalf a && isLowHalf b then (charsOfCodes? r).map (pairChar a b :: ·)
    else if isHighHalf a || isLowHalf a then none
    else (charsOfCodes? (b :: r)).map (Char.ofNat a :: ·)

/-- The text of a string behind its opening quote, and what is left behind the closing one. -/
def readText (cs : List Char) : Option (Option String × List Char) := do
  let (codes, rest) ← readCodes cs
  some ((charsOfCodes? codes).map String.ofList, rest)

/-! ## Numbers -/

/-- What is left behind one digit or more. -/
def digits? : List Char → Option (List Char)
  | [] => none
  | c :: cs => if c.isDigit then some (cs.dropWhile Char.isDigit) else none

/-- What is left behind a whole number without a sign. No digit follows a zero at the front. -/
def natural? : List Char → Option (List Char)
  | '0' :: cs => if (digits? cs).isSome then none else some cs
  | cs => digits? cs

/-- What is left behind decimal places, if there are any. -/
def places? : List Char → Option (List Char)
  | '.' :: cs => digits? cs
  | cs => some cs

/-- What is left behind an exponent, if there is one. -/
def exponent? : List Char → Option (List Char)
  | [] => some []
  | e :: cs =>
    if e = 'e' ∨ e = 'E' then
      match cs with
      | s :: r => if s = '+' ∨ s = '-' then digits? r else digits? cs
      | [] => none
    else some (e :: cs)

/-- What is left behind a number. -/
def number? (cs : List Char) : Option (List Char) := do
  let rest ← natural? (if cs.head? = some '-' then cs.tail else cs)
  exponent? (← places? rest)

/-! ## Values -/

/-- What follows a separator or a closing bracket: `true` behind a separator. -/
def closing? (bracket : Char) (cs : List Char) : Option (Bool × List Char) :=
  match skipBlanks cs with
  | [] => none
  | c :: rest =>
    if c = ',' then some (true, rest) else if c = bracket then some (false, rest) else none

mutual

/-- A value and what is left behind it. The bound is above the number of characters left. -/
def readValue : Nat → List Char → Option (JsonValue × List Char)
  | 0, _ => none
  | n + 1, cs =>
    match skipBlanks cs with
    | 'n' :: 'u' :: 'l' :: 'l' :: rest => some (.null, rest)
    | 't' :: 'r' :: 'u' :: 'e' :: rest => some (.boolean true, rest)
    | 'f' :: 'a' :: 'l' :: 's' :: 'e' :: rest => some (.boolean false, rest)
    | '"' :: rest => (readText rest).map fun r => (.string r.1, r.2)
    | '[' :: rest =>
      if (skipBlanks rest).head? = some ']' then some (.array [], (skipBlanks rest).tail)
      else (readItems n rest).map fun r => (.array r.1, r.2)
    | '{' :: rest =>
      if (skipBlanks rest).head? = some '}' then some (.object [], (skipBlanks rest).tail)
      else (readMembers n rest).map fun r => (.object r.1, r.2)
    | rest => (number? rest).map fun r => (.number, r)

/-- The values of an array from one that has to follow on. -/
def readItems : Nat → List Char → Option (List JsonValue × List Char)
  | 0, _ => none
  | n + 1, cs => do
    let (v, rest) ← readValue n cs
    let (more, rest) ← closing? ']' rest
    if more then
      let (vs, rest) ← readItems n rest
      some (v :: vs, rest)
    else some ([v], rest)

/-- The members of an object from one that has to follow on. -/
def readMembers : Nat → List Char → Option (List (Option String × JsonValue) × List Char)
  | 0, _ => none
  | n + 1, cs =>
    match skipBlanks cs with
    | '"' :: rest => do
      let (key, rest) ← readText rest
      match skipBlanks rest with
      | ':' :: rest =>
        let (v, rest) ← readValue n rest
        let (more, rest) ← closing? '}' rest
        if more then
          let (ms, rest) ← readMembers n rest
          some ((key, v) :: ms, rest)
        else some ([(key, v)], rest)
      | _ => none
    | _ => none

end

end JsonValue

/-- The value that a text holds. -/
def readJson (text : String) : Option JsonValue := do
  let cs := text.toList
  let (v, rest) ← JsonValue.readValue (cs.length + 1) cs
  if (JsonValue.skipBlanks rest).isEmpty then some v else none

end Ambient
