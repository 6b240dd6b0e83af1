import Ambient.Text.CharClass

/-!
# Quoted texts

`quote` writes a string literal of a declaration file: double quotes around the text, with a
backslash before a quote or a backslash and short escapes for line feed, carriage return and tab;
every other character stands for itself. `debugQuote` writes a text for a message: the same
escapes, one for NUL, and the code point in braces for what is not visible.
-/

namespace Ambient.Text

/-- One character inside a double-quoted literal. -/
def escapeChar (c : Char) : List Char :=
  if c = '"' then ['\\', '"']
  else if c = '\\' then ['\\', '\\']
  else if c = '\n' then ['\\', 'n']
  else if c = '\r' then ['\\', 'r']
  else if c = '\t' then ['\\', 't']
  else [c]

/-- The characters of a double-quoted literal with the given value. -/
def quoteChars (cs : List Char) : List Char :=
  '"' :: cs.flatMap escapeChar ++ ['"']

/-- A text as a double-quoted literal. -/
def quote (s : String) : String :=
  String.ofList (quoteChars s.toList)

/-- One character of a text shown in a message. -/
def debugChar (c : Char) : List Char :=
  if c.toNat = 0 then ['\\', '0']
  else if (escapeChar c).length = 2 then escapeChar c
  else if isPrintable c then [c]
  else ['\\', 'u', '\x7b'] ++ Nat.toDigits 16 c.toNat ++ ['\x7d']

/-- A text as it is shown in a message. -/
def debugQuote (s : String) : String :=
  String.ofList ('"' :: s.toList.flatMap debugChar ++ ['"'])

end Ambient.Text
