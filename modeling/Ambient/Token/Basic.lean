import Ambient.Text.Lines
import Ambient.Text.Quoted
import Ambient.Token.Keyword

/-!
# Tokens

A token has a kind, the characters it is written with, the characters skipped before it, the byte
offset where it starts and the documentation comment in front of it. Nothing of the source is
lost: the gaps and texts of all tokens, one after the other, are the source (`Lexed.source`).
-/

namespace Ambient

/-- What a token is. -/
inductive Kind where
  | ident (name : String)
  /-- A quoted literal, with the value that it stands for. -/
  | string (value : String)
  | number (text : String)
  /-- A template literal as written, backticks included. -/
  | template (text : String)
  | keyword (k : Keyword)
  | symbol (s : Symbol)
  /-- A reference to another file, library or package in a triple-slash comment. -/
  | reference (target : String)
  /-- The end of the source. -/
  | eof
  deriving DecidableEq, Repr

namespace Kind

/-- The name of the kind in messages, without the text that the token carries. -/
def name : Kind → String
  | ident _ => "Ident"
  | string _ => "StringLiteral"
  | number _ => "NumberLiteral"
  | template _ => "TemplateLiteral"
  | keyword k => k.label
  | symbol s => s.label
  | reference _ => "TripleSlashRef"
  | eof => "Eof"

/-- The text that tokens of some kinds carry. -/
def payload? : Kind → Option String
  | ident s | string s | number s | template s | reference s => some s
  | keyword _ | symbol _ | eof => none

/-- How a token is shown in messages. -/
def label (k : Kind) : String :=
  match k.payload? with
  | none => k.name
  | some s => k.name ++ "(" ++ Text.debugQuote s ++ ")"

/-- Identifiers and reserved words can both name properties and parameters. -/
def wordText? : Kind → Option String
  | ident s => some s
  | keyword k => some k.text
  | _ => none

/-- Whether the token is an identifier or a reserved word. -/
def isWord (k : Kind) : Bool :=
  k.wordText?.isSome

/-- Whether the token is an identifier that is not reserved. -/
def isIdent : Kind → Bool
  | ident _ => true
  | _ => false

end Kind

/-- A token of a source. -/
structure Token where
  kind : Kind
  /-- The characters between the token before and this one. -/
  gap : List Char := []
  /-- The characters of the token. -/
  text : List Char := []
  /-- The byte offset of the first character. -/
  start : Nat
  /-- The documentation comment directly before the token. -/
  doc : Option String := none
  deriving DecidableEq, Repr

/-- The byte offset after the last character of the token. -/
def Token.stop (t : Token) : Nat :=
  t.start + Text.byteLength t.text

/-- The characters of a source from the first token of a list to the last one. -/
def Token.span : List Token → List Char
  | [] => []
  | t :: ts => t.text ++ ts.flatMap fun u => u.gap ++ u.text

/-- A source cut into tokens. The end of the source is a token of its own. -/
structure Lexed where
  tokens : List Token
  eof : Token
  deriving Repr

/-- All tokens, the end of the source last. -/
def Lexed.toList (l : Lexed) : List Token :=
  l.tokens ++ [l.eof]

/-- The characters that the tokens were cut from. -/
def Lexed.source (l : Lexed) : List Char :=
  l.toList.flatMap fun t => t.gap ++ t.text

end Ambient
