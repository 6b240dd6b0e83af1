import Ambient.Token.Basic

/-!
# Parsers

A parser reads tokens from a `Cursor`, the tokens that are left of a source, and gives a value and
the cursor behind it, or a `ParseError`: a cause and the byte offset of the token at fault. The end
of the source is a token that is never passed.

The loops (`itemsUntil`, `commaList`, `sepBy1`) take a bound on the number of their rounds. Each
round passes a token, so that a bound above the number of tokens left is never reached; reaching it
would be the error `Cause.exhausted`.
-/

namespace Ambient

/-- The tokens of a source that are left to read. -/
structure Cursor where
  rest : List Token
  eof : Token

namespace Cursor

/-- The token that stands next. -/
def current (c : Cursor) : Token :=
  c.rest.headD c.eof

/-- The kind of the token `n` places after the next one. -/
def kindAt (c : Cursor) (n : Nat) : Kind :=
  (c.rest.getD n c.eof).kind

/-- The cursor behind the next token. -/
def advance (c : Cursor) : Cursor :=
  { c with rest := c.rest.tail }

end Cursor

/-- The cursor at the front of a source. -/
def Lexed.cursor (l : Lexed) : Cursor :=
  ⟨l.tokens, l.eof⟩

/-! ## Errors -/

/-- Why a source was refused. -/
inductive Cause where
  | expected (want found : Kind)
  | expectedIdentifier (found : Kind)
  | expectedPropertyName (found : Kind)
  | unterminatedComputedName
  | unterminatedPattern
  | expectedModuleName
  | expectedNumber (found : Kind)
  | expectedModuleSpecifier (found : Kind)
  | unexpectedInType (found : Kind)
  /-- A bound on loops or nesting was reached. -/
  | exhausted
  deriving DecidableEq, Repr

/-- The cause in words. -/
def Cause.message : Cause → String
  | expected want found => "expected " ++ want.label ++ ", found " ++ found.label
  | expectedIdentifier found => "expected identifier, found " ++ found.label
  | expectedPropertyName found => "expected property name, found " ++ found.label
  | unterminatedComputedName => "unterminated computed property name"
  | unterminatedPattern => "unterminated binding pattern"
  | expectedModuleName => "expected module name"
  | expectedNumber found => "expected number after '-', found " ++ found.label
  | expectedModuleSpecifier found => "expected module specifier, found " ++ found.label
  | unexpectedInType found => "unexpected token in type position: " ++ found.label
  | exhausted => "too many tokens"

/-- Why and where a source was refused. -/
structure ParseError where
  cause : Cause
  /-- The byte offset of the token at fault. -/
  pos : Nat
  deriving DecidableEq, Repr

namespace ParseError

/-- The cause in words. -/
def message (e : ParseError) : String :=
  e.cause.message

/-- The error as one line. -/
def display (e : ParseError) : String :=
  "parse error at " ++ toString e.pos ++ ": " ++ e.message

end ParseError

/-- A function that reads tokens. -/
abbrev Parser (α : Type) := StateT Cursor (Except ParseError) α

namespace Parser

/-! ## One token -/

/-- Fails at the next token. -/
def fail {α : Type} (cause : Cause) : Parser α := fun c =>
  .error ⟨cause, c.current.start⟩

/-- The kind of the token `n` places after the next one, which stays. -/
def peekAt (n : Nat) : Parser Kind := fun c =>
  .ok (c.kindAt n, c)

/-- The kind of the next token, which stays. -/
def peek : Parser Kind :=
  peekAt 0

/-- The documentation comment of the next token. -/
def peekDoc : Parser (Option String) := fun c =>
  .ok (c.current.doc, c)

/-- Passes the next token. -/
def advance : Parser Unit := fun c =>
  .ok ((), c.advance)

/-- Passes the next token if it is of the given kind, and tells whether it was. -/
def accept (k : Kind) : Parser Bool := fun c =>
  if c.kindAt 0 = k then .ok (true, c.advance) else .ok (false, c)

/-- Passes the next token, which has to be of the given kind. -/
def expect (k : Kind) : Parser Unit := fun c =>
  if c.kindAt 0 = k then .ok ((), c.advance)
  else .error ⟨.expected k (c.kindAt 0), c.current.start⟩

/-- Reads something if the next token is of the given kind, which goes before it. -/
def after? {α : Type} (k : Kind) (p : Parser α) : Parser (Option α) := do
  if ← accept k then some <$> p else pure none

/-! ## Loops -/

/-- Reads items until the closing token or the end of the source stands next. An item that gives
nothing is left out. -/
def itemsUntil {α : Type} (close : Kind) (item : Parser (Option α)) : Nat → Parser (List α)
  | 0 => fail .exhausted
  | n + 1 => do
    let k ← peek
    if k = close ∨ k = .eof then pure []
    else
      let x ← item
      let xs ← itemsUntil close item n
      pure (x.toList ++ xs)

/-- Reads elements with commas between them until the closing token or the end of the source stands
next, or no comma follows an element. A comma may follow the last element. -/
def commaList {α : Type} (close : Kind) (element : Parser α) : Nat → Parser (List α)
  | 0 => fail .exhausted
  | n + 1 => do
    let k ← peek
    if k = close ∨ k = .eof then pure []
    else
      let x ← element
      if ← accept (.symbol .comma) then
        let xs ← commaList close element n
        pure (x :: xs)
      else pure [x]

/-- Reads one element or more with a separator between neighbours. -/
def sepBy1 {α : Type} (sep : Kind) (element : Parser α) : Nat → Parser (List α)
  | 0 => fail .exhausted
  | n + 1 => do
    let x ← element
    if ← accept sep then
      let xs ← sepBy1 sep element n
      pure (x :: xs)
    else pure [x]

end Parser

end Ambient
