import Ambient.Parser.Basic

/-!
# Text that is kept as written

Initializers, computed names and destructuring patterns are not looked into: a scan over the
tokens finds where they end by counting brackets. Each scan takes the tokens that were passed
before, from the last to the first, and those that are left, and gives both again at its end.
-/

namespace Ambient

namespace Kind

abbrev lparen : Kind := .symbol .lparen
abbrev rparen : Kind := .symbol .rparen
abbrev lbrace : Kind := .symbol .lbrace
abbrev rbrace : Kind := .symbol .rbrace
abbrev lbracket : Kind := .symbol .lbracket
abbrev rbracket : Kind := .symbol .rbracket
abbrev langle : Kind := .symbol .langle
abbrev rangle : Kind := .symbol .rangle
abbrev comma : Kind := .symbol .comma
abbrev semicolon : Kind := .symbol .semicolon
abbrev colon : Kind := .symbol .colon
abbrev question : Kind := .symbol .question
abbrev eq : Kind := .symbol .eq
abbrev arrow : Kind := .symbol .arrow

end Kind

/-- Passes an expression: it ends before a comma, semicolon or closing brace outside of all
brackets. A closing parenthesis or square bracket without a partner belongs to it. -/
def passExpression (depth : Nat) (passed : List Token) : List Token → List Token × List Token
  | [] => (passed, [])
  | t :: ts =>
    match t.kind with
    | .symbol .lparen | .symbol .lbracket | .symbol .lbrace =>
      passExpression (depth + 1) (t :: passed) ts
    | .symbol .rparen | .symbol .rbracket => passExpression (depth - 1) (t :: passed) ts
    | .symbol .rbrace =>
      if depth = 0 then (passed, t :: ts) else passExpression (depth - 1) (t :: passed) ts
    | .symbol .comma | .symbol .semicolon =>
      if depth = 0 then (passed, t :: ts) else passExpression depth (t :: passed) ts
    | _ => passExpression depth (t :: passed) ts

/-- Passes a computed name, `depth` square brackets being open: the bracket that closes the last
one ends it. Nothing, if there is no such bracket. -/
def passComputedName? (depth : Nat) (passed : List Token) :
    List Token → Option (List Token × List Token)
  | [] => none
  | t :: ts =>
    match t.kind with
    | .symbol .lbracket => passComputedName? (depth + 1) (t :: passed) ts
    | .symbol .rbracket =>
      if depth ≤ 1 then some (t :: passed, ts) else passComputedName? (depth - 1) (t :: passed) ts
    | _ => passComputedName? depth (t :: passed) ts

/-- Passes a destructuring pattern, `depth` braces and square brackets being open, which are not
told apart. Nothing, if the pattern does not end. -/
def passPattern? (depth : Nat) (passed : List Token) :
    List Token → Option (List Token × List Token)
  | [] => none
  | t :: ts =>
    match t.kind with
    | .symbol .lbrace | .symbol .lbracket => passPattern? (depth + 1) (t :: passed) ts
    | .symbol .rbrace | .symbol .rbracket =>
      if depth ≤ 1 then some (t :: passed, ts) else passPattern? (depth - 1) (t :: passed) ts
    | _ => passPattern? depth (t :: passed) ts

theorem passExpression_append (depth : Nat) (passed ts : List Token) :
    (passExpression depth passed ts).1.reverse ++ (passExpression depth passed ts).2 =
      passed.reverse ++ ts := by
  fun_induction passExpression depth passed ts <;> simp_all

theorem passComputedName?_append {depth : Nat} {passed ts : List Token}
    {r : List Token × List Token} (h : passComputedName? depth passed ts = some r) :
    r.1.reverse ++ r.2 = passed.reverse ++ ts := by
  fun_induction passComputedName? depth passed ts with
  | case1 => simp at h
  | case3 => cases h; simp
  | case2 _ _ _ _ _ ih | case4 _ _ _ _ _ _ ih | case5 _ _ _ _ _ _ ih => simp [ih h]

theorem passPattern?_append {depth : Nat} {passed ts : List Token}
    {r : List Token × List Token} (h : passPattern? depth passed ts = some r) :
    r.1.reverse ++ r.2 = passed.reverse ++ ts := by
  fun_induction passPattern? depth passed ts with
  | case1 => simp at h
  | _ => grind

/-- What is left behind the next semicolon. -/
def skipStatement : List Token → List Token
  | [] => []
  | t :: ts => if t.kind = .semicolon then ts else skipStatement ts

/-- Whether an arrow follows the parenthesis that closes the one that is open, `depth` more being
open inside it. -/
def arrowFollows : (depth : Nat) → List Token → Bool
  | _, [] => false
  | depth, t :: ts =>
    match t.kind with
    | .symbol .lparen => arrowFollows (depth + 1) ts
    | .symbol .rparen =>
      match depth with
      | 0 => ts.head?.map Token.kind == some .arrow
      | d + 1 => arrowFollows d ts
    | _ => arrowFollows depth ts

namespace Parser

/-- The source from the first passed token to the last one. -/
def written (passed : List Token) : String :=
  String.ofList (Text.trim (Token.span passed.reverse))

/-- Passes tokens by a scan that may not end, which is an error at the end of the source then. -/
def scanned (cause : Cause) (scan : List Token → Option (List Token × List Token)) :
    Parser String := fun c =>
  match scan c.rest with
  | some (passed, rest) => .ok (written passed, { c with rest })
  | none => .error ⟨cause, c.eof.start⟩

/-- An expression, as written. -/
def expression : Parser String := fun c =>
  let r := passExpression 0 [] c.rest
  .ok (written r.1, { c with rest := r.2 })

/-- A computed name, as written. -/
def computedName : Parser String :=
  scanned .unterminatedComputedName (passComputedName? 0 [])

/-- A destructuring pattern, as written. -/
def pattern : Parser String :=
  scanned .unterminatedPattern (passPattern? 0 [])

/-- Passes tokens by a scan that keeps nothing. -/
def skip (scan : List Token → List Token) : Parser Unit := fun c =>
  .ok ((), { c with rest := scan c.rest })

/-- Passes everything up to and with the next semicolon. -/
def statement : Parser Unit :=
  skip skipStatement

end Parser

end Ambient
