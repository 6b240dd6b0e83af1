import Ambient.Parser.Skip

/-!
# Names

Names that bind something (`identifier`) are identifiers or words that are reserved only in some
places. Names of properties and parameters (`propertyName`) may be any word, a literal, or a
computed name in square brackets.
-/

namespace Ambient

/-- Whether a reserved word can still bind a name. -/
def Keyword.bindsName : Keyword → Bool
  | typeKw | moduleKw | namespaceKw | defaultKw | fromKw | asKw | isKw | inKw | outKw
  | readonlyKw | abstractKw | declareKw | staticKw | inferKw | keyofKw | symbolKw | objectKw
  | thisKw => true
  | _ => false

namespace Parser

/-- A name that binds something. -/
def identifier : Parser String := do
  match ← peek with
  | .ident name => advance; pure name
  | .keyword k =>
    if k.bindsName then advance; pure k.text
    else fail (.expectedIdentifier (.keyword k))
  | k => fail (.expectedIdentifier k)

/-- Dots with a word behind each, and what is left behind them. -/
def dottedRest : List Token → String × List Token
  | t :: u :: ts =>
    if t.kind = .symbol .dot then
      match u.kind.wordText? with
      | some s => let r := dottedRest ts; ("." ++ s ++ r.1, r.2)
      | none => ("", t :: u :: ts)
    else ("", t :: u :: ts)
  | ts => ("", ts)

/-- A name, or several with dots between them. -/
def dottedName : Parser String := do
  let name ← identifier
  fun c =>
    let r := dottedRest c.rest
    .ok (name ++ r.1, { c with rest := r.2 })

/-- The name of a property, parameter or member of an enumeration. A quoted name keeps its
quotes. -/
def propertyName : Parser String := do
  match ← peek with
  | .ident name => advance; pure name
  | .string s => advance; pure (Text.quote s)
  | .number text => advance; pure text
  | .symbol .lbracket => computedName
  | .keyword k => advance; pure k.text
  | k => fail (.expectedPropertyName k)

/-- The name of a member. Where no name stands, the next token is passed, and everything if it
opens a computed name that does not end. -/
def memberName? : Parser (Option String) := fun c =>
  match propertyName c with
  | .ok (name, later) => .ok (some name, later)
  | .error _ =>
    if c.kindAt 0 = .lbracket then .ok (none, { c with rest := [] }) else .ok (none, c.advance)

end Parser

end Ambient
