import Ambient.Parser.Ty
import Ambient.Token.Lexer
import Ambient.Tree.Decl

/-!
# Reading declarations

`parse` reads a declaration file. Tokens that start no declaration are passed over one by one, so
that only a declaration that has begun can fail. As with types, the grammar of an item is written
over a reader for the bodies inside it, and `readBlock` ties the knot with a bound on the nesting.
-/

namespace Ambient

/-- The words `export` and `declare` before an item: whether `export` is among them, and what is
left behind them. -/
def itemModifiers : List Token → Bool × List Token
  | [] => (false, [])
  | t :: ts =>
    if t.kind = .keyword .exportKw then (true, (itemModifiers ts).2)
    else if t.kind = .keyword .declareKw then itemModifiers ts
    else (false, t :: ts)

/-- The modifiers of a class member and whether it is read-only. -/
structure ClassMemberWords where
  modifiers : MemberModifiers := {}
  readonly : Bool := false
  deriving DecidableEq, Repr

/-- Takes in one word before a class member. Nothing, if it is no modifier. -/
def ClassMemberWords.add? (w : ClassMemberWords) : Kind → Option ClassMemberWords
  | .keyword .publicKw => some { w with modifiers.visibility := .everyone }
  | .keyword .protectedKw => some { w with modifiers.visibility := .subclasses }
  | .keyword .privateKw => some { w with modifiers.visibility := .owner }
  | .keyword .staticKw => some { w with modifiers.isStatic := true }
  | .keyword .abstractKw => some { w with modifiers.isAbstract := true }
  | .keyword .readonlyKw => some { w with readonly := true }
  | .keyword .declareKw | .ident "override" => some w
  | _ => none

/-- The modifiers before a class member, and what is left behind them. A word that could name the
member is a modifier only if the next token cannot follow a name. -/
def classMemberWords (w : ClassMemberWords) : List Token → ClassMemberWords × List Token
  | [] => (w, [])
  | t :: ts =>
    if ((ts.head?.map Token.kind).getD .eof).followsModifier then
      match w.add? t.kind with
      | some w => classMemberWords w ts
      | none => (w, t :: ts)
    else (w, t :: ts)

namespace Parser

section

variable (n : Nat) (ty : TyReader)

/-! ## Functions, interfaces and type aliases -/

/-- A function, from its first word on. -/
def function (doc : Option String) : Parser Function := do
  expect (.keyword .functionKw)
  let name ← identifier
  let sig ← signature n ty false
  let result ← result? ty false
  let _ ← accept .semicolon
  pure { name, doc, sig, result }

/-- Types with commas between them behind a word, or none. -/
def tyListAfter (k : Keyword) : Parser (List Ty) := do
  let ts ← after? (.keyword k) (sepBy1 .comma (ty .full false) n)
  pure (ts.getD [])

/-- An interface, from its first word on. -/
def interface (doc : Option String) : Parser Interface := do
  expect (.keyword .interfaceKw)
  let name ← identifier
  let typeParams ← typeParams n ty false
  let supers ← tyListAfter n ty .extendsKw
  let members ← members n ty
  pure { name, doc, typeParams, supers, members }

/-- A type alias, from its first word on. -/
def typeAlias (doc : Option String) : Parser TypeAlias := do
  expect (.keyword .typeKw)
  let name ← identifier
  let typeParams ← typeParams n ty false
  expect .eq
  let type ← ty .full false
  let _ ← accept .semicolon
  pure { name, doc, typeParams, ty := type }

/-! ## Classes -/

/-- The parameters of a constructor with their terminator, from the word on. -/
def classConstructor (visibility : Visibility) : Parser ClassMemberShape := do
  advance
  let (_, params) ← params n ty false
  endMember
  pure (.constructor visibility params)

/-- A property or method with its terminator, or nothing where no name stands. The initializer of
a property is passed over. -/
def namedClassMember (w : ClassMemberWords) : Parser (Option ClassMemberShape) := do
  match ← memberName? with
  | none => pure none
  | some name =>
    let optional ← accept .question
    let _ ← accept (.symbol .bang)
    if ← atSignature then
      let sig ← signature n ty false
      let result ← result? ty false
      endMember
      pure (some (.method name optional sig result w.modifiers))
    else
      let type ← after? .colon (ty .full false)
      let _ ← after? .eq expression
      endMember
      pure (some (.property name type optional w.readonly w.modifiers))

/-- A member behind its documentation. -/
def classMemberShape : Parser (Option ClassMemberShape) := do
  let w ← fun c =>
    let r := classMemberWords {} c.rest
    .ok (r.1, { c with rest := r.2 })
  let k₀ ← peek
  let k₁ ← peekAt 1
  if k₀ = .ident "constructor" ∧ k₁ = .lparen then
    some <$> classConstructor n ty w.modifiers.visibility
  else if ← atIndexSignature then
    let sig ← indexSignature ty w.readonly w.modifiers.isStatic
    pure (some (.index sig))
  else if ← atAccessor then
    let a ← accessor n ty w.modifiers
    pure (some (.accessor a))
  else namedClassMember n ty w

/-- A member with its terminator. A semicolon on its own is nothing. -/
def classMember : Parser (Option ClassMember) := do
  let doc ← peekDoc
  if ← accept .semicolon then pure none
  else
    let shape ← classMemberShape n ty
    pure (shape.map fun shape => { doc, shape })

/-- A class. -/
def classDecl (doc : Option String) (isAbstract : Bool) : Parser Class := do
  expect (.keyword .classKw)
  let name ← identifier
  let typeParams ← typeParams n ty false
  let super ← after? (.keyword .extendsKw) (ty .full false)
  let interfaces ← tyListAfter n ty .implementsKw
  expect .lbrace
  let members ← itemsUntil .rbrace (classMember n ty) n
  expect .rbrace
  pure { name, doc, isAbstract, typeParams, super, interfaces, members }

/-! ## Enumerations and variables -/

/-- A member of an enumeration, without the comma behind it. -/
def enumMember : Parser EnumMember := do
  let doc ← peekDoc
  let name ← propertyName
  let initializer ← after? .eq expression
  pure { name, doc, initializer }

/-- An enumeration, from the word `enum` on. -/
def enum (doc : Option String) (isConst : Bool) : Parser Enum := do
  expect (.keyword .enumKw)
  let name ← identifier
  expect .lbrace
  let members ← commaList .rbrace enumMember n
  expect .rbrace
  pure { name, doc, isConst, members }

/-- One variable of a statement. -/
def declarator : Parser Declarator := do
  let name ← propertyName
  let type ← after? .colon (ty .full false)
  let initializer ← after? .eq expression
  pure { name, ty := type, initializer }

/-- A statement that declares variables of the given kind, from its first word on. -/
def variableStatement (doc : Option String) (kind : VariableKind) : Parser Variables := do
  advance
  let declarators ← sepBy1 .comma (declarator ty) n
  let _ ← accept .semicolon
  pure { doc, kind, declarators }

/-! ## Export statements -/

/-- A name in an export list, with the name that it has outside. -/
def exportedName : Parser (String × Option String) := do
  let _ ← accept (.keyword .typeKw)
  let name ← propertyName
  let outside ← after? (.keyword .asKw) propertyName
  pure (name, outside)

/-- A list of names to export, which may come from another module. -/
def exportedNames : Parser Export := do
  expect .lbrace
  let names ← commaList .rbrace exportedName n
  expect .rbrace
  if ← accept (.keyword .fromKw) then advance
  let _ ← accept .semicolon
  pure (.named names)

/-! ## Items -/

variable (block : Parser (List Item))

/-- A namespace behind its first word. -/
def namespaceBody (doc : Option String) : Parser Item := do
  let name ← dottedName
  let items ← block
  pure (.decl (.ns { name, doc, items }))

/-- An ambient module with a quoted name. Without a body it is empty. -/
def ambientModule : Parser Item := do
  expect (.keyword .moduleKw)
  match ← peek with
  | .string name =>
    advance
    if ← accept .semicolon then pure (.ambientModule name [])
    else
      let items ← block
      pure (.ambientModule name items)
  | _ => fail .expectedModuleName

/-- An item behind its modifiers that starts with a reserved word and with the given kind behind
it. Nothing, if the word starts no item, or an import. -/
def keywordItem (doc : Option String) (k : Keyword) (next : Kind) : Parser (Option Item) := do
  match k with
  | .functionKw => return some (.decl (.function (← function n ty doc)))
  | .interfaceKw => return some (.decl (.interface (← interface n ty doc)))
  | .classKw => return some (.decl (.cls (← classDecl n ty doc false)))
  | .abstractKw =>
    advance
    if next = .keyword .classKw then return some (.decl (.cls (← classDecl n ty doc true)))
    else return none
  | .enumKw => return some (.decl (.enum (← enum n doc false)))
  | .constKw =>
    if next = .keyword .enumKw then
      advance
      return some (.decl (.enum (← enum n doc true)))
    else return some (.decl (.vars (← variableStatement n ty doc .const)))
  | .letKw => return some (.decl (.vars (← variableStatement n ty doc .letBound)))
  | .varKw => return some (.decl (.vars (← variableStatement n ty doc .var)))
  | .typeKw =>
    if next.isWord then return some (.decl (.typeAlias (← typeAlias n ty doc)))
    else
      advance
      return none
  | .namespaceKw =>
    advance
    return some (← namespaceBody block doc)
  | .moduleKw =>
    match next with
    | .string _ => return some (← ambientModule block)
    | _ =>
      advance
      return some (← namespaceBody block doc)
  | .importKw =>
    statement
    return none
  | _ =>
    advance
    return none

/-- An item behind its modifiers. Nothing, if none starts there; then one token is passed. -/
def plainItem (doc : Option String) (exported : Bool) : Parser (Option Item) := do
  let next ← peekAt 1
  match ← peek with
  | .keyword k => keywordItem n ty block doc k next
  | .ident "global" =>
    advance
    if next = .lbrace then return some (.ambientModule "global" (← block)) else return none
  | .symbol .lbrace =>
    if exported then return some (.exportStatement (← exportedNames n))
    else
      advance
      return none
  | _ =>
    advance
    return none

/-- An item behind the word `export`. -/
def exportedItem (doc : Option String) : Parser (Option Item) := do
  if ← accept .eq then
    let name ← dottedName
    let _ ← accept .semicolon
    pure (some (.exportStatement (.assign name)))
  else
    let k ← peek
    let next ← peekAt 1
    let afterNext ← peekAt 2
    if k = .keyword .defaultKw ∧ next.isWord ∧ (afterNext = .semicolon ∨ afterNext = .eof) then
      advance
      let name ← identifier
      let _ ← accept .semicolon
      pure (some (.exportStatement (.default name)))
    else
      let _ ← accept (.keyword .defaultKw)
      let k ← peek
      if k = .keyword .asKw ∨ k = .symbol .star then
        statement
        pure none
      else plainItem n ty block doc true

/-- An item. Nothing, if the tokens that it passes make none. -/
def item : Parser (Option Item) := do
  let doc ← peekDoc
  let exported ← fun c =>
    let r := itemModifiers c.rest
    .ok (r.1, { c with rest := r.2 })
  if exported then exportedItem n ty block doc else plainItem n ty block doc false

end

/-- Reads items in braces whose nesting is below a bound. -/
def readBlock : Nat → Parser (List Item)
  | 0 => fail .exhausted
  | n + 1 => do
    expect .lbrace
    let items ← itemsUntil .rbrace (item (n + 1) (readTy (n + 1)) (readBlock n)) (n + 1)
    expect .rbrace
    pure items

/-- Reads a file, with a bound above the number of its tokens. -/
def file (bound : Nat) : Parser File := do
  let items ← itemsUntil .eof (item bound (readTy bound) (readBlock bound)) bound
  pure { items }

end Parser

/-- Reads a declaration file from its tokens. -/
def Lexed.parse (l : Lexed) : Except ParseError File :=
  (Parser.file (l.tokens.length + 1) l.cursor).map (·.1)

/-- Reads a declaration file. -/
def parse (source : String) : Except ParseError File :=
  (lex source).parse

end Ambient
