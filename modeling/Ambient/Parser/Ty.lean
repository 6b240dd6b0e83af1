import Ambient.Parser.Name
import Ambient.Tree.TyPrinter

/-!
# Reading types

The grammar of types is written over a reader for the types inside a type (`TyReader`), and
`readTy` ties the knot: a bound counts how deep types may nest. A type inside a type always starts
behind at least one more token, so that a bound above the number of tokens left is never reached.

A reader takes the strength with which a type may bind (`TyForm`), and whether it stands in the
`extends` operand of a conditional type. There the word `extends` belongs to the conditional type
around it, up to the next bracket.
-/

namespace Ambient

/-- How much of a type is read. -/
inductive TyForm where
  /-- A whole type. -/
  | full
  /-- An operand of a prefix operator: no union, intersection or conditional type. -/
  | operand
  deriving DecidableEq, Repr

/-- A reader of types: the form, and whether the type stands in the `extends` operand of a
conditional type. -/
abbrev TyReader := TyForm → Bool → Parser Ty

/-- The type with a name of its own that a reserved word stands for. -/
def Primitive.ofKeyword? : Keyword → Option Primitive
  | .stringKw => some string
  | .numberKw => some number
  | .booleanKw => some boolean
  | .voidKw => some void
  | .nullKw => some null
  | .undefinedKw => some undefined
  | .anyKw => some any
  | .unknownKw => some unknown
  | .neverKw => some never
  | .objectKw => some object
  | .symbolKw => some symbol
  | .bigintKw => some bigint
  | _ => none

/-- The modifier of a type parameter that a reserved word stands for. -/
def TypeParamModifier.ofKind? : Kind → Option TypeParamModifier
  | .keyword .inKw => some contravariant
  | .keyword .outKw => some covariant
  | .keyword .constKw => some const
  | _ => none

/-- Modifiers of a type parameter, each with a word behind it, and what is left behind them. -/
def typeParamModifiers : List Token → List TypeParamModifier × List Token
  | t :: u :: ts =>
    match TypeParamModifier.ofKind? t.kind with
    | some m =>
      if u.kind.isWord then
        let r := typeParamModifiers (u :: ts)
        (m :: r.1, r.2)
      else ([], t :: u :: ts)
    | none => ([], t :: u :: ts)
  | ts => ([], ts)

/-- Whether the word is a modifier of a member that a parameter declares on the side. -/
def Kind.isParamModifier : Kind → Bool
  | .keyword .publicKw | .keyword .privateKw | .keyword .protectedKw | .keyword .readonlyKw =>
    true
  | _ => false

/-- What is left behind the modifiers of a parameter, each with a word behind it. -/
def skipParamModifiers : List Token → List Token
  | t :: u :: ts =>
    if t.kind.isParamModifier && u.kind.isWord then skipParamModifiers (u :: ts)
    else t :: u :: ts
  | ts => ts

/-- Whether a word with this token behind it is a modifier, and not the name of a property. -/
def Kind.followsModifier : Kind → Bool
  | .symbol .colon | .symbol .question | .symbol .lparen | .symbol .langle | .symbol .semicolon
  | .symbol .comma | .symbol .rbrace | .symbol .bang => false
  | _ => true

namespace Parser

/-- Whether a parameter list or type parameters stand next. -/
def atSignature : Parser Bool := do
  let k ← peek
  pure (k == .lparen || k == .langle)

/-- The end of a member: a semicolon or a comma, if one stands there. -/
def endMember : Parser Unit := do
  if ← accept .semicolon then pure () else discard (accept .comma)

/-- The word before `is` or behind `asserts`. -/
def predicateSubject : Parser String := do
  if ← accept (.keyword .thisKw) then pure "this" else identifier

/-- Whether an index signature stands next. -/
def atIndexSignature : Parser Bool := do
  let k₀ ← peek
  let k₁ ← peekAt 1
  let k₂ ← peekAt 2
  pure (k₀ == .lbracket && k₁.isWord && k₂ == .colon)

/-- Whether `get` or `set` stands next and is not the name of a member. -/
def atAccessor : Parser Bool := do
  let k₀ ← peek
  let k₁ ← peekAt 1
  pure ((k₀ == .ident "get" || k₀ == .ident "set") && k₁.followsModifier)

/-- Whether an opening brace starts a mapped type. -/
def atMapped : Parser Bool := fun c =>
  let i := if c.kindAt 1 = .symbol .plus ∨ c.kindAt 1 = .symbol .minus then 2 else 1
  let i := if c.kindAt i = .keyword .readonlyKw then i + 1 else i
  .ok (c.kindAt i == .lbracket && (c.kindAt (i + 1)).isWord &&
    c.kindAt (i + 2) == .keyword .inKw, c)

/-- Whether an opening parenthesis starts the parameters of a function type. -/
def atFunction : Parser Bool := fun c =>
  let answer : Bool :=
    match c.kindAt 1 with
    | .symbol .lbrace | .symbol .lbracket => arrowFollows 0 c.rest.tail
    | .symbol .rparen | .symbol .ellipsis => true
    | .keyword .thisKw => c.kindAt 2 == .colon
    | k =>
      k.isWord &&
        match c.kindAt 2 with
        | .symbol .colon | .symbol .question | .symbol .comma => true
        | .symbol .rparen => c.kindAt 3 == .arrow
        | _ => false
  .ok (answer, c)

/-- Whether a named element of a tuple stands next. -/
def atNamedElement : Parser Bool := fun c =>
  .ok ((c.kindAt 0).isWord &&
    (c.kindAt 1 == .colon || (c.kindAt 1 == .question && c.kindAt 2 == .colon)), c)

section

variable (n : Nat) (ty : TyReader)

/-! ## Signatures -/

/-- A type parameter. -/
def typeParam (inSuper : Bool) : Parser TypeParam := do
  let modifiers ← fun c =>
    let r := typeParamModifiers c.rest
    .ok (r.1, { c with rest := r.2 })
  let name ← identifier
  let constraint ← after? (.keyword .extendsKw) (ty .full inSuper)
  let default ← after? .eq (ty .full inSuper)
  pure { name, modifiers, constraint, default }

/-- Type parameters in angle brackets, or none. -/
def typeParams (inSuper : Bool) : Parser (List TypeParam) := do
  if ← accept .langle then
    let ps ← commaList .rangle (typeParam ty inSuper) n
    expect .rangle
    pure ps
  else pure []

/-- A parameter other than the receiver. Its initializer is passed over. -/
def plainParam (inSuper : Bool) : Parser Param := do
  skip skipParamModifiers
  let rest ← accept (.symbol .ellipsis)
  let k ← peek
  let name ← if k = .lbrace ∨ k = .lbracket then pattern else propertyName
  let optional ← accept .question
  let type ← after? .colon (ty .full inSuper)
  let _ ← after? .eq expression
  pure { name, ty := type, optional, rest }

/-- A parameter, or the type of the receiver. -/
def param (inSuper : Bool) : Parser (Ty ⊕ Param) := do
  let k₀ ← peek
  let k₁ ← peekAt 1
  if k₀ = .keyword .thisKw ∧ k₁ = .colon then
    advance
    advance
    Sum.inl <$> ty .full inSuper
  else Sum.inr <$> plainParam ty inSuper

/-- Parameters in parentheses, and the type of the receiver if one of them gives it. -/
def params (inSuper : Bool) : Parser (Option Ty × List Param) := do
  expect .lparen
  let ps ← commaList .rparen (param ty inSuper) n
  expect .rparen
  pure ((ps.filterMap Sum.getLeft?).getLast?, ps.filterMap Sum.getRight?)

/-- Type parameters and parameters. -/
def signature (inSuper : Bool) : Parser Signature := do
  let typeParams ← typeParams n ty inSuper
  let (receiver, params) ← params n ty inSuper
  pure { typeParams, receiver, params }

/-- The type of a result, which may tell about an argument or the receiver. -/
def result (inSuper : Bool) : Parser Ty := do
  let k₀ ← peek
  let k₁ ← peekAt 1
  if k₀ = .ident "asserts" ∧ (k₁.isIdent ∨ k₁ = .keyword .thisKw) then
    advance
    let subject ← predicateSubject
    let type ← after? (.keyword .isKw) (ty .full inSuper)
    pure (.predicate true subject type)
  else if (k₀.isIdent ∨ k₀ = .keyword .thisKw) ∧ k₁ = .keyword .isKw then
    let subject ← predicateSubject
    expect (.keyword .isKw)
    let type ← ty .full inSuper
    pure (.predicate false subject (some type))
  else ty .full inSuper

/-- A colon and the type of a result, or nothing. -/
def result? (inSuper : Bool) : Parser (Option Ty) :=
  after? .colon (result ty inSuper)

/-! ## Members of interfaces and object types -/

/-- An index signature with its terminator. -/
def indexSignature (readonly isStatic : Bool) : Parser IndexSignature := do
  expect .lbracket
  let key ← propertyName
  expect .colon
  let keyType ← ty .full false
  expect .rbracket
  expect .colon
  let valueType ← ty .full false
  endMember
  pure { key, keyType, valueType, readonly, isStatic }

/-- An accessor with its terminator, from its first word on. -/
def accessor (modifiers : MemberModifiers) : Parser Accessor := do
  let k ← peek
  advance
  let name ← propertyName
  let (_, params) ← params n ty false
  let result ← result? ty false
  endMember
  pure { name, kind := if k = .ident "get" then .get else .set, params, result, modifiers }

/-- A call signature with its terminator. -/
def callSignature : Parser MemberShape := do
  let sig ← signature n ty false
  let result ← result? ty false
  endMember
  pure (.call sig result)

/-- A construct signature with its terminator. -/
def constructSignature : Parser MemberShape := do
  advance
  let typeParams ← typeParams n ty false
  let (_, params) ← params n ty false
  let result ← result? ty false
  endMember
  pure (.construct typeParams params result)

/-- A property or method with its terminator, or nothing where no name stands. -/
def namedMember (readonly : Bool) : Parser (Option MemberShape) := do
  match ← memberName? with
  | none => pure none
  | some name =>
    let optional ← accept .question
    if ← atSignature then
      let sig ← signature n ty false
      let result ← result? ty false
      endMember
      pure (some (.method name optional sig result))
    else
      let type ← after? .colon (ty .full false)
      endMember
      pure (some (.property name type optional readonly))

/-- The word `readonly`, unless it names a property. -/
def readonlyModifier : Parser Bool := do
  let k₀ ← peek
  let k₁ ← peekAt 1
  if k₀ = .keyword .readonlyKw ∧ k₁.followsModifier then
    advance
    pure true
  else pure false

/-- A member behind its documentation. -/
def memberShape : Parser (Option MemberShape) := do
  let readonly ← readonlyModifier
  if ← atIndexSignature then
    let sig ← indexSignature ty readonly false
    pure (some (.index sig))
  else if ← atSignature then some <$> callSignature n ty
  else
    let k₀ ← peek
    let k₁ ← peekAt 1
    if k₀ = .keyword .newKw ∧ (k₁ = .lparen ∨ k₁ = .langle) then
      some <$> constructSignature n ty
    else if ← atAccessor then
      let a ← accessor n ty {}
      pure (some (.accessor a))
    else namedMember n ty readonly

/-- A member with its terminator. A terminator on its own is nothing. -/
def member : Parser (Option Member) := do
  let doc ← peekDoc
  let k ← peek
  if k = .semicolon ∨ k = .comma then
    advance
    pure none
  else
    let shape ← memberShape n ty
    pure (shape.map fun shape => { doc, shape })

/-- Members in braces. -/
def members : Parser (List Member) := do
  expect .lbrace
  let ms ← itemsUntil .rbrace (member n ty) n
  expect .rbrace
  pure ms

/-! ## Primary types -/

/-- Type arguments in angle brackets, or none. -/
def typeArgs : Parser (List Ty) := do
  if ← accept .langle then
    let args ← commaList .rangle (ty .full false) n
    expect .rangle
    pure args
  else pure []

/-- A type that another module exports. -/
def imported : Parser Ty := do
  expect (.keyword .importKw)
  expect .lparen
  match ← peek with
  | .string module =>
    advance
    expect .rparen
    let qualifier ← after? (.symbol .dot) dottedName
    let args ← typeArgs n ty
    pure (.imported module qualifier args)
  | k => fail (.expectedModuleSpecifier k)

/-- Parameters, an arrow and the type of the result. -/
def arrowType (inSuper : Bool) : Parser (Signature × Ty) := do
  let sig ← signature n ty inSuper
  expect .arrow
  let result ← result ty inSuper
  pure (sig, result)

/-- A function type or a type in parentheses. -/
def functionOrParens (inSuper : Bool) : Parser Ty := do
  if ← atFunction then
    let (sig, result) ← arrowType n ty inSuper
    pure (.function sig result)
  else
    expect .lparen
    let inner ← ty .full false
    expect .rparen
    pure (.parenthesized inner)

/-- A modifier of a mapped type: the target, possibly with a sign. -/
def mappedModifier (target : Kind) : Parser (Option MappedModifier) := do
  if ← accept (.symbol .plus) then
    expect target
    pure (some .add)
  else if ← accept (.symbol .minus) then
    expect target
    pure (some .remove)
  else if ← accept target then pure (some .preserve)
  else pure none

/-- A mapped type. -/
def mapped : Parser Ty := do
  expect .lbrace
  let readonly ← mappedModifier (.keyword .readonlyKw)
  expect .lbracket
  let key ← propertyName
  expect (.keyword .inKw)
  let constraint ← ty .full false
  let name ← after? (.keyword .asKw) (ty .full false)
  expect .rbracket
  let optional ← mappedModifier .question
  expect .colon
  let value ← ty .full false
  let _ ← accept .semicolon
  expect .rbrace
  pure (.mapped key constraint name value readonly optional)

/-- A mapped type or an object type. -/
def mappedOrObject : Parser Ty := do
  if ← atMapped then mapped ty
  else .object <$> members n ty

/-- An element of a tuple type. -/
def tupleElement : Parser TupleElement := do
  let rest ← accept (.symbol .ellipsis)
  if ← atNamedElement then
    let name ← propertyName
    let optional ← accept .question
    expect .colon
    let type ← ty .full false
    pure { name := some name, ty := type, optional, rest }
  else
    let type ← ty .full false
    let optional ← accept .question
    pure { name := none, ty := type, optional, rest }

/-- A tuple type. -/
def tuple : Parser Ty := do
  expect .lbracket
  let es ← commaList .rbracket (tupleElement ty) n
  expect .rbracket
  pure (.tuple es)

/-- The type of a value: a dotted name, or an import, which is kept as text. -/
def typeQuery : Parser Ty := do
  advance
  let k ← peek
  if k = .keyword .importKw then
    let type ← imported n ty
    pure (.typeOf (type.print 0))
  else
    let name ← dottedName
    pure (.typeOf name)

/-- A name, possibly dotted, with type arguments. -/
def namedType : Parser Ty := do
  let name ← dottedName
  let args ← typeArgs n ty
  pure (.named name args)

/-- A type that starts with a reserved word. -/
def keywordType (inSuper : Bool) (k : Keyword) : Parser Ty := do
  match k with
  | .trueKw => advance; pure (.booleanLiteral true)
  | .falseKw => advance; pure (.booleanLiteral false)
  | .thisKw => advance; pure .this
  | .typeofKw => typeQuery n ty
  | .keyofKw => advance; .keyOf <$> ty .operand inSuper
  | .readonlyKw => advance; .operator .readonly <$> ty .operand inSuper
  | .inferKw => advance; .infer <$> identifier
  | .importKw => imported n ty
  | .newKw =>
    advance
    let (sig, result) ← arrowType n ty inSuper
    pure (.constructor false sig result)
  | .abstractKw =>
    let next ← peekAt 1
    if next = .keyword .newKw then
      advance
      advance
      let (sig, result) ← arrowType n ty inSuper
      pure (.constructor true sig result)
    else fail (.unexpectedInType (.keyword k))
  | k =>
    match Primitive.ofKeyword? k with
    | some p => advance; pure (.primitive p)
    | none => fail (.unexpectedInType (.keyword k))

/-- A negative number. -/
def negativeNumber : Parser Ty := do
  advance
  match ← peek with
  | .number text => advance; pure (.numberLiteral ("-" ++ text))
  | k => fail (.expectedNumber k)

/-- A type that starts with a symbol. -/
def symbolType (inSuper : Bool) (s : Symbol) : Parser Ty := do
  match s with
  | .minus => negativeNumber
  | .lparen => functionOrParens n ty inSuper
  | .lbrace => mappedOrObject n ty
  | .lbracket => tuple n ty
  | .langle =>
    let (sig, result) ← arrowType n ty inSuper
    pure (.function sig result)
  | s => fail (.unexpectedInType (.symbol s))

/-- A type without brackets behind it. -/
def primary (inSuper : Bool) : Parser Ty := do
  match ← peek with
  | .ident name =>
    let next ← peekAt 1
    if name = "unique" ∧ next = .keyword .symbolKw then
      advance
      .operator .unique <$> ty .operand inSuper
    else namedType n ty
  | .string s => advance; pure (.stringLiteral s)
  | .number text => advance; pure (.numberLiteral text)
  | .template text => advance; pure (.template text)
  | .keyword k => keywordType n ty inSuper k
  | .symbol s => symbolType n ty inSuper s
  | k => fail (.unexpectedInType k)

/-! ## Operators -/

/-- The brackets behind a type. -/
def brackets : Nat → Ty → Parser Ty
  | 0, _ => fail .exhausted
  | k + 1, type => do
    if ← accept .lbracket then
      if ← accept .rbracket then brackets k (.array type)
      else
        let index ← ty .full false
        expect .rbracket
        brackets k (.indexAccess type index)
    else pure type

/-- A type with the brackets behind it. -/
def postfixed (inSuper : Bool) : Parser Ty := do
  let type ← primary n ty inSuper
  brackets ty n type

/-- One type as itself, several under an operator. -/
def combined (operator : List Ty → Ty) : List Ty → Ty
  | [t] => t
  | ts => operator ts

/-- A type, or several with `&` between them. -/
def intersected (inSuper : Bool) : Parser Ty := do
  let _ ← accept (.symbol .amp)
  let ts ← sepBy1 (.symbol .amp) (postfixed n ty inSuper) n
  pure (combined .intersection ts)

/-- A type, or several with `|` between them. -/
def united (inSuper : Bool) : Parser Ty := do
  let _ ← accept (.symbol .pipe)
  let ts ← sepBy1 (.symbol .pipe) (intersected n ty inSuper) n
  pure (combined .union ts)

/-- The rest of a conditional type behind its first `extends`. -/
def conditional (check : Ty) : Parser Ty := do
  let super ← united n ty true
  expect .question
  let yes ← ty .full false
  expect .colon
  let no ← ty .full false
  pure (.conditional check super yes no)

/-- A whole type. -/
def full (inSuper : Bool) : Parser Ty := do
  let type ← united n ty inSuper
  if inSuper then pure type
  else if ← accept (.keyword .extendsKw) then conditional n ty type
  else pure type

end

/-- Reads a type whose nesting is below a bound. -/
def readTy : Nat → TyReader
  | 0, _, _ => fail .exhausted
  | n + 1, .full, inSuper => full (n + 1) (readTy n) inSuper
  | n + 1, .operand, inSuper => postfixed (n + 1) (readTy n) inSuper

end Parser

end Ambient
