import Ambient.Proofs.Token.Documentation
import Ambient.Proofs.Token.Names
import Ambient.Tree.TyPrinter

/-!
# Lexemes of types

`Ty.lexemes` lists the lexemes of a type in the order in which it is printed, without a layout:
where a line starts, and how deep, has no part in it. Names and other texts that are kept as
written stand for the tokens that they have on their own.
-/

namespace Ambient

/-! ## Parts -/

/-- Lists of lexemes in angle brackets, or nothing when there are none. -/
def angledLexemes : List (List Lexeme) → List Lexeme
  | [] => []
  | xs => [.sym .langle] ++ separated .comma xs ++ [.sym .rangle]

/-- Lexemes, if the condition holds. -/
def lexemesIf (c : Bool) (ls : List Lexeme) : List Lexeme :=
  if c then ls else []

/-- Lexemes in parentheses, if the condition holds. -/
def enclosed (c : Bool) (ls : List Lexeme) : List Lexeme :=
  if c then [.sym .lparen] ++ ls ++ [.sym .rparen] else ls

/-- The reserved word of a type with a name of its own. -/
def Primitive.keyword : Primitive → Keyword
  | string => .stringKw | number => .numberKw | boolean => .booleanKw | void => .voidKw
  | null => .nullKw | undefined => .undefinedKw | any => .anyKw | unknown => .unknownKw
  | never => .neverKw | object => .objectKw | symbol => .symbolKw | bigint => .bigintKw

@[simp] theorem Primitive.text_keyword (p : Primitive) : p.keyword.text = p.text := by
  cases p <;> rfl

/-- The word of an operator. Only one of them is reserved. -/
def TypeOperator.lexeme : TypeOperator → Lexeme
  | readonly => .kw .readonlyKw
  | unique => { kind := .ident "unique" }

/-- The sign of a modifier in a mapped type. -/
def MappedModifier.lexemes : MappedModifier → List Lexeme
  | add => [.sym .plus]
  | remove => [.sym .minus]
  | preserve => []

/-- The word of a modifier of a type parameter. -/
def TypeParamModifier.keyword : TypeParamModifier → Keyword
  | contravariant => .inKw
  | covariant => .outKw
  | const => .constKw

@[simp] theorem TypeParamModifier.text_keyword (m : TypeParamModifier) :
    m.keyword.text = m.text := by
  cases m <;> rfl

/-- The word for who may use a member, if it is written. -/
def Visibility.lexemes : Visibility → List Lexeme
  | everyone => []
  | subclasses => [.kw .protectedKw]
  | owner => [.kw .privateKw]

/-- The words of the modifiers of a member. -/
def MemberModifiers.lexemes (m : MemberModifiers) : List Lexeme :=
  m.visibility.lexemes ++ lexemesIf m.isStatic [.kw .staticKw] ++
    lexemesIf m.isAbstract [.kw .abstractKw]

/-- The word that begins an accessor. -/
def AccessorKind.lexeme (k : AccessorKind) : Lexeme :=
  { kind := .ident k.text }

/-! ## Types -/

mutual

/-- The lexemes of a type. -/
def Ty.lexemes : Ty → List Lexeme
  | .named name args => lexemesOf name ++ angledLexemes (lexemesTys args)
  | .primitive p => [.kw p.keyword]
  | .stringLiteral s => [{ kind := .string s }]
  | .numberLiteral text => lexemesOf text
  | .booleanLiteral b => [.kw (if b then .trueKw else .falseKw)]
  | .union ts => separated .pipe (lexemesOperands Ty.looserThanUnion ts)
  | .intersection ts =>
    separated .amp (lexemesOperands (fun t => t.looserThanUnion || t.isUnion) ts)
  | .function sig result => sig.lexemes ++ [.sym .arrow] ++ result.lexemes
  | .constructor isAbstract sig result =>
    lexemesIf isAbstract [.kw .abstractKw] ++ [.kw .newKw] ++ sig.lexemes ++ [.sym .arrow] ++
      result.lexemes
  | .object members => [.sym .lbrace] ++ (lexemesMembers members).flatten ++ [.sym .rbrace]
  | .array t => enclosed t.looserThanPostfix t.lexemes ++ [.sym .lbracket, .sym .rbracket]
  | .tuple es => [.sym .lbracket] ++ separated .comma (lexemesElements es) ++ [.sym .rbracket]
  | .typeOf value => [.kw .typeofKw] ++ lexemesOf value
  | .keyOf t => [.kw .keyofKw] ++ enclosed t.looserThanPostfix t.lexemes
  | .operator op t => [op.lexeme] ++ enclosed t.looserThanPostfix t.lexemes
  | .indexAccess object index =>
    enclosed object.looserThanPostfix object.lexemes ++ [.sym .lbracket] ++ index.lexemes ++
      [.sym .rbracket]
  | .conditional check super yes no =>
    enclosed check.looserThanUnion check.lexemes ++ [.kw .extendsKw] ++
      enclosed super.isConditional super.lexemes ++ [.sym .question] ++ yes.lexemes ++
      [.sym .colon] ++ no.lexemes
  | .mapped key constraint name value readonly optional =>
    [.sym .lbrace] ++ readonly.elim [] (fun m => m.lexemes ++ [.kw .readonlyKw]) ++
      [.sym .lbracket] ++ lexemesOf key ++ [.kw .inKw] ++ constraint.lexemes ++
      lexemesOpt (.kw .asKw) name ++ [.sym .rbracket] ++
      optional.elim [] (fun m => m.lexemes ++ [.sym .question]) ++ [.sym .colon] ++
      value.lexemes ++ [.sym .semicolon, .sym .rbrace]
  | .infer name => [.kw .inferKw] ++ lexemesOf name
  | .template text => lexemesOf text
  | .imported module qualifier args =>
    [.kw .importKw, .sym .lparen] ++ [{ kind := .string module }] ++ [.sym .rparen] ++
      qualifier.elim [] (fun q => [.sym .dot] ++ lexemesOf q) ++ angledLexemes (lexemesTys args)
  | .predicate asserts subject ty =>
    lexemesIf asserts [{ kind := .ident "asserts" }] ++ lexemesOf subject ++
      lexemesOpt (.kw .isKw) ty
  | .parenthesized t => [.sym .lparen] ++ t.lexemes ++ [.sym .rparen]
  | .this => [.kw .thisKw]

/-- The lexemes of each type of a list. -/
def lexemesTys : List Ty → List (List Lexeme)
  | [] => []
  | t :: ts => t.lexemes :: lexemesTys ts

/-- The lexemes of each type of a list, in parentheses where `loose` says so. -/
def lexemesOperands (loose : Ty → Bool) : List Ty → List (List Lexeme)
  | [] => []
  | t :: ts => enclosed (loose t) t.lexemes :: lexemesOperands loose ts

/-- A type behind the given lexeme, or nothing if there is no type. -/
def lexemesOpt (before : Lexeme) : Option Ty → List Lexeme
  | none => []
  | some t => [before] ++ t.lexemes

/-- Type parameters and parameters. -/
def Signature.lexemes : Signature → List Lexeme
  | ⟨typeParams, receiver, params⟩ =>
    angledLexemes (lexemesTypeParams typeParams) ++ [.sym .lparen] ++
      separated .comma (lexemesReceiver receiver ++ lexemesParams params) ++ [.sym .rparen]

/-- The parameter that stands for the receiver. -/
def lexemesReceiver : Option Ty → List (List Lexeme)
  | none => []
  | some t => [[.kw .thisKw, .sym .colon] ++ t.lexemes]

/-- Each type parameter of a list. -/
def lexemesTypeParams : List TypeParam → List (List Lexeme)
  | [] => []
  | p :: ps => p.lexemes :: lexemesTypeParams ps

/-- A type parameter. -/
def TypeParam.lexemes : TypeParam → List Lexeme
  | ⟨name, modifiers, constraint, default⟩ =>
    modifiers.map (fun m => .kw m.keyword) ++ lexemesOf name ++
      lexemesOpt (.kw .extendsKw) constraint ++ lexemesOpt (.sym .eq) default

/-- Each parameter of a list. -/
def lexemesParams : List Param → List (List Lexeme)
  | [] => []
  | p :: ps => p.lexemes :: lexemesParams ps

/-- A parameter. -/
def Param.lexemes : Param → List Lexeme
  | ⟨name, ty, optional, rest⟩ =>
    lexemesIf rest [.sym .ellipsis] ++ lexemesOf name ++ lexemesIf optional [.sym .question] ++
      lexemesOpt (.sym .colon) ty

/-- Each element of a tuple. -/
def lexemesElements : List TupleElement → List (List Lexeme)
  | [] => []
  | e :: es => e.lexemes :: lexemesElements es

/-- An element of a tuple. -/
def TupleElement.lexemes : TupleElement → List Lexeme
  | ⟨some name, ty, optional, rest⟩ =>
    lexemesIf rest [.sym .ellipsis] ++ (lexemesOf name ++ lexemesIf optional [.sym .question] ++
      [.sym .colon] ++ ty.lexemes)
  | ⟨none, ty, optional, rest⟩ =>
    lexemesIf rest [.sym .ellipsis] ++ (ty.lexemes ++ lexemesIf optional [.sym .question])

/-- Each member of a list. -/
def lexemesMembers : List Member → List (List Lexeme)
  | [] => []
  | m :: ms => m.lexemes :: lexemesMembers ms

/-- A member with its documentation and its terminator. -/
def Member.lexemes : Member → List Lexeme
  | ⟨doc, shape⟩ => documented (doc.map rereadDoc) shape.lexemes ++ [.sym .semicolon]

/-- A member without its documentation and without a terminator. -/
def MemberShape.lexemes : MemberShape → List Lexeme
  | .property name ty optional readonly =>
    lexemesIf readonly [.kw .readonlyKw] ++ lexemesOf name ++
      lexemesIf optional [.sym .question] ++ lexemesOpt (.sym .colon) ty
  | .method name optional sig result =>
    lexemesOf name ++ lexemesIf optional [.sym .question] ++ sig.lexemes ++
      lexemesOpt (.sym .colon) result
  | .call sig result => sig.lexemes ++ lexemesOpt (.sym .colon) result
  | .construct typeParams params result =>
    [.kw .newKw] ++ angledLexemes (lexemesTypeParams typeParams) ++ [.sym .lparen] ++
      separated .comma (lexemesParams params) ++ [.sym .rparen] ++ lexemesOpt (.sym .colon) result
  | .index sig => sig.lexemes
  | .accessor a => a.lexemes

/-- An index signature. -/
def IndexSignature.lexemes : IndexSignature → List Lexeme
  | ⟨key, keyType, valueType, readonly, isStatic⟩ =>
    lexemesIf isStatic [.kw .staticKw] ++ lexemesIf readonly [.kw .readonlyKw] ++
      [.sym .lbracket] ++ lexemesOf key ++ [.sym .colon] ++ keyType.lexemes ++
      [.sym .rbracket, .sym .colon] ++ valueType.lexemes

/-- An accessor with its modifiers. -/
def Accessor.lexemes : Accessor → List Lexeme
  | ⟨name, kind, params, result, modifiers⟩ =>
    modifiers.lexemes ++ [kind.lexeme] ++ lexemesOf name ++ [.sym .lparen] ++
      separated .comma (lexemesParams params) ++ [.sym .rparen] ++ lexemesOpt (.sym .colon) result

end

theorem lexemesTys_eq_map (ts : List Ty) : lexemesTys ts = ts.map Ty.lexemes := by
  induction ts with
  | nil => rfl
  | cons t ts ih => rw [lexemesTys, ih, List.map_cons]

theorem lexemesTypeParams_eq_map (ps : List TypeParam) :
    lexemesTypeParams ps = ps.map TypeParam.lexemes := by
  induction ps with
  | nil => rfl
  | cons p ps ih => rw [lexemesTypeParams, ih, List.map_cons]

theorem lexemesParams_eq_map (ps : List Param) : lexemesParams ps = ps.map Param.lexemes := by
  induction ps with
  | nil => rfl
  | cons p ps ih => rw [lexemesParams, ih, List.map_cons]

theorem lexemesElements_eq_map (es : List TupleElement) :
    lexemesElements es = es.map TupleElement.lexemes := by
  induction es with
  | nil => rfl
  | cons e es ih => rw [lexemesElements, ih, List.map_cons]

theorem lexemesMembers_eq_map (ms : List Member) :
    lexemesMembers ms = ms.map Member.lexemes := by
  induction ms with
  | nil => rfl
  | cons m ms ih => rw [lexemesMembers, ih, List.map_cons]

theorem lexemesOperands_eq_map (loose : Ty → Bool) (ts : List Ty) :
    lexemesOperands loose ts = ts.map fun t => enclosed (loose t) t.lexemes := by
  induction ts with
  | nil => rfl
  | cons t ts ih => rw [lexemesOperands, ih, List.map_cons]

end Ambient
