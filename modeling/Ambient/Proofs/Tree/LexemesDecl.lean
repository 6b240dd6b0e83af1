import Ambient.Proofs.Tree.Lexemes
import Ambient.Tree.DeclPrinter

/-!
# Lexemes of declarations

`Item.lexemes` lists the lexemes of an item at its place. A declaration has those of its own from
its first word on (`Decl.lexemes`); the words `export` and `declare` come before them, and the
documentation belongs to the first of all.
-/

namespace Ambient

/-! ## Parts -/

/-- The words before a declaration. -/
def Place.lexemes (p : Place) (runtime : Bool) : List Lexeme :=
  lexemesIf p.exported [.kw .exportKw] ++ lexemesIf (runtime && !p.ambient) [.kw .declareKw]

/-- Lists of lexemes with commas between them behind a lexeme, or nothing when there are none. -/
def lexemesAfter (word : Lexeme) : List (List Lexeme) → List Lexeme
  | [] => []
  | xs => [word] ++ separated .comma xs

/-- An initializer that may be missing. -/
def initializerLexemes (e : Option String) : List Lexeme :=
  e.elim [] fun e => [.sym .eq] ++ lexemesOf e

/-- A member of a class without its documentation and without a terminator. -/
def ClassMemberShape.lexemes : ClassMemberShape → List Lexeme
  | .property name ty optional readonly modifiers =>
    modifiers.lexemes ++ lexemesIf readonly [.kw .readonlyKw] ++ lexemesOf name ++
      lexemesIf optional [.sym .question] ++ lexemesOpt (.sym .colon) ty
  | .method name optional sig result modifiers =>
    modifiers.lexemes ++ lexemesOf name ++ lexemesIf optional [.sym .question] ++ sig.lexemes ++
      lexemesOpt (.sym .colon) result
  | .constructor visibility params =>
    visibility.lexemes ++ [{ kind := .ident "constructor" }, .sym .lparen] ++
      separated .comma (lexemesParams params) ++ [.sym .rparen]
  | .index sig => sig.lexemes
  | .accessor a => a.lexemes

/-- A member of a class with its documentation and its terminator. -/
def ClassMember.lexemes (m : ClassMember) : List Lexeme :=
  documented (m.doc.map rereadDoc) m.shape.lexemes ++ [.sym .semicolon]

/-- A member of an enumeration. -/
def EnumMember.lexemes (m : EnumMember) : List Lexeme :=
  documented (m.doc.map rereadDoc) (lexemesOf m.name) ++ initializerLexemes m.initializer

/-- One variable of a statement. -/
def Declarator.lexemes (d : Declarator) : List Lexeme :=
  lexemesOf d.name ++ lexemesOpt (.sym .colon) d.ty ++ initializerLexemes d.initializer

/-- The word that declares a variable. -/
def VariableKind.keyword : VariableKind → Keyword
  | const => .constKw
  | letBound => .letKw
  | var => .varKw

/-! ## Declarations from their first word on -/

/-- A function. -/
def Function.lexemes (f : Function) : List Lexeme :=
  [.kw .functionKw] ++ lexemesOf f.name ++ f.sig.lexemes ++ lexemesOpt (.sym .colon) f.result ++
    [.sym .semicolon]

/-- An interface. -/
def Interface.lexemes (i : Interface) : List Lexeme :=
  [.kw .interfaceKw] ++ lexemesOf i.name ++ angledLexemes (lexemesTypeParams i.typeParams) ++
    lexemesAfter (.kw .extendsKw) (lexemesTys i.supers) ++ [.sym .lbrace] ++
    (lexemesMembers i.members).flatten ++ [.sym .rbrace]

/-- A type alias. -/
def TypeAlias.lexemes (t : TypeAlias) : List Lexeme :=
  [.kw .typeKw] ++ lexemesOf t.name ++ angledLexemes (lexemesTypeParams t.typeParams) ++
    [.sym .eq] ++ t.ty.lexemes ++ [.sym .semicolon]

/-- A class. -/
def Class.lexemes (c : Class) : List Lexeme :=
  lexemesIf c.isAbstract [.kw .abstractKw] ++ [.kw .classKw] ++ lexemesOf c.name ++
    angledLexemes (lexemesTypeParams c.typeParams) ++ lexemesOpt (.kw .extendsKw) c.super ++
    lexemesAfter (.kw .implementsKw) (lexemesTys c.interfaces) ++ [.sym .lbrace] ++
    c.members.flatMap ClassMember.lexemes ++ [.sym .rbrace]

/-- An enumeration. -/
def Enum.lexemes (e : Enum) : List Lexeme :=
  lexemesIf e.isConst [.kw .constKw] ++ [.kw .enumKw] ++ lexemesOf e.name ++ [.sym .lbrace] ++
    separated .comma (e.members.map EnumMember.lexemes) ++ [.sym .rbrace]

/-- A statement that declares variables. -/
def Variables.lexemes (v : Variables) : List Lexeme :=
  [.kw v.kind.keyword] ++ separated .comma (v.declarators.map Declarator.lexemes) ++
    [.sym .semicolon]

/-- A name in an export list. -/
def exportedNameLexemes (n : String × Option String) : List Lexeme :=
  lexemesOf n.1 ++ n.2.elim [] fun o => [.kw .asKw] ++ lexemesOf o

/-- An export statement, the word `export` included. -/
def Export.lexemes : Export → List Lexeme
  | .assign name => [.kw .exportKw, .sym .eq] ++ lexemesOf name ++ [.sym .semicolon]
  | .default name => [.kw .exportKw, .kw .defaultKw] ++ lexemesOf name ++ [.sym .semicolon]
  | .named names =>
    [.kw .exportKw, .sym .lbrace] ++ separated .comma (names.map exportedNameLexemes) ++
      [.sym .rbrace, .sym .semicolon]

/-- The words that open the body of an ambient module, without the brace. -/
def moduleLexemes (name : String) : List Lexeme :=
  if name = "global" then [{ kind := .ident "global" }]
  else [.kw .moduleKw] ++ [{ kind := .string name }]

/-- The documentation of a declaration. -/
def Decl.doc : Decl → Option String
  | .ns n => n.doc
  | .interface i => i.doc
  | .enum e => e.doc
  | .typeAlias t => t.doc
  | .cls c => c.doc
  | .function f => f.doc
  | .vars v => v.doc

/-- Whether a declaration is of something that exists when a program runs. -/
def Decl.isRuntime : Decl → Bool
  | .interface _ | .typeAlias _ => false
  | _ => true

mutual

/-- A namespace. -/
def Namespace.lexemes : Namespace → List Lexeme
  | ⟨name, _, items⟩ =>
    [.kw .namespaceKw] ++ lexemesOf name ++ [.sym .lbrace] ++ (lexemesBody items).flatten ++
      [.sym .rbrace]

/-- A declaration. -/
def Decl.lexemes : Decl → List Lexeme
  | .ns n => n.lexemes
  | .interface i => i.lexemes
  | .enum e => e.lexemes
  | .typeAlias t => t.lexemes
  | .cls c => c.lexemes
  | .function f => f.lexemes
  | .vars v => v.lexemes

/-- An item with its documentation and the words before it. -/
def Item.lexemes (p : Place) : Item → List Lexeme
  | .decl d => documented (d.doc.map rereadDoc) (p.lexemes d.isRuntime ++ d.lexemes)
  | .ambientModule name items =>
    p.lexemes true ++ (moduleLexemes name ++ [.sym .lbrace] ++ (lexemesBody items).flatten ++
      [.sym .rbrace])
  | .exportStatement e => e.lexemes

/-- Each item of a body. -/
def lexemesBody : List Item → List (List Lexeme)
  | [] => []
  | i :: is => i.lexemes .body :: lexemesBody is

end

theorem lexemesBody_eq_map (is : List Item) : lexemesBody is = is.map (Item.lexemes .body) := by
  induction is with
  | nil => rfl
  | cons i is ih => rw [lexemesBody, ih, List.map_cons]

end Ambient
