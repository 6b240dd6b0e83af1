import Ambient.Tree.Ty

/-!
# Declarations

The declarations of a declaration file. Seven kinds of declaration can be copied from one place to
another (`Decl`, `DeclKind`); a file or a body can also hold ambient modules and export statements
(`Item`).
-/

namespace Ambient

/-- What a member of a class is. -/
inductive ClassMemberShape where
  | property (name : String) (ty : Option Ty) (optional readonly : Bool)
      (modifiers : MemberModifiers)
  | method (name : String) (optional : Bool) (sig : Signature) (result : Option Ty)
      (modifiers : MemberModifiers)
  | constructor (visibility : Visibility) (params : List Param)
  | index (sig : IndexSignature)
  | accessor (a : Accessor)

/-- A member of a class. -/
structure ClassMember where
  doc : Option String
  shape : ClassMemberShape

/-- A function. -/
structure Function where
  name : String
  doc : Option String
  sig : Signature
  result : Option Ty

/-- An interface. -/
structure Interface where
  name : String
  doc : Option String
  typeParams : List TypeParam
  supers : List Ty
  members : List Member

/-- A type alias. -/
structure TypeAlias where
  name : String
  doc : Option String
  typeParams : List TypeParam
  ty : Ty

/-- A class. -/
structure Class where
  name : String
  doc : Option String
  isAbstract : Bool
  typeParams : List TypeParam
  super : Option Ty
  interfaces : List Ty
  members : List ClassMember

/-- A member of an enumeration. The initializer is kept as written. -/
structure EnumMember where
  name : String
  doc : Option String
  initializer : Option String
  deriving DecidableEq, Repr

/-- An enumeration. -/
structure Enum where
  name : String
  doc : Option String
  isConst : Bool
  members : List EnumMember
  deriving DecidableEq, Repr

/-- The word that declares a variable. -/
inductive VariableKind where
  | const | letBound | var
  deriving DecidableEq, Repr

/-- How the kind of variable is written. -/
def VariableKind.text : VariableKind → String
  | const => "const"
  | letBound => "let"
  | var => "var"

/-- One variable of a statement. The initializer is kept as written. -/
structure Declarator where
  name : String
  ty : Option Ty
  initializer : Option String

/-- A statement that declares variables. -/
structure Variables where
  doc : Option String
  kind : VariableKind
  declarators : List Declarator

/-- A statement that exports something under a name. -/
inductive Export where
  /-- The whole module is the named value. -/
  | assign (name : String)
  | default (name : String)
  /-- Names, each with the name that it has outside. -/
  | named (names : List (String × Option String))
  deriving DecidableEq, Repr

mutual

/-- A namespace. -/
structure Namespace where
  name : String
  doc : Option String
  items : List Item

/-- A declaration of one of the kinds that can be copied between containers. -/
inductive Decl where
  | ns (n : Namespace)
  | interface (i : Interface)
  | enum (e : Enum)
  | typeAlias (t : TypeAlias)
  | cls (c : Class)
  | function (f : Function)
  | vars (v : Variables)

/-- What a file or a body holds. -/
inductive Item where
  | decl (d : Decl)
  /-- An ambient module. The name `global` stands for the global scope. -/
  | ambientModule (name : String) (items : List Item)
  | exportStatement (e : Export)

end

instance : Inhabited Item := ⟨.exportStatement (.named [])⟩

/-- A parsed declaration file. -/
structure File where
  items : List Item

/-- The kinds of declaration that can be copied between containers. -/
inductive DeclKind where
  | ns | interface | enum | typeAlias | cls | function | vars
  deriving DecidableEq, Repr

namespace DeclKind

/-- The kinds in the order in which a body is copied. -/
def all : List DeclKind :=
  [.ns, .interface, .enum, .typeAlias, .cls, .function, .vars]

/-- The kind in messages. -/
def label : DeclKind → String
  | .ns => "namespace"
  | .interface => "interface"
  | .enum => "enum"
  | .typeAlias => "type alias"
  | .cls => "class"
  | .function => "function"
  | .vars => "variable statement"

/-- The place of the kind in the order of copying. -/
def rank : DeclKind → Nat
  | .ns => 0
  | .interface => 1
  | .enum => 2
  | .typeAlias => 3
  | .cls => 4
  | .function => 5
  | .vars => 6

theorem mem_all (k : DeclKind) : k ∈ all := by
  cases k <;> decide

end DeclKind

namespace Decl

/-- The kind of a declaration. -/
def kind : Decl → DeclKind
  | .ns _ => .ns
  | .interface _ => .interface
  | .enum _ => .enum
  | .typeAlias _ => .typeAlias
  | .cls _ => .cls
  | .function _ => .function
  | .vars _ => .vars

/-- The declared name. A statement that declares variables has the name of the first one. -/
def name? : Decl → Option String
  | .ns n => some n.name
  | .interface i => some i.name
  | .enum e => some e.name
  | .typeAlias t => some t.name
  | .cls c => some c.name
  | .function f => some f.name
  | .vars v => v.declarators.head?.map (·.name)

/-- The declared name, empty for a statement without variables. -/
def name (d : Decl) : String :=
  d.name?.getD ""

end Decl

namespace Item

/-- The declaration that the item is, if it is one. -/
def decl? : Item → Option Decl
  | .decl d => some d
  | _ => none

/-- The kind of a declaration; modules and exports have none. -/
def kind? (i : Item) : Option DeclKind :=
  i.decl?.map Decl.kind

/-- The name of a declaration or module. -/
def name? : Item → Option String
  | .decl d => d.name?
  | .ambientModule name _ => some name
  | .exportStatement _ => none

end Item

/-- The declarations among some items. -/
def declsOf (items : List Item) : List Decl :=
  items.filterMap Item.decl?

end Ambient
