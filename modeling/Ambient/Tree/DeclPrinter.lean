import Ambient.Tree.Decl
import Ambient.Tree.TyPrinter

/-!
# Printing declarations

`Item.print` writes a declaration, module or export statement on lines of its own, and
`File.print` writes a file. Where an item stands decides which words come before it
(`Place`).
-/

namespace Ambient

open Text (quote)

/-- Where a declaration stands. -/
structure Place where
  /-- The declaration is exported there. -/
  exported : Bool := false
  /-- Everything there is ambient, so that it need not be said. -/
  ambient : Bool := false
  deriving DecidableEq, Repr

namespace Place

/-- The top level of a declaration file. -/
def file : Place := {}

/-- The body of a namespace or module. -/
def body : Place := ⟨true, true⟩

/-- The words before a declaration. Only declarations of something that exists when a program runs
are marked as ambient. -/
def words (p : Place) (runtime : Bool) : String :=
  when p.exported "export " ++ when (runtime && !p.ambient) "declare "

end Place

/-! ## Parts of declarations -/

/-- A member of a class without its documentation and without a terminator. -/
def ClassMemberShape.print (level : Nat) : ClassMemberShape → String
  | .property name ty optional readonly modifiers =>
    modifiers.print ++ when readonly "readonly " ++ name ++ when optional "?" ++
      printOpt level ": " ty
  | .method name optional sig result modifiers =>
    modifiers.print ++ name ++ when optional "?" ++ sig.print ++ printOpt 0 ": " result
  | .constructor visibility params =>
    visibility.print ++ "constructor(" ++ String.intercalate ", " (printParams params) ++ ")"
  | .index sig => sig.print
  | .accessor a => a.print

/-- A member of a class with its documentation. -/
def ClassMember.print (level : Nat) (m : ClassMember) : String :=
  printDoc? level m.doc ++ indent level ++ m.shape.print level ++ ";\n"

/-- The members of an enumeration, separated by commas. -/
def printEnumMembers (level : Nat) : List EnumMember → List String
  | [] => []
  | m :: ms =>
    (printDoc? level m.doc ++ indent level ++ m.name ++ m.initializer.elim "" (" = " ++ ·) ++
      when (!ms.isEmpty) "," ++ "\n") :: printEnumMembers level ms

/-- One variable of a statement. -/
def Declarator.print (level : Nat) (d : Declarator) : String :=
  d.name ++ printOpt level ": " d.ty ++ d.initializer.elim "" (" = " ++ ·)

/-- A list behind a word, or nothing when it is empty. -/
def listAfter (word : String) : List String → String
  | [] => ""
  | ss => word ++ String.intercalate ", " ss

/-! ## Declarations -/

/-- A function on a line of its own. -/
def Function.print (p : Place) (level : Nat) (f : Function) : String :=
  printDoc? level f.doc ++ indent level ++ p.words true ++ "function " ++ f.name ++
    f.sig.print ++ printOpt 0 ": " f.result ++ ";\n"

/-- An interface, with a line for each member. -/
def Interface.print (p : Place) (level : Nat) (i : Interface) : String :=
  printDoc? level i.doc ++ indent level ++ p.words false ++ "interface " ++ i.name ++
    angled (printTypeParams i.typeParams) ++ listAfter " extends " (printTys 0 i.supers) ++
    " \x7b\n" ++ String.join (printMemberLines (level + 1) i.members) ++ indent level ++ "\x7d\n"

/-- A type alias. -/
def TypeAlias.print (p : Place) (level : Nat) (t : TypeAlias) : String :=
  printDoc? level t.doc ++ indent level ++ p.words false ++ "type " ++ t.name ++
    angled (printTypeParams t.typeParams) ++ " = " ++ t.ty.print level ++ ";\n"

/-- A class, with a line for each member. -/
def Class.print (p : Place) (level : Nat) (c : Class) : String :=
  printDoc? level c.doc ++ indent level ++ p.words true ++ when c.isAbstract "abstract " ++
    "class " ++ c.name ++ angled (printTypeParams c.typeParams) ++
    printOpt 0 " extends " c.super ++ listAfter " implements " (printTys 0 c.interfaces) ++
    " \x7b\n" ++ String.join (c.members.map (·.print (level + 1))) ++ indent level ++ "\x7d\n"

/-- An enumeration, with a line for each member. -/
def Enum.print (p : Place) (level : Nat) (e : Enum) : String :=
  printDoc? level e.doc ++ indent level ++ p.words true ++ when e.isConst "const " ++ "enum " ++
    e.name ++ " \x7b\n" ++ String.join (printEnumMembers (level + 1) e.members) ++ indent level ++
    "\x7d\n"

/-- A statement that declares variables. -/
def Variables.print (p : Place) (level : Nat) (v : Variables) : String :=
  printDoc? level v.doc ++ indent level ++ p.words true ++ v.kind.text ++ " " ++
    String.intercalate ", " (v.declarators.map (·.print level)) ++ ";\n"

/-- The statement of an export without indentation. -/
def Export.print : Export → String
  | .assign name => "export = " ++ name ++ ";\n"
  | .default name => "export default " ++ name ++ ";\n"
  | .named names =>
    "export \x7b" ++ listAfter " " (names.map fun n => n.1 ++ n.2.elim "" (" as " ++ ·)) ++
      (if names.isEmpty then "\x7d" else " \x7d") ++ ";\n"

/-- The words that open the body of an ambient module. -/
def moduleHead (name : String) : String :=
  if name = "global" then "global \x7b\n" else "module " ++ quote name ++ " \x7b\n"

mutual

/-- A declaration on lines of its own. -/
def Decl.print (p : Place) (level : Nat) : Decl → String
  | .ns n => n.print p level
  | .interface i => i.print p level
  | .enum e => e.print p level
  | .typeAlias t => t.print p level
  | .cls c => c.print p level
  | .function f => f.print p level
  | .vars v => v.print p level

/-- A namespace, with the items of its body one level deeper. -/
def Namespace.print (p : Place) (level : Nat) : Namespace → String
  | ⟨name, doc, items⟩ =>
    printDoc? level doc ++ indent level ++ p.words true ++ "namespace " ++ name ++ " \x7b\n" ++
      String.join (printBody (level + 1) items) ++ indent level ++ "\x7d\n"

/-- An item on lines of its own. -/
def Item.print (p : Place) (level : Nat) : Item → String
  | .decl d => d.print p level
  | .ambientModule name items =>
    indent level ++ p.words true ++ moduleHead name ++ String.join (printBody (level + 1) items) ++
      indent level ++ "\x7d\n"
  | .exportStatement e => indent level ++ e.print

/-- The items of a body. -/
def printBody (level : Nat) : List Item → List String
  | [] => []
  | i :: is => i.print Place.body level :: printBody level is

end

/-- Items one after the other. -/
def printItems (p : Place) (level : Nat) (items : List Item) : String :=
  String.join (items.map (·.print p level))

/-- A declaration file as text. -/
def File.print (f : File) : String :=
  printItems .file 0 f.items

end Ambient
