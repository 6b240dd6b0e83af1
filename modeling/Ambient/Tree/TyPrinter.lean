import Ambient.Text.Lines
import Ambient.Text.Quoted
import Ambient.Tree.Ty

/-!
# Printing types

`Ty.print` writes a type. A type stands on one line unless it has an object type whose members
are documented; such an object type puts each member on a line of its own, indented one level
deeper than the line that the type starts on. Parentheses are written where an operand would
otherwise be read as part of something else (`Ty.looserThanUnion`, `Ty.looserThanPostfix`).
-/

namespace Ambient

open Text (quote lines trim)

/-! ## Layout -/

/-- The blanks in front of a line. A level is four blanks. -/
def indent (level : Nat) : String :=
  String.ofList (List.replicate (4 * level) ' ')

/-- One line of a documentation comment of several lines. -/
def docGutter (level : Nat) (line : List Char) : String :=
  indent level ++ (if line.isEmpty then " *\n" else " * " ++ String.ofList line ++ "\n")

/-- A documentation comment. A text of at most one line gets a comment of one line. -/
def printDoc (level : Nat) (doc : String) : String :=
  let ls := lines doc.toList
  if ls.length ≤ 1 then
    indent level ++ "/** " ++ String.ofList (trim doc.toList) ++ " */\n"
  else
    indent level ++ "/**\n" ++ String.join (ls.map (docGutter level)) ++ indent level ++ " */\n"

/-- The documentation comment of something that may have none. -/
def printDoc? (level : Nat) (doc : Option String) : String :=
  doc.elim "" (printDoc level)

/-- A text, if the condition holds. -/
def when (c : Bool) (s : String) : String :=
  if c then s else ""

/-- A text in parentheses, if the condition holds. -/
def parens (c : Bool) (s : String) : String :=
  if c then "(" ++ s ++ ")" else s

/-- A list in angle brackets, or nothing when it is empty. -/
def angled : List String → String
  | [] => ""
  | ss => "<" ++ String.intercalate ", " ss ++ ">"

/-! ## Words before types and members -/

/-- The word of an operator. -/
def TypeOperator.text : TypeOperator → String
  | readonly => "readonly"
  | unique => "unique"

/-- The sign of a modifier in a mapped type. -/
def MappedModifier.sign : MappedModifier → String
  | add => "+"
  | remove => "-"
  | preserve => ""

/-- The word of a modifier. -/
def TypeParamModifier.text : TypeParamModifier → String
  | contravariant => "in"
  | covariant => "out"
  | const => "const"

/-- The word for who may use a member. Everyone may by default. -/
def Visibility.print : Visibility → String
  | everyone => ""
  | subclasses => "protected "
  | owner => "private "

/-- The words of modifiers in their order, each with a blank behind it. -/
def MemberModifiers.print (m : MemberModifiers) : String :=
  m.visibility.print ++ when m.isStatic "static " ++ when m.isAbstract "abstract "

/-- The word that begins an accessor. -/
def AccessorKind.text : AccessorKind → String
  | get => "get"
  | set => "set"

/-! ## Precedence -/

namespace Ty

/-- Functions, constructors and conditional types bind looser than unions and intersections. -/
def looserThanUnion : Ty → Bool
  | function .. | constructor .. | conditional .. => true
  | _ => false

/-- Unions, which need parentheses inside an intersection. -/
def isUnion : Ty → Bool
  | union _ => true
  | _ => false

/-- Conditional types, which need parentheses as the constraint of another one. -/
def isConditional : Ty → Bool
  | conditional .. => true
  | _ => false

/-- What binds looser than brackets behind a type and operators in front of one. -/
def looserThanPostfix : Ty → Bool
  | function .. | constructor .. | conditional .. => true
  | union _ | intersection _ | keyOf _ | operator .. | infer _ => true
  | _ => false

end Ty

/-! ## Types -/

mutual

/-- A type that starts on a line of the given level. -/
def Ty.print (level : Nat) : Ty → String
  | .named name args => name ++ angled (printTys level args)
  | .primitive p => p.text
  | .stringLiteral s => quote s
  | .numberLiteral text => text
  | .booleanLiteral b => if b then "true" else "false"
  | .union ts => String.intercalate " | " (printOperands level Ty.looserThanUnion ts)
  | .intersection ts =>
    String.intercalate " & " (printOperands level (fun t => t.looserThanUnion || t.isUnion) ts)
  | .function sig result => sig.print ++ " => " ++ result.print level
  | .constructor isAbstract sig result =>
    when isAbstract "abstract " ++ "new " ++ sig.print ++ " => " ++ result.print level
  | .object members =>
    if members.isEmpty then "\x7b\x7d"
    else if members.any fun m => m.doc.isSome then
      "\x7b\n" ++ String.join (printMemberLines (level + 1) members) ++ indent level ++ "\x7d"
    else "\x7b " ++ String.join (printMembers level members) ++ "\x7d"
  | .array t => parens t.looserThanPostfix (t.print level) ++ "[]"
  | .tuple es => "[" ++ String.intercalate ", " (printElements level es) ++ "]"
  | .typeOf value => "typeof " ++ value
  | .keyOf t => "keyof " ++ parens t.looserThanPostfix (t.print level)
  | .operator op t => op.text ++ " " ++ parens t.looserThanPostfix (t.print level)
  | .indexAccess object index =>
    parens object.looserThanPostfix (object.print level) ++ "[" ++ index.print level ++ "]"
  | .conditional check super yes no =>
    parens check.looserThanUnion (check.print level) ++ " extends " ++
      parens super.isConditional (super.print level) ++ " ? " ++ yes.print level ++ " : " ++
      no.print level
  | .mapped key constraint name value readonly optional =>
    "\x7b " ++ readonly.elim "" (fun m => m.sign ++ "readonly ") ++ "[" ++ key ++ " in " ++
      constraint.print level ++ printOpt level " as " name ++ "]" ++
      optional.elim "" (fun m => m.sign ++ "?") ++ ": " ++ value.print level ++ "; \x7d"
  | .infer name => "infer " ++ name
  | .template text => text
  | .imported module qualifier args =>
    "import(" ++ quote module ++ ")" ++ qualifier.elim "" ("." ++ ·) ++
      angled (printTys level args)
  | .predicate asserts subject ty =>
    when asserts "asserts " ++ subject ++ printOpt level " is " ty
  | .parenthesized t => "(" ++ t.print level ++ ")"
  | .this => "this"

/-- Each type of a list. -/
def printTys (level : Nat) : List Ty → List String
  | [] => []
  | t :: ts => t.print level :: printTys level ts

/-- Each type of a list, in parentheses where `loose` says so. -/
def printOperands (level : Nat) (loose : Ty → Bool) : List Ty → List String
  | [] => []
  | t :: ts => parens (loose t) (t.print level) :: printOperands level loose ts

/-- A type behind the given text, or nothing if there is no type. -/
def printOpt (level : Nat) (before : String) : Option Ty → String
  | none => ""
  | some t => before ++ t.print level

/-- Type parameters and parameters. -/
def Signature.print : Signature → String
  | ⟨typeParams, receiver, params⟩ =>
    angled (printTypeParams typeParams) ++ "(" ++
      String.intercalate ", " (printReceiver receiver ++ printParams params) ++ ")"

/-- The parameter that stands for the receiver. -/
def printReceiver : Option Ty → List String
  | none => []
  | some t => ["this: " ++ t.print 0]

/-- Type parameters, each with its modifiers, constraint and default. -/
def printTypeParams : List TypeParam → List String
  | [] => []
  | ⟨name, modifiers, constraint, default⟩ :: ps =>
    (String.join (modifiers.map fun m => m.text ++ " ") ++ name ++
      printOpt 0 " extends " constraint ++ printOpt 0 " = " default) :: printTypeParams ps

/-- Parameters, each with its type. -/
def printParams : List Param → List String
  | [] => []
  | ⟨name, ty, optional, rest⟩ :: ps =>
    (when rest "..." ++ name ++ when optional "?" ++ printOpt 0 ": " ty) :: printParams ps

/-- The elements of a tuple. The mark of an optional element follows its name, or its type if it
has no name. -/
def printElements (level : Nat) : List TupleElement → List String
  | [] => []
  | ⟨name, ty, optional, rest⟩ :: es =>
    (when rest "..." ++
      (match name with
        | some n => n ++ when optional "?" ++ ": " ++ ty.print level
        | none => ty.print level ++ when optional "?")) :: printElements level es

/-- The members of an object type on one line. -/
def printMembers (level : Nat) : List Member → List String
  | [] => []
  | ⟨_, shape⟩ :: ms => (shape.print level ++ "; ") :: printMembers level ms

/-- The members of an interface or object type, each with its documentation on lines of its
own. -/
def printMemberLines (level : Nat) : List Member → List String
  | [] => []
  | ⟨doc, shape⟩ :: ms =>
    (printDoc? level doc ++ indent level ++ shape.print level ++ ";\n") ::
      printMemberLines level ms

/-- A member without its documentation and without a terminator. -/
def MemberShape.print (level : Nat) : MemberShape → String
  | .property name ty optional readonly =>
    when readonly "readonly " ++ name ++ when optional "?" ++ printOpt level ": " ty
  | .method name optional sig result =>
    name ++ when optional "?" ++ sig.print ++ printOpt 0 ": " result
  | .call sig result => sig.print ++ printOpt 0 ": " result
  | .construct typeParams params result =>
    "new " ++ angled (printTypeParams typeParams) ++ "(" ++
      String.intercalate ", " (printParams params) ++ ")" ++ printOpt 0 ": " result
  | .index sig => sig.print
  | .accessor a => a.print

/-- An index signature. -/
def IndexSignature.print : IndexSignature → String
  | ⟨key, keyType, valueType, readonly, isStatic⟩ =>
    when isStatic "static " ++ when readonly "readonly " ++ "[" ++ key ++ ": " ++
      keyType.print 0 ++ "]: " ++ valueType.print 0

/-- An accessor with its modifiers. -/
def Accessor.print : Accessor → String
  | ⟨name, kind, params, result, modifiers⟩ =>
    modifiers.print ++ kind.text ++ " " ++ name ++ "(" ++
      String.intercalate ", " (printParams params) ++ ")" ++ printOpt 0 ": " result

end

end Ambient
