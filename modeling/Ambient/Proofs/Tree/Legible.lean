import Ambient.Parser.Ty
import Ambient.Proofs.Parser.Names
import Ambient.Proofs.Tree.Lexemes

/-!
# Legible types

`Ty.Legible` says of a type that each of its parts is written in a way that tells what it is: names
are texts that the reader of their place takes, unions and intersections have two members or more
that are not of the same kind, what tells about an argument stands behind an arrow or a colon only,
and nothing starts like something else that is looked for first (`opensMapped`, `isIndexLike`,
`Signature.Headed`). A predicate of this kind holds of every type that was read from a source with
few exceptions, and of every canonical type.
-/

namespace Ambient

/-- What a function tells about an argument stands only where a result is read. -/
def Ty.isPredicate : Ty → Bool
  | .predicate .. => true
  | _ => false

/-- Intersections are not told apart inside an intersection. -/
def Ty.isIntersection : Ty → Bool
  | .intersection _ => true
  | _ => false

/-- Types that start with the word `symbol` when they stand behind an operator. -/
def Ty.startsSymbol : Ty → Bool
  | .primitive .symbol => true
  | .array t => !t.looserThanPostfix && t.startsSymbol
  | .indexAccess t _ => !t.looserThanPostfix && t.startsSymbol
  | _ => false

/-- The lexemes without one of some kinds at the front. -/
def behind (P : Kind → Bool) : List Lexeme → List Lexeme
  | [] => []
  | l :: ls => if P l.kind then ls else l :: ls

/-- Whether the lexemes behind an opening brace are those of a mapped type. -/
def opensMapped (ls : List Lexeme) : Bool :=
  let ls := behind (fun k => k == .symbol .plus || k == .symbol .minus) ls
  let ls := behind (fun k => k == .keyword .readonlyKw) ls
  kindAt ls 0 == .lbracket && (kindAt ls 1).isWord && kindAt ls 2 == .keyword .inKw

/-- Whether a name starts like an index signature. -/
def isIndexLike (name : String) : Bool :=
  kindAt (lexemesOf name) 0 == .lbracket && (kindAt (lexemesOf name) 1).isWord &&
    kindAt (lexemesOf name) 2 == .colon

/-- The type of a value: a dotted name, or an import that is read and printed as it stands. -/
def Query (value : String) : Prop :=
  DottedPath value ∨
    Atom value ∧ StartsWith (· = .keyword .importKw) (lexemesOf value) ∧
      closesParens 0 ((lexemesOf value).map Lexeme.kind) = true ∧
      ∃ t : Ty, t.print 0 = value ∧ ∀ n us, (lexemesOf value).length ≤ n →
        kindAt us 0 ≠ .symbol .dot → kindAt us 0 ≠ .langle →
        Takes (Parser.imported (n + 1) (Parser.readTy n)) (lexemesOf value ++ us) t us

/-- What a predicate is about: an argument or the receiver. -/
def Subject (s : String) : Prop :=
  Ident s ∨ s = "this"

/-- The name of a member of an interface or class, which must not look like an index signature. -/
def PropertyName (s : String) : Prop :=
  MemberName s ∧ isIndexLike s = false

/-- Parameters in parentheses are told from a type in parentheses by the first of them. -/
def Signature.Headed (sig : Signature) : Prop :=
  sig.typeParams ≠ [] ∨ sig.receiver.isSome ∨
    ∀ p ∈ sig.params.head?, p.rest = true ∨ Pattern p.name ∨ Word p.name ∧ p.name ≠ "this"

mutual

/-- Whether each part of a type tells what it is. -/
def Ty.Legible : Ty → Prop
  | .named name args => TypeName name ∧ legibleTys args
  | .primitive _ | .stringLiteral _ | .booleanLiteral _ | .this => True
  | .numberLiteral text => SignedNumber text
  | .union ts => 2 ≤ ts.length ∧ (∀ t ∈ ts, t.isUnion = false) ∧ legibleTys ts
  | .intersection ts => 2 ≤ ts.length ∧ (∀ t ∈ ts, t.isIntersection = false) ∧ legibleTys ts
  | .function sig result => sig.Headed ∧ sig.Legible ∧ result.Legible
  | .constructor _ sig result => sig.Legible ∧ result.Legible
  | .object members => opensMapped (lexemesMembers members).flatten = false ∧ legibleMembers members
  | .array t => t.isPredicate = false ∧ t.Legible
  | .tuple es => legibleElements es
  | .typeOf value => Query value
  | .keyOf t => t.isPredicate = false ∧ t.Legible
  | .operator op t =>
    (op = .unique → t.startsSymbol = true) ∧ t.isPredicate = false ∧ t.Legible
  | .indexAccess object index =>
    (object.isPredicate = false ∧ object.Legible) ∧ index.isPredicate = false ∧ index.Legible
  | .conditional check super yes no =>
    (check.isPredicate = false ∧ check.Legible) ∧ (super.isPredicate = false ∧ super.Legible) ∧
      (yes.isPredicate = false ∧ yes.Legible) ∧ no.isPredicate = false ∧ no.Legible
  | .mapped key constraint name value _ _ =>
    Word key ∧ (constraint.isPredicate = false ∧ constraint.Legible) ∧ legibleOpt name ∧
      value.isPredicate = false ∧ value.Legible
  | .infer name => Binder name
  | .template text => Spelled text (.template text)
  | .imported _ qualifier args => (∀ q ∈ qualifier, DottedPath q) ∧ legibleTys args
  | .predicate asserts subject ty =>
    Subject subject ∧ (asserts = false → ty.isSome = true) ∧ legibleOpt ty
  | .parenthesized t => t.isPredicate = false ∧ t.Legible

/-- Each type of a list. -/
def legibleTys : List Ty → Prop
  | [] => True
  | t :: ts => (t.isPredicate = false ∧ t.Legible) ∧ legibleTys ts

/-- A type that may be missing. -/
def legibleOpt : Option Ty → Prop
  | none => True
  | some t => t.isPredicate = false ∧ t.Legible

/-- The type of a result that may be missing. -/
def legibleResult : Option Ty → Prop
  | none => True
  | some t => t.Legible

/-- Type parameters and parameters. -/
def Signature.Legible : Signature → Prop
  | ⟨typeParams, receiver, params⟩ =>
    legibleTypeParams typeParams ∧ legibleOpt receiver ∧ legibleParams params

/-- Each type parameter of a list. -/
def legibleTypeParams : List TypeParam → Prop
  | [] => True
  | p :: ps => p.Legible ∧ legibleTypeParams ps

/-- A type parameter. A name that could be a modifier must not have a word behind it. -/
def TypeParam.Legible : TypeParam → Prop
  | ⟨name, _, constraint, default⟩ =>
    Binder name ∧ (constraint.isSome = true → name ≠ "in" ∧ name ≠ "out") ∧
      legibleOpt constraint ∧ legibleOpt default

/-- Each parameter of a list. -/
def legibleParams : List Param → Prop
  | [] => True
  | p :: ps => p.Legible ∧ legibleParams ps

/-- A parameter, which must not look like the receiver. -/
def Param.Legible : Param → Prop
  | ⟨name, ty, optional, rest⟩ =>
    ParamName name ∧ (name = "this" → rest = true ∨ optional = true ∨ ty.isSome = false) ∧
      legibleOpt ty

/-- Each element of a tuple. -/
def legibleElements : List TupleElement → Prop
  | [] => True
  | e :: es => e.Legible ∧ legibleElements es

/-- An element of a tuple. -/
def TupleElement.Legible : TupleElement → Prop
  | ⟨name, ty, _, _⟩ => (∀ n ∈ name, Word n) ∧ ty.isPredicate = false ∧ ty.Legible

/-- Each member of a list. -/
def legibleMembers : List Member → Prop
  | [] => True
  | m :: ms => m.Legible ∧ legibleMembers ms

/-- A member of an interface or object type. -/
def Member.Legible : Member → Prop
  | ⟨doc, shape⟩ => (∀ d ∈ doc, LegibleDoc d) ∧ shape.Legible

/-- A member without its documentation. -/
def MemberShape.Legible : MemberShape → Prop
  | .property name ty _ _ => PropertyName name ∧ legibleOpt ty
  | .method name optional sig result =>
    PropertyName name ∧ (name = "new" → optional = true) ∧ sig.Legible ∧ legibleResult result
  | .call sig result => sig.Legible ∧ legibleResult result
  | .construct typeParams params result =>
    legibleTypeParams typeParams ∧ legibleParams params ∧ legibleResult result
  | .index sig => sig.isStatic = false ∧ sig.Legible
  | .accessor a => a.modifiers = {} ∧ a.Legible

/-- An index signature. -/
def IndexSignature.Legible : IndexSignature → Prop
  | ⟨key, keyType, valueType, _, _⟩ =>
    Word key ∧ (keyType.isPredicate = false ∧ keyType.Legible) ∧
      valueType.isPredicate = false ∧ valueType.Legible

/-- An accessor. -/
def Accessor.Legible : Accessor → Prop
  | ⟨name, _, params, result, _⟩ =>
    MemberName name ∧ legibleParams params ∧ legibleResult result

end

theorem legibleTys_iff {ts : List Ty} :
    legibleTys ts ↔ ∀ t ∈ ts, t.isPredicate = false ∧ t.Legible := by
  induction ts with
  | nil => simp [legibleTys]
  | cons t ts ih => rw [legibleTys, ih, List.forall_mem_cons]

theorem legibleTypeParams_iff {ps : List TypeParam} :
    legibleTypeParams ps ↔ ∀ p ∈ ps, p.Legible := by
  induction ps with
  | nil => simp [legibleTypeParams]
  | cons p ps ih => rw [legibleTypeParams, ih, List.forall_mem_cons]

theorem legibleParams_iff {ps : List Param} : legibleParams ps ↔ ∀ p ∈ ps, p.Legible := by
  induction ps with
  | nil => simp [legibleParams]
  | cons p ps ih => rw [legibleParams, ih, List.forall_mem_cons]

theorem legibleElements_iff {es : List TupleElement} :
    legibleElements es ↔ ∀ e ∈ es, e.Legible := by
  induction es with
  | nil => simp [legibleElements]
  | cons e es ih => rw [legibleElements, ih, List.forall_mem_cons]

theorem legibleMembers_iff {ms : List Member} : legibleMembers ms ↔ ∀ m ∈ ms, m.Legible := by
  induction ms with
  | nil => simp [legibleMembers]
  | cons m ms ih => rw [legibleMembers, ih, List.forall_mem_cons]

end Ambient
