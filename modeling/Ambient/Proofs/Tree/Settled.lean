import Ambient.Proofs.Tree.LegibleDecl
import Ambient.Proofs.Token.Comments

/-!
# Settled declarations

What is read of a source is written in a way that tells what it is (`Item.Legible`), but for a few
corners. Some texts are read in one way and printed in another one that means something else:

* a comment of one line whose text starts with a star;
* a parameter `this` behind a modifier, which is printed like the receiver;
* a function type with empty angle brackets in front of a parameter that is no word;
* an object type whose first member is a computed name like the key of a mapped type, behind a token
  that is passed;
* the type of an import that is kept as text, if its type arguments have a corner in them;
* a method `constructor` with empty angle brackets or an exclamation mark;
* the word `type` as an exported name behind the word `type`;
* an initializer that ends with a reference.

`Item.Settled` says of an item that none of them is in it.
-/

namespace Ambient

open Text (lines trim)

/-- One line that does not start with a star, or several. -/
def starless (d : String) : Prop :=
  ∀ l, lines d.toList = [l] → (trim l).head? ≠ some '*'

/-- A documentation comment that may be missing. -/
def settledDoc (doc : Option String) : Prop :=
  ∀ d ∈ doc, starless d

/-- An initializer that may be missing. -/
def settledInitializer (e : Option String) : Prop :=
  ∀ s ∈ e, ∀ r, (kinds s.toList).getLast? ≠ some (.reference r)

/-! ## Types -/

mutual

/-- Whether a type has none of the corners in it. -/
def Ty.Settled : Ty → Prop
  | .named _ args => settledTys args
  | .primitive _ | .stringLiteral _ | .numberLiteral _ | .booleanLiteral _ | .this => True
  | .union ts => settledTys ts
  | .intersection ts => settledTys ts
  | .function sig result => sig.Headed ∧ sig.Settled ∧ result.Settled
  | .constructor _ sig result => sig.Settled ∧ result.Settled
  | .object members => opensMapped (lexemesMembers members).flatten = false ∧ settledMembers members
  | .array t => t.Settled
  | .tuple es => settledElements es
  | .typeOf value => value.toList.getLast? = some '>' → Query value
  | .keyOf t => t.Settled
  | .operator _ t => t.Settled
  | .indexAccess object index => object.Settled ∧ index.Settled
  | .conditional check super yes no =>
    check.Settled ∧ super.Settled ∧ yes.Settled ∧ no.Settled
  | .mapped _ constraint name value _ _ =>
    constraint.Settled ∧ settledOpt name ∧ value.Settled
  | .infer _ | .template _ => True
  | .imported _ _ args => settledTys args
  | .predicate _ _ ty => settledOpt ty
  | .parenthesized t => t.Settled

/-- Each type of a list. -/
def settledTys : List Ty → Prop
  | [] => True
  | t :: ts => t.Settled ∧ settledTys ts

/-- A type that may be missing. -/
def settledOpt : Option Ty → Prop
  | none => True
  | some t => t.Settled

/-- Type parameters and parameters. -/
def Signature.Settled : Signature → Prop
  | ⟨typeParams, receiver, params⟩ =>
    settledTypeParams typeParams ∧ settledOpt receiver ∧ settledParams params

/-- Each type parameter of a list. -/
def settledTypeParams : List TypeParam → Prop
  | [] => True
  | p :: ps => p.Settled ∧ settledTypeParams ps

/-- A type parameter. -/
def TypeParam.Settled : TypeParam → Prop
  | ⟨_, _, constraint, default⟩ => settledOpt constraint ∧ settledOpt default

/-- Each parameter of a list. -/
def settledParams : List Param → Prop
  | [] => True
  | p :: ps => p.Settled ∧ settledParams ps

/-- A parameter that does not look like the receiver. -/
def Param.Settled : Param → Prop
  | ⟨name, ty, optional, rest⟩ =>
    (name = "this" → rest = true ∨ optional = true ∨ ty.isSome = false) ∧ settledOpt ty

/-- Each element of a tuple. -/
def settledElements : List TupleElement → Prop
  | [] => True
  | e :: es => e.Settled ∧ settledElements es

/-- An element of a tuple. -/
def TupleElement.Settled : TupleElement → Prop
  | ⟨_, ty, _, _⟩ => ty.Settled

/-- Each member of a list. -/
def settledMembers : List Member → Prop
  | [] => True
  | m :: ms => m.Settled ∧ settledMembers ms

/-- A member of an interface or object type. -/
def Member.Settled : Member → Prop
  | ⟨doc, shape⟩ => (∀ d ∈ doc, starless d) ∧ shape.Settled

/-- A member without its documentation. -/
def MemberShape.Settled : MemberShape → Prop
  | .property _ ty _ _ => settledOpt ty
  | .method _ _ sig result => sig.Settled ∧ settledOpt result
  | .call sig result => sig.Settled ∧ settledOpt result
  | .construct typeParams params result =>
    settledTypeParams typeParams ∧ settledParams params ∧ settledOpt result
  | .index sig => sig.Settled
  | .accessor a => a.Settled

/-- An index signature. -/
def IndexSignature.Settled : IndexSignature → Prop
  | ⟨_, keyType, valueType, _, _⟩ => keyType.Settled ∧ valueType.Settled

/-- An accessor. -/
def Accessor.Settled : Accessor → Prop
  | ⟨_, _, params, result, _⟩ => settledParams params ∧ settledOpt result

end

/-! ## Declarations -/

/-- A member of a class without its documentation. -/
def ClassMemberShape.Settled : ClassMemberShape → Prop
  | .property _ ty _ _ _ => settledOpt ty
  | .method name optional sig result _ =>
    (name = "constructor" → optional = true ∨ sig.typeParams ≠ []) ∧ sig.Settled ∧
      settledOpt result
  | .constructor _ params => settledParams params
  | .index sig => sig.Settled
  | .accessor a => a.Settled

/-- A member of a class. -/
structure ClassMember.Settled (m : ClassMember) : Prop where
  doc : settledDoc m.doc
  shape : m.shape.Settled

/-- A function. -/
structure Function.Settled (f : Function) : Prop where
  doc : settledDoc f.doc
  sig : f.sig.Settled
  result : settledOpt f.result

/-- An interface. -/
structure Interface.Settled (i : Interface) : Prop where
  doc : settledDoc i.doc
  typeParams : settledTypeParams i.typeParams
  supers : settledTys i.supers
  members : settledMembers i.members

/-- A type alias. -/
structure TypeAlias.Settled (t : TypeAlias) : Prop where
  doc : settledDoc t.doc
  typeParams : settledTypeParams t.typeParams
  ty : t.ty.Settled

/-- A class. -/
structure Class.Settled (c : Class) : Prop where
  doc : settledDoc c.doc
  typeParams : settledTypeParams c.typeParams
  super : settledOpt c.super
  interfaces : settledTys c.interfaces
  members : ∀ m ∈ c.members, m.Settled

/-- A member of an enumeration. -/
structure EnumMember.Settled (m : EnumMember) : Prop where
  doc : settledDoc m.doc
  initializer : settledInitializer m.initializer

/-- An enumeration. -/
structure Enum.Settled (e : Enum) : Prop where
  doc : settledDoc e.doc
  members : ∀ m ∈ e.members, m.Settled

/-- One variable of a statement. -/
structure Declarator.Settled (d : Declarator) : Prop where
  ty : settledOpt d.ty
  initializer : settledInitializer d.initializer

/-- A statement that declares variables. -/
structure Variables.Settled (v : Variables) : Prop where
  doc : settledDoc v.doc
  declarators : ∀ d ∈ v.declarators, d.Settled

/-- An export statement. -/
def Export.Settled : Export → Prop
  | .assign _ | .default _ => True
  | .named names => ∀ n ∈ names, n.1 ≠ "type"

mutual

/-- A namespace. -/
def Namespace.Settled : Namespace → Prop
  | ⟨_, doc, items⟩ => settledDoc doc ∧ settledItems items

/-- A declaration. -/
def Decl.Settled : Decl → Prop
  | .ns n => n.Settled
  | .interface i => i.Settled
  | .enum e => e.Settled
  | .typeAlias t => t.Settled
  | .cls c => c.Settled
  | .function f => f.Settled
  | .vars v => v.Settled

/-- An item. -/
def Item.Settled : Item → Prop
  | .decl d => d.Settled
  | .ambientModule _ items => settledItems items
  | .exportStatement e => e.Settled

/-- Each item of a list. -/
def settledItems : List Item → Prop
  | [] => True
  | i :: is => i.Settled ∧ settledItems is

end

/-- A file. -/
def File.Settled (f : File) : Prop :=
  settledItems f.items

/-! ## Lists of parts -/

theorem settledTys_iff {ts : List Ty} : settledTys ts ↔ ∀ t ∈ ts, t.Settled := by
  induction ts with
  | nil => simp [settledTys]
  | cons t ts ih => rw [settledTys, ih, List.forall_mem_cons]

theorem settledTypeParams_iff {ps : List TypeParam} :
    settledTypeParams ps ↔ ∀ p ∈ ps, p.Settled := by
  induction ps with
  | nil => simp [settledTypeParams]
  | cons p ps ih => rw [settledTypeParams, ih, List.forall_mem_cons]

theorem settledParams_iff {ps : List Param} : settledParams ps ↔ ∀ p ∈ ps, p.Settled := by
  induction ps with
  | nil => simp [settledParams]
  | cons p ps ih => rw [settledParams, ih, List.forall_mem_cons]

theorem settledElements_iff {es : List TupleElement} :
    settledElements es ↔ ∀ e ∈ es, e.Settled := by
  induction es with
  | nil => simp [settledElements]
  | cons e es ih => rw [settledElements, ih, List.forall_mem_cons]

theorem settledMembers_iff {ms : List Member} : settledMembers ms ↔ ∀ m ∈ ms, m.Settled := by
  induction ms with
  | nil => simp [settledMembers]
  | cons m ms ih => rw [settledMembers, ih, List.forall_mem_cons]

theorem settledItems_iff {is : List Item} : settledItems is ↔ ∀ i ∈ is, i.Settled := by
  induction is with
  | nil => simp [settledItems]
  | cons i is ih => rw [settledItems, ih, List.forall_mem_cons]

end Ambient
