import Ambient.Proofs.Tree.Legible
import Ambient.Proofs.Tree.LexemesDecl

/-!
# Legible declarations

`Item.Legible` says of an item that each of its parts tells what it is, as `Ty.Legible` says it of
a type. A declaration must not start like another one (`const enum`), and neither must a member of
a class (`constructor`) or a name in an export list (`type`).
-/

namespace Ambient

/-- A documentation comment that may be missing. -/
def legibleDoc? (doc : Option String) : Prop :=
  ∀ d ∈ doc, LegibleDoc d

/-- An initializer that may be missing. -/
def legibleInitializer (e : Option String) : Prop :=
  ∀ s ∈ e, Initializer s

/-- A member of a class without its documentation. -/
def ClassMemberShape.Legible : ClassMemberShape → Prop
  | .property name ty _ _ _ => PropertyName name ∧ legibleOpt ty
  | .method name optional sig result _ =>
    PropertyName name ∧ (name = "constructor" → optional = true ∨ sig.typeParams ≠ []) ∧
      sig.Legible ∧ legibleResult result
  | .constructor _ params => legibleParams params
  | .index sig => sig.Legible
  | .accessor a => a.Legible

/-- A member of a class. -/
structure ClassMember.Legible (m : ClassMember) : Prop where
  doc : legibleDoc? m.doc
  shape : m.shape.Legible

/-- A function. -/
structure Function.Legible (f : Function) : Prop where
  name : Binder f.name
  doc : legibleDoc? f.doc
  sig : f.sig.Legible
  result : legibleResult f.result

/-- An interface. -/
structure Interface.Legible (i : Interface) : Prop where
  name : Binder i.name
  doc : legibleDoc? i.doc
  typeParams : legibleTypeParams i.typeParams
  supers : legibleTys i.supers
  members : legibleMembers i.members

/-- A type alias. -/
structure TypeAlias.Legible (t : TypeAlias) : Prop where
  name : Binder t.name
  doc : legibleDoc? t.doc
  typeParams : legibleTypeParams t.typeParams
  notPredicate : t.ty.isPredicate = false
  ty : t.ty.Legible

/-- A class. -/
structure Class.Legible (c : Class) : Prop where
  name : Binder c.name
  doc : legibleDoc? c.doc
  typeParams : legibleTypeParams c.typeParams
  super : legibleOpt c.super
  interfaces : legibleTys c.interfaces
  members : ∀ m ∈ c.members, m.Legible

/-- A member of an enumeration. -/
structure EnumMember.Legible (m : EnumMember) : Prop where
  name : MemberName m.name
  doc : legibleDoc? m.doc
  initializer : legibleInitializer m.initializer

/-- An enumeration. -/
structure Enum.Legible (e : Enum) : Prop where
  name : Binder e.name
  doc : legibleDoc? e.doc
  members : ∀ m ∈ e.members, m.Legible

/-- One variable of a statement. -/
structure Declarator.Legible (d : Declarator) : Prop where
  name : MemberName d.name
  ty : legibleOpt d.ty
  initializer : legibleInitializer d.initializer

/-- A statement that declares variables. -/
structure Variables.Legible (v : Variables) : Prop where
  doc : legibleDoc? v.doc
  declarators : ∀ d ∈ v.declarators, d.Legible
  ne_nil : v.declarators ≠ []
  /-- The words `const enum` would start an enumeration. -/
  notEnum : v.kind = .const → ∀ d ∈ v.declarators.head?, d.name ≠ "enum"

/-- An export statement. -/
def Export.Legible : Export → Prop
  | .assign name => DottedPath name
  | .default name => Binder name
  | .named names =>
    ∀ n ∈ names, (MemberName n.1 ∧ n.1 ≠ "type") ∧ ∀ o ∈ n.2, MemberName o

mutual

/-- A namespace. -/
def Namespace.Legible : Namespace → Prop
  | ⟨name, doc, items⟩ => DottedPath name ∧ legibleDoc? doc ∧ legibleItems items

/-- A declaration. -/
def Decl.Legible : Decl → Prop
  | .ns n => n.Legible
  | .interface i => i.Legible
  | .enum e => e.Legible
  | .typeAlias t => t.Legible
  | .cls c => c.Legible
  | .function f => f.Legible
  | .vars v => v.Legible

/-- An item. -/
def Item.Legible : Item → Prop
  | .decl d => d.Legible
  | .ambientModule _ items => legibleItems items
  | .exportStatement e => e.Legible

/-- Each item of a list. -/
def legibleItems : List Item → Prop
  | [] => True
  | i :: is => i.Legible ∧ legibleItems is

end

theorem legibleItems_iff {is : List Item} : legibleItems is ↔ ∀ i ∈ is, i.Legible := by
  induction is with
  | nil => simp [legibleItems]
  | cons i is ih => rw [legibleItems, ih, List.forall_mem_cons]

/-- A file. -/
def File.Legible (f : File) : Prop :=
  ∀ i ∈ f.items, i.Legible

end Ambient
