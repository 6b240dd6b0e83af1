import Ambient.Tree.DeclPrinter

/-!
# Changes in the types of declarations

A `Rewrite` says what becomes of the types and of the documentation in a declaration, wherever they
stand. `Item.rewritten` makes such a change all over an item. Two changes can be made at once
(`Item.rewritten_rewritten`), and a change that does not show in print at any part does not show in
the printed item (`Item.print_rewritten`).
-/

namespace Ambient

/-- What becomes of each part of a declaration. -/
structure Rewrite where
  doc : Option String → Option String
  ty : Ty → Ty
  opt : Option Ty → Option Ty
  tys : List Ty → List Ty
  sig : Signature → Signature
  typeParams : List TypeParam → List TypeParam
  params : List Param → List Param
  members : List Member → List Member
  index : IndexSignature → IndexSignature
  accessor : Accessor → Accessor

/-- One change behind another. -/
def Rewrite.after (b a : Rewrite) : Rewrite where
  doc := b.doc ∘ a.doc
  ty := b.ty ∘ a.ty
  opt := b.opt ∘ a.opt
  tys := b.tys ∘ a.tys
  sig := b.sig ∘ a.sig
  typeParams := b.typeParams ∘ a.typeParams
  params := b.params ∘ a.params
  members := b.members ∘ a.members
  index := b.index ∘ a.index
  accessor := b.accessor ∘ a.accessor

/-! ## Changed declarations -/

section

variable (r : Rewrite)

/-- A member of a class without its documentation. -/
def ClassMemberShape.rewritten : ClassMemberShape → ClassMemberShape
  | .property name ty optional readonly modifiers =>
    .property name (r.opt ty) optional readonly modifiers
  | .method name optional sig result modifiers =>
    .method name optional (r.sig sig) (r.opt result) modifiers
  | .constructor visibility params => .constructor visibility (r.params params)
  | .index sig => .index (r.index sig)
  | .accessor a => .accessor (r.accessor a)

/-- A member of a class. -/
def ClassMember.rewritten (m : ClassMember) : ClassMember where
  doc := r.doc m.doc
  shape := m.shape.rewritten r

/-- A function. -/
def Function.rewritten (f : Function) : Function where
  name := f.name
  doc := r.doc f.doc
  sig := r.sig f.sig
  result := r.opt f.result

/-- An interface. -/
def Interface.rewritten (i : Interface) : Interface where
  name := i.name
  doc := r.doc i.doc
  typeParams := r.typeParams i.typeParams
  supers := r.tys i.supers
  members := r.members i.members

/-- A type alias. -/
def TypeAlias.rewritten (t : TypeAlias) : TypeAlias where
  name := t.name
  doc := r.doc t.doc
  typeParams := r.typeParams t.typeParams
  ty := r.ty t.ty

/-- A class. -/
def Class.rewritten (c : Class) : Class where
  name := c.name
  doc := r.doc c.doc
  isAbstract := c.isAbstract
  typeParams := r.typeParams c.typeParams
  super := r.opt c.super
  interfaces := r.tys c.interfaces
  members := c.members.map (ClassMember.rewritten r)

/-- A member of an enumeration. -/
def EnumMember.rewritten (m : EnumMember) : EnumMember :=
  { m with doc := r.doc m.doc }

/-- An enumeration. -/
def Enum.rewritten (e : Enum) : Enum where
  name := e.name
  doc := r.doc e.doc
  isConst := e.isConst
  members := e.members.map (EnumMember.rewritten r)

/-- One variable of a statement. -/
def Declarator.rewritten (d : Declarator) : Declarator :=
  { d with ty := r.opt d.ty }

/-- A statement that declares variables. -/
def Variables.rewritten (v : Variables) : Variables where
  doc := r.doc v.doc
  kind := v.kind
  declarators := v.declarators.map (Declarator.rewritten r)

mutual

/-- A namespace. -/
def Namespace.rewritten : Namespace → Namespace
  | ⟨name, doc, items⟩ => ⟨name, r.doc doc, rewrittenItems items⟩

/-- A declaration. -/
def Decl.rewritten : Decl → Decl
  | .ns n => .ns n.rewritten
  | .interface i => .interface (i.rewritten r)
  | .enum e => .enum (e.rewritten r)
  | .typeAlias t => .typeAlias (t.rewritten r)
  | .cls c => .cls (c.rewritten r)
  | .function f => .function (f.rewritten r)
  | .vars v => .vars (v.rewritten r)

/-- An item. -/
def Item.rewritten : Item → Item
  | .decl d => .decl d.rewritten
  | .ambientModule name items => .ambientModule name (rewrittenItems items)
  | .exportStatement e => .exportStatement e

/-- Each item of a list. -/
def rewrittenItems : List Item → List Item
  | [] => []
  | i :: is => i.rewritten :: rewrittenItems is

end

theorem rewrittenItems_eq_map (is : List Item) :
    rewrittenItems r is = is.map (Item.rewritten r) := by
  induction is with
  | nil => rfl
  | cons i is ih => rw [rewrittenItems, ih, List.map_cons]

end

/-! ## Two changes -/

section

variable (a b : Rewrite)

theorem ClassMember.rewritten_rewritten (m : ClassMember) :
    (m.rewritten a).rewritten b = m.rewritten (b.after a) := by
  obtain ⟨doc, shape⟩ := m
  cases shape <;> rfl

theorem Class.rewritten_rewritten (c : Class) :
    (c.rewritten a).rewritten b = c.rewritten (b.after a) := by
  have hm : (c.members.map (ClassMember.rewritten a)).map (ClassMember.rewritten b) =
      c.members.map (ClassMember.rewritten (b.after a)) := by
    rw [List.map_map]
    exact List.map_congr_left fun m _ => m.rewritten_rewritten a b
  rw [Class.rewritten, Class.rewritten, hm]
  rfl

theorem Enum.rewritten_rewritten (e : Enum) :
    (e.rewritten a).rewritten b = e.rewritten (b.after a) := by
  have hm : (e.members.map (EnumMember.rewritten a)).map (EnumMember.rewritten b) =
      e.members.map (EnumMember.rewritten (b.after a)) := by
    rw [List.map_map]
    rfl
  rw [Enum.rewritten, Enum.rewritten, hm]
  rfl

theorem Variables.rewritten_rewritten (v : Variables) :
    (v.rewritten a).rewritten b = v.rewritten (b.after a) := by
  have hd : (v.declarators.map (Declarator.rewritten a)).map (Declarator.rewritten b) =
      v.declarators.map (Declarator.rewritten (b.after a)) := by
    rw [List.map_map]
    rfl
  rw [Variables.rewritten, Variables.rewritten, hd]
  rfl

mutual

theorem Namespace.rewritten_rewritten : (n : Namespace) →
    (n.rewritten a).rewritten b = n.rewritten (b.after a)
  | ⟨name, doc, items⟩ => by
    rw [Namespace.rewritten, Namespace.rewritten, Namespace.rewritten,
      rewrittenItems_rewrittenItems items]
    rfl

theorem Decl.rewritten_rewritten : (d : Decl) →
    (d.rewritten a).rewritten b = d.rewritten (b.after a)
  | .ns n => by rw [Decl.rewritten, Decl.rewritten, Decl.rewritten, n.rewritten_rewritten]
  | .interface _ | .typeAlias _ | .function _ => rfl
  | .enum e => by rw [Decl.rewritten, Decl.rewritten, Decl.rewritten, e.rewritten_rewritten]
  | .cls c => by rw [Decl.rewritten, Decl.rewritten, Decl.rewritten, c.rewritten_rewritten]
  | .vars v => by rw [Decl.rewritten, Decl.rewritten, Decl.rewritten, v.rewritten_rewritten]

/-- **Two changes are made at once.** -/
theorem Item.rewritten_rewritten : (i : Item) →
    (i.rewritten a).rewritten b = i.rewritten (b.after a)
  | .decl d => by rw [Item.rewritten, Item.rewritten, Item.rewritten, d.rewritten_rewritten]
  | .ambientModule name items => by
    rw [Item.rewritten, Item.rewritten, Item.rewritten, rewrittenItems_rewrittenItems items]
  | .exportStatement _ => rfl

theorem rewrittenItems_rewrittenItems : (is : List Item) →
    rewrittenItems b (rewrittenItems a is) = rewrittenItems (b.after a) is
  | [] => rfl
  | i :: is => by
    rw [rewrittenItems, rewrittenItems, rewrittenItems, i.rewritten_rewritten,
      rewrittenItems_rewrittenItems is]

end

end

/-! ## Changes that do not show -/

/-- No part is printed in another way after the change. -/
structure Rewrite.Unseen (r : Rewrite) : Prop where
  doc : ∀ level doc, printDoc? level (r.doc doc) = printDoc? level doc
  ty : ∀ level t, (r.ty t).print level = t.print level
  opt : ∀ level before t, printOpt level before (r.opt t) = printOpt level before t
  tys : ∀ level ts, printTys level (r.tys ts) = printTys level ts
  sig : ∀ sig, (r.sig sig).print = sig.print
  typeParams : ∀ ps, printTypeParams (r.typeParams ps) = printTypeParams ps
  params : ∀ ps, printParams (r.params ps) = printParams ps
  members : ∀ level ms, printMemberLines level (r.members ms) = printMemberLines level ms
  index : ∀ sig, (r.index sig).print = sig.print
  accessor : ∀ a, (r.accessor a).print = a.print

section

variable {r : Rewrite}

theorem ClassMember.print_rewritten (h : r.Unseen) (level : Nat) (m : ClassMember) :
    (m.rewritten r).print level = m.print level := by
  have hs : (m.shape.rewritten r).print level = m.shape.print level := by
    cases m.shape with
    | property name ty optional readonly modifiers =>
      rw [ClassMemberShape.rewritten, ClassMemberShape.print, ClassMemberShape.print, h.opt]
    | method name optional sig result modifiers =>
      rw [ClassMemberShape.rewritten, ClassMemberShape.print, ClassMemberShape.print, h.sig, h.opt]
    | constructor visibility params =>
      rw [ClassMemberShape.rewritten, ClassMemberShape.print, ClassMemberShape.print, h.params]
    | index sig => exact h.index sig
    | accessor a => exact h.accessor a
  rw [rewritten, print, print, h.doc, hs]

theorem Class.print_rewritten (h : r.Unseen) (p : Place) (level : Nat) (c : Class) :
    (c.rewritten r).print p level = c.print p level := by
  have hm : (c.members.map (ClassMember.rewritten r)).map (·.print (level + 1)) =
      c.members.map (·.print (level + 1)) := by
    rw [List.map_map]
    exact List.map_congr_left fun m _ => m.print_rewritten h (level + 1)
  rw [rewritten, print, print, h.doc, h.typeParams, h.opt, h.tys, hm]

theorem printEnumMembers_rewritten (h : r.Unseen) (level : Nat) (ms : List EnumMember) :
    printEnumMembers level (ms.map (EnumMember.rewritten r)) = printEnumMembers level ms := by
  induction ms with
  | nil => rfl
  | cons m ms ih =>
    rw [List.map_cons, printEnumMembers, printEnumMembers, ih, EnumMember.rewritten, h.doc,
      List.isEmpty_map]

theorem Variables.print_rewritten (h : r.Unseen) (p : Place) (level : Nat) (v : Variables) :
    (v.rewritten r).print p level = v.print p level := by
  have hd : (v.declarators.map (Declarator.rewritten r)).map (·.print level) =
      v.declarators.map (·.print level) := by
    rw [List.map_map]
    refine List.map_congr_left fun d _ => ?_
    rw [Function.comp_apply, Declarator.rewritten, Declarator.print, Declarator.print, h.opt]
  rw [rewritten, print, print, h.doc, hd]

mutual

theorem Namespace.print_rewritten (h : r.Unseen) (p : Place) (level : Nat) : (n : Namespace) →
    (n.rewritten r).print p level = n.print p level
  | ⟨name, doc, items⟩ => by
    rw [Namespace.rewritten, Namespace.print, Namespace.print, h.doc,
      printBody_rewritten h (level + 1) items]

theorem Decl.print_rewritten (h : r.Unseen) (p : Place) (level : Nat) : (d : Decl) →
    (d.rewritten r).print p level = d.print p level
  | .ns n => by rw [Decl.rewritten, Decl.print, Decl.print, n.print_rewritten h]
  | .interface i => by
    rw [Decl.rewritten, Decl.print, Decl.print, Interface.rewritten, Interface.print,
      Interface.print, h.doc, h.typeParams, h.tys, h.members]
  | .enum e => by
    rw [Decl.rewritten, Decl.print, Decl.print, Enum.rewritten, Enum.print, Enum.print, h.doc,
      printEnumMembers_rewritten h]
  | .typeAlias t => by
    rw [Decl.rewritten, Decl.print, Decl.print, TypeAlias.rewritten, TypeAlias.print,
      TypeAlias.print, h.doc, h.typeParams, h.ty]
  | .cls c => by rw [Decl.rewritten, Decl.print, Decl.print, c.print_rewritten h]
  | .function f => by
    rw [Decl.rewritten, Decl.print, Decl.print, Function.rewritten, Function.print, Function.print,
      h.doc, h.sig, h.opt]
  | .vars v => by rw [Decl.rewritten, Decl.print, Decl.print, v.print_rewritten h]

/-- **A change that does not show in any part does not show in an item.** -/
theorem Item.print_rewritten (h : r.Unseen) (p : Place) (level : Nat) : (i : Item) →
    (i.rewritten r).print p level = i.print p level
  | .decl d => by rw [Item.rewritten, Item.print, Item.print, d.print_rewritten h]
  | .ambientModule name items => by
    rw [Item.rewritten, Item.print, Item.print, printBody_rewritten h (level + 1) items]
  | .exportStatement _ => rfl

theorem printBody_rewritten (h : r.Unseen) (level : Nat) : (is : List Item) →
    printBody level (rewrittenItems r is) = printBody level is
  | [] => rfl
  | i :: is => by
    rw [rewrittenItems, printBody, printBody, i.print_rewritten h, printBody_rewritten h level is]

end

theorem printItems_rewritten (h : r.Unseen) (p : Place) (level : Nat) (is : List Item) :
    printItems p level (is.map (Item.rewritten r)) = printItems p level is := by
  rw [printItems, printItems, List.map_map]
  exact congrArg String.join (List.map_congr_left fun i _ => i.print_rewritten h p level)

end

end Ambient
