import Ambient.Proofs.Tree.Like
import Ambient.Tree.DeclPrinter

/-!
# Declarations that differ in texts kept as written

`File.Like` and its companions carry `Ty.Like` over to declarations. The names that assembly looks
at, those of namespaces, interfaces, enumerations and type aliases, are never texts kept as written,
so that they are equal in declarations that are alike. Files that are alike differ in their texts
only (`File.Like.differsIn`), and so do files that are alike print (`Item.Like.print`).
-/

namespace Ambient

variable (S : String → String → Prop)

/-! ## Parts of declarations -/

/-- Members of a class without documentation that differ in texts kept as written only. -/
inductive ClassMemberShape.Like : ClassMemberShape → ClassMemberShape → Prop
  | property (optional readonly : Bool) (modifiers : MemberModifiers) {n m : String}
    {t u : Option Ty} (hn : S n m) (ht : Option.Rel (Ty.Like S) t u) :
    Like (.property n t optional readonly modifiers) (.property m u optional readonly modifiers)
  | method (optional : Bool) (modifiers : MemberModifiers) {n m : String} {f g : Signature}
    {t u : Option Ty} (hn : S n m) (hs : f.Like S g) (ht : Option.Rel (Ty.Like S) t u) :
    Like (.method n optional f t modifiers) (.method m optional g u modifiers)
  | constructor (visibility : Visibility) {as bs : List Param}
    (ha : List.Forall₂ (Param.Like S) as bs) :
    Like (.constructor visibility as) (.constructor visibility bs)
  | index {i j : IndexSignature} (h : i.Like S j) : Like (.index i) (.index j)
  | accessor {a b : Accessor} (h : a.Like S b) : Like (.accessor a) (.accessor b)

/-- Members of a class that differ in texts kept as written only. -/
structure ClassMember.Like (m n : ClassMember) : Prop where
  doc : m.doc = n.doc
  shape : m.shape.Like S n.shape

/-- Members of an enumeration that differ in texts kept as written only. -/
structure EnumMember.Like (m n : EnumMember) : Prop where
  name : S m.name n.name
  doc : m.doc = n.doc
  initializer : Option.Rel S m.initializer n.initializer

/-- Variables that differ in texts kept as written only. -/
structure Declarator.Like (d e : Declarator) : Prop where
  name : S d.name e.name
  ty : Option.Rel (Ty.Like S) d.ty e.ty
  initializer : Option.Rel S d.initializer e.initializer

/-- Exported names, each with the name that it has outside, that differ in texts kept as written
only. -/
structure ExportedName.Like (n m : String × Option String) : Prop where
  name : S n.1 m.1
  outside : Option.Rel S n.2 m.2

/-- Export statements that differ in texts kept as written only. -/
inductive Export.Like : Export → Export → Prop
  | assign (name : String) : Like (.assign name) (.assign name)
  | default (name : String) : Like (.default name) (.default name)
  | named {ns ms : List (String × Option String)}
    (h : List.Forall₂ (ExportedName.Like S) ns ms) : Like (.named ns) (.named ms)

/-! ## Declarations -/

/-- Functions that differ in texts kept as written only. -/
structure Function.Like (f g : Function) : Prop where
  name : f.name = g.name
  doc : f.doc = g.doc
  sig : f.sig.Like S g.sig
  result : Option.Rel (Ty.Like S) f.result g.result

/-- Interfaces that differ in texts kept as written only. -/
structure Interface.Like (i j : Interface) : Prop where
  name : i.name = j.name
  doc : i.doc = j.doc
  typeParams : List.Forall₂ (TypeParam.Like S) i.typeParams j.typeParams
  supers : List.Forall₂ (Ty.Like S) i.supers j.supers
  members : List.Forall₂ (Member.Like S) i.members j.members

/-- Type aliases that differ in texts kept as written only. -/
structure TypeAlias.Like (a b : TypeAlias) : Prop where
  name : a.name = b.name
  doc : a.doc = b.doc
  typeParams : List.Forall₂ (TypeParam.Like S) a.typeParams b.typeParams
  ty : a.ty.Like S b.ty

/-- Classes that differ in texts kept as written only. -/
structure Class.Like (c d : Class) : Prop where
  name : c.name = d.name
  doc : c.doc = d.doc
  isAbstract : c.isAbstract = d.isAbstract
  typeParams : List.Forall₂ (TypeParam.Like S) c.typeParams d.typeParams
  super : Option.Rel (Ty.Like S) c.super d.super
  interfaces : List.Forall₂ (Ty.Like S) c.interfaces d.interfaces
  members : List.Forall₂ (ClassMember.Like S) c.members d.members

/-- Enumerations that differ in texts kept as written only. -/
structure Enum.Like (e f : Enum) : Prop where
  name : e.name = f.name
  doc : e.doc = f.doc
  isConst : e.isConst = f.isConst
  members : List.Forall₂ (EnumMember.Like S) e.members f.members

/-- Statements that declare variables and differ in texts kept as written only. -/
structure Variables.Like (v w : Variables) : Prop where
  doc : v.doc = w.doc
  kind : v.kind = w.kind
  declarators : List.Forall₂ (Declarator.Like S) v.declarators w.declarators

mutual

/-- Namespaces that differ in texts kept as written only. -/
inductive Namespace.Like : Namespace → Namespace → Prop
  | mk (name : String) (doc : Option String) {is js : List Item}
    (h : List.Forall₂ Item.Like is js) : Namespace.Like ⟨name, doc, is⟩ ⟨name, doc, js⟩

/-- Declarations that differ in texts kept as written only. -/
inductive Decl.Like : Decl → Decl → Prop
  | ns {n m : Namespace} (h : Namespace.Like n m) : Decl.Like (.ns n) (.ns m)
  | interface {i j : Interface} (h : i.Like S j) : Decl.Like (.interface i) (.interface j)
  | enum {e f : Enum} (h : e.Like S f) : Decl.Like (.enum e) (.enum f)
  | typeAlias {a b : TypeAlias} (h : a.Like S b) : Decl.Like (.typeAlias a) (.typeAlias b)
  | cls {c d : Class} (h : c.Like S d) : Decl.Like (.cls c) (.cls d)
  | function {f g : Function} (h : f.Like S g) : Decl.Like (.function f) (.function g)
  | vars {v w : Variables} (h : v.Like S w) : Decl.Like (.vars v) (.vars w)

/-- Items that differ in texts kept as written only. -/
inductive Item.Like : Item → Item → Prop
  | decl {d e : Decl} (h : Decl.Like d e) : Item.Like (.decl d) (.decl e)
  | ambientModule (name : String) {is js : List Item} (h : List.Forall₂ Item.Like is js) :
    Item.Like (.ambientModule name is) (.ambientModule name js)
  | exportStatement {e f : Export} (h : e.Like S f) :
    Item.Like (.exportStatement e) (.exportStatement f)

end

/-- Files that differ in texts kept as written only. -/
structure File.Like (f g : File) : Prop where
  items : List.Forall₂ (Item.Like S) f.items g.items

/-! ## The texts kept as written -/

/-- The texts of a member of a class, with its name. -/
def ClassMemberShape.texts : ClassMemberShape → List String
  | .property name ty _ _ _ => [name] ++ optTexts ty
  | .method name _ sig result _ => [name] ++ (sig.texts ++ optTexts result)
  | .constructor _ params => paramsTexts params
  | .index sig => sig.texts
  | .accessor a => a.texts

/-- The texts of a member of an enumeration, with its name. -/
def EnumMember.texts (m : EnumMember) : List String :=
  [m.name] ++ m.initializer.toList

/-- The texts of a variable, with its name. -/
def Declarator.texts (d : Declarator) : List String :=
  [d.name] ++ (optTexts d.ty ++ d.initializer.toList)

/-- An exported name and the one that it has outside. -/
def exportedTexts (n : String × Option String) : List String :=
  [n.1] ++ n.2.toList

/-- The names of an export statement that are listed. -/
def Export.texts : Export → List String
  | .assign _ | .default _ => []
  | .named ns => ns.flatMap exportedTexts

/-- The texts of a function. -/
def Function.texts (f : Function) : List String :=
  f.sig.texts ++ optTexts f.result

/-- The texts of an interface. -/
def Interface.texts (i : Interface) : List String :=
  typeParamsTexts i.typeParams ++ (tysTexts i.supers ++ membersTexts i.members)

/-- The texts of a type alias. -/
def TypeAlias.texts (a : TypeAlias) : List String :=
  typeParamsTexts a.typeParams ++ a.ty.texts

/-- The texts of a class. -/
def Class.texts (c : Class) : List String :=
  typeParamsTexts c.typeParams ++ (optTexts c.super ++ (tysTexts c.interfaces ++
    c.members.flatMap fun m => m.shape.texts))

/-- The texts of an enumeration. -/
def Enum.texts (e : Enum) : List String :=
  e.members.flatMap EnumMember.texts

/-- The texts of a statement that declares variables. -/
def Variables.texts (v : Variables) : List String :=
  v.declarators.flatMap Declarator.texts

mutual

/-- The texts of a namespace. -/
def Namespace.texts : Namespace → List String
  | ⟨_, _, items⟩ => itemsTexts items

/-- The texts of a declaration. -/
def Decl.texts : Decl → List String
  | .ns n => n.texts
  | .interface i => i.texts
  | .enum e => e.texts
  | .typeAlias a => a.texts
  | .cls c => c.texts
  | .function f => f.texts
  | .vars v => v.texts

/-- The texts of an item. -/
def Item.texts : Item → List String
  | .decl d => d.texts
  | .ambientModule _ items => itemsTexts items
  | .exportStatement e => e.texts

/-- The texts of each item of a list. -/
def itemsTexts : List Item → List String
  | [] => []
  | i :: is => i.texts ++ itemsTexts is

end

/-- The texts of a file in which another one that is alike can differ, in their order. -/
def File.texts (f : File) : List String :=
  itemsTexts f.items

variable {S}

theorem DiffersIn.option {a b : Option String} (h : Option.Rel S a b) :
    DiffersIn S a.toList b.toList a b := by
  cases h with
  | none => exact .same none
  | some h => exact (DiffersIn.text h).map some

theorem DiffersIn.flatMap {α : Type} {R : α → α → Prop} {texts : α → List String}
    (hR : ∀ {a b}, R a b → DiffersIn S (texts a) (texts b) a b) {as bs : List α}
    (h : List.Forall₂ R as bs) : DiffersIn S (as.flatMap texts) (bs.flatMap texts) as bs := by
  induction h with
  | nil => exact .same []
  | cons h _ ih =>
    rw [List.flatMap_cons, List.flatMap_cons]
    exact ((hR h).append ih).map fun x => x.1 :: x.2

theorem ClassMemberShape.Like.differsIn {s t : ClassMemberShape} (h : s.Like S t) :
    DiffersIn S s.texts t.texts s t := by
  cases h with
  | property optional readonly modifiers hn ht =>
    exact ((DiffersIn.text hn).append (opt_differsIn _ ht)).map fun x =>
      ClassMemberShape.property x.1 x.2 optional readonly modifiers
  | method optional modifiers hn hs ht =>
    exact ((DiffersIn.text hn).append ((Signature.Like.differsIn _ hs).append
      (opt_differsIn _ ht))).map fun x =>
        ClassMemberShape.method x.1 optional x.2.1 x.2.2 modifiers
  | constructor visibility ha =>
    exact (params_differIn _ ha).map (ClassMemberShape.constructor visibility)
  | index h => exact (IndexSignature.Like.differsIn _ h).map ClassMemberShape.index
  | accessor h => exact (Accessor.Like.differsIn _ h).map ClassMemberShape.accessor

theorem ClassMember.Like.differsIn {m n : ClassMember} (h : m.Like S n) :
    DiffersIn S m.shape.texts n.shape.texts m n := by
  cases m with
  | mk doc s =>
    cases n with
    | mk _ t =>
      obtain ⟨rfl, hs⟩ := h
      exact hs.differsIn.map (ClassMember.mk doc)

theorem EnumMember.Like.differsIn {m n : EnumMember} (h : m.Like S n) :
    DiffersIn S m.texts n.texts m n := by
  cases m with
  | mk name doc initializer =>
    cases n with
    | mk _ _ _ =>
      obtain ⟨hn, rfl, hi⟩ := h
      exact ((DiffersIn.text hn).append (.option hi)).map fun x => EnumMember.mk x.1 doc x.2

theorem Declarator.Like.differsIn {d e : Declarator} (h : d.Like S e) :
    DiffersIn S d.texts e.texts d e :=
  ((DiffersIn.text h.name).append ((opt_differsIn _ h.ty).append (.option h.initializer))).map
    fun x => Declarator.mk x.1 x.2.1 x.2.2

theorem ExportedName.Like.differsIn {n m : String × Option String}
    (h : ExportedName.Like S n m) : DiffersIn S (exportedTexts n) (exportedTexts m) n m :=
  (DiffersIn.text h.name).append (.option h.outside)

theorem Export.Like.differsIn {e f : Export} (h : e.Like S f) :
    DiffersIn S e.texts f.texts e f := by
  cases h with
  | assign name => exact .same (Export.assign name)
  | default name => exact .same (Export.default name)
  | named h => exact (DiffersIn.flatMap ExportedName.Like.differsIn h).map Export.named

theorem Function.Like.differsIn {f g : Function} (h : f.Like S g) :
    DiffersIn S f.texts g.texts f g := by
  cases f with
  | mk name doc sig result =>
    cases g with
    | mk _ _ _ _ =>
      obtain ⟨rfl, rfl, hs, hr⟩ := h
      exact ((Signature.Like.differsIn _ hs).append (opt_differsIn _ hr)).map fun x =>
        Function.mk name doc x.1 x.2

theorem Interface.Like.differsIn {i j : Interface} (h : i.Like S j) :
    DiffersIn S i.texts j.texts i j := by
  cases i with
  | mk name doc typeParams supers members =>
    cases j with
    | mk _ _ _ _ _ =>
      obtain ⟨rfl, rfl, hp, hs, hm⟩ := h
      exact ((typeParams_differIn _ hp).append ((tys_differIn _ hs).append
        (members_differIn _ hm))).map fun x => Interface.mk name doc x.1 x.2.1 x.2.2

theorem TypeAlias.Like.differsIn {a b : TypeAlias} (h : a.Like S b) :
    DiffersIn S a.texts b.texts a b := by
  cases a with
  | mk name doc typeParams ty =>
    cases b with
    | mk _ _ _ _ =>
      obtain ⟨rfl, rfl, hp, ht⟩ := h
      exact ((typeParams_differIn _ hp).append (Ty.Like.differsIn _ ht)).map fun x =>
        TypeAlias.mk name doc x.1 x.2

theorem Class.Like.differsIn {c d : Class} (h : c.Like S d) :
    DiffersIn S c.texts d.texts c d := by
  cases c with
  | mk name doc isAbstract typeParams super interfaces members =>
    cases d with
    | mk _ _ _ _ _ _ _ =>
      obtain ⟨rfl, rfl, rfl, hp, hs, hi, hm⟩ := h
      exact ((typeParams_differIn _ hp).append ((opt_differsIn _ hs).append
        ((tys_differIn _ hi).append (.flatMap ClassMember.Like.differsIn hm)))).map fun x =>
          Class.mk name doc isAbstract x.1 x.2.1 x.2.2.1 x.2.2.2

theorem Enum.Like.differsIn {e f : Enum} (h : e.Like S f) : DiffersIn S e.texts f.texts e f := by
  cases e with
  | mk name doc isConst members =>
    cases f with
    | mk _ _ _ _ =>
      obtain ⟨rfl, rfl, rfl, hm⟩ := h
      exact (DiffersIn.flatMap EnumMember.Like.differsIn hm).map (Enum.mk name doc isConst)

theorem Variables.Like.differsIn {v w : Variables} (h : v.Like S w) :
    DiffersIn S v.texts w.texts v w := by
  cases v with
  | mk doc kind declarators =>
    cases w with
    | mk _ _ _ =>
      obtain ⟨rfl, rfl, hd⟩ := h
      exact (DiffersIn.flatMap Declarator.Like.differsIn hd).map (Variables.mk doc kind)

mutual

theorem Namespace.Like.differsIn : (n : Namespace) → {m : Namespace} → n.Like S m →
    DiffersIn S n.texts m.texts n m
  | ⟨name, doc, is⟩, _, .mk _ _ h => (items_differIn is h).map (Namespace.mk name doc)

theorem Decl.Like.differsIn : (d : Decl) → {e : Decl} → d.Like S e →
    DiffersIn S d.texts e.texts d e
  | .ns n, _, .ns h => (Namespace.Like.differsIn n h).map Decl.ns
  | .interface _, _, .interface h => h.differsIn.map Decl.interface
  | .enum _, _, .enum h => h.differsIn.map Decl.enum
  | .typeAlias _, _, .typeAlias h => h.differsIn.map Decl.typeAlias
  | .cls _, _, .cls h => h.differsIn.map Decl.cls
  | .function _, _, .function h => h.differsIn.map Decl.function
  | .vars _, _, .vars h => h.differsIn.map Decl.vars

theorem Item.Like.differsIn : (i : Item) → {j : Item} → i.Like S j →
    DiffersIn S i.texts j.texts i j
  | .decl d, _, .decl h => (Decl.Like.differsIn d h).map Item.decl
  | .ambientModule name is, _, .ambientModule _ h =>
    (items_differIn is h).map (Item.ambientModule name)
  | .exportStatement _, _, .exportStatement h => h.differsIn.map Item.exportStatement

theorem items_differIn : (is : List Item) → {js : List Item} →
    List.Forall₂ (Item.Like S) is js → DiffersIn S (itemsTexts is) (itemsTexts js) is js
  | [], _, .nil => .same []
  | i :: is, _, .cons h hs =>
    ((Item.Like.differsIn i h).append (items_differIn is hs)).map fun x => x.1 :: x.2

end

/-- **Files that are alike differ in their texts only.** -/
theorem File.Like.differsIn {f g : File} (h : f.Like S g) : DiffersIn S f.texts g.texts f g :=
  (items_differIn _ h.items).map File.mk

/-! ## Printing -/

theorem forall₂_print {α : Type} {R : α → α → Prop} {f : α → String}
    (hf : ∀ {a b}, R a b → S (f a) (f b)) {as bs : List α} (h : List.Forall₂ R as bs) :
    List.Forall₂ S (as.map f) (bs.map f) := by
  induction h with
  | nil => exact .nil
  | cons h _ ih => exact .cons (hf h) ih

section Print

variable (hS : Joins S)
include hS

theorem Joins.elim {f : String → String} (hf : ∀ {a b}, S a b → S (f a) (f b)) {a b : Option String}
    (h : Option.Rel S a b) : S (a.elim "" f) (b.elim "" f) := by
  cases h with
  | none => exact hS.refl _
  | some h => exact hf h

theorem Joins.listAfter (word : String) {as bs : List String} (h : List.Forall₂ S as bs) :
    S (listAfter word as) (Ambient.listAfter word bs) := by
  cases h with
  | nil => exact hS.refl _
  | cons h hs => exact hS.behind _ (hS.intercalate _ (.cons h hs))

theorem ClassMemberShape.Like.print (level : Nat) {s t : ClassMemberShape} (h : s.Like S t) :
    S (s.print level) (t.print level) := by
  cases h with
  | property _ _ _ hn ht =>
    exact hS.append (hS.before (hS.behind _ hn) _) (opt_print hS level _ _ ht)
  | method _ _ hn hs ht =>
    exact hS.append (hS.append (hS.before (hS.behind _ hn) _) (Signature.Like.print hS _ hs))
      (opt_print hS 0 _ _ ht)
  | constructor _ ha => exact hS.before (hS.behind _ (hS.intercalate _ (params_print hS _ ha))) _
  | index h => exact IndexSignature.Like.print hS _ h
  | accessor h => exact Accessor.Like.print hS _ h

theorem ClassMember.Like.print (level : Nat) {m n : ClassMember} (h : m.Like S n) :
    S (m.print level) (n.print level) := by
  rw [ClassMember.print, ClassMember.print, h.doc]
  exact hS.before (hS.behind _ (h.shape.print hS level)) _

theorem enumMembers_print (level : Nat) {ms ns : List EnumMember}
    (h : List.Forall₂ (EnumMember.Like S) ms ns) :
    List.Forall₂ S (printEnumMembers level ms) (printEnumMembers level ns) := by
  induction h with
  | nil => exact .nil
  | cons h hs ih =>
    rw [printEnumMembers, printEnumMembers, h.doc, isEmpty_eq_of_forall₂ hs]
    refine .cons (hS.before (hS.before (hS.append (hS.behind _ h.name) ?_) _) _) ih
    exact hS.elim (fun h => hS.behind _ h) h.initializer

theorem Declarator.Like.print (level : Nat) {d e : Declarator} (h : d.Like S e) :
    S (d.print level) (e.print level) :=
  hS.append (hS.append h.name (opt_print hS level _ _ h.ty))
    (hS.elim (fun h => hS.behind _ h) h.initializer)

theorem Export.Like.print {e f : Export} (h : e.Like S f) : S e.print f.print := by
  cases h with
  | assign _ => exact hS.refl _
  | default _ => exact hS.refl _
  | named h =>
    rw [Export.print, Export.print, isEmpty_eq_of_forall₂ h]
    refine hS.before (hS.before (hS.behind _ (hS.listAfter _ (forall₂_print ?_ h))) _) _
    intro n m h
    exact hS.append h.name (hS.elim (fun h => hS.behind _ h) h.outside)

theorem Function.Like.print (p : Place) (level : Nat) {f g : Function} (h : f.Like S g) :
    S (f.print p level) (g.print p level) := by
  rw [Function.print, Function.print, h.doc, h.name]
  exact hS.before (hS.append (hS.behind _ (Signature.Like.print hS _ h.sig))
    (opt_print hS 0 _ _ h.result)) _

theorem Interface.Like.print (p : Place) (level : Nat) {i j : Interface} (h : i.Like S j) :
    S (i.print p level) (j.print p level) := by
  rw [Interface.print, Interface.print, h.doc, h.name]
  exact hS.before (hS.before (hS.append (hS.before (hS.append
    (hS.behind _ (hS.angled (typeParams_print hS _ h.typeParams)))
    (hS.listAfter _ (tys_print hS 0 _ h.supers))) _)
    (hS.join (memberLines_print hS _ _ h.members))) _) _

theorem TypeAlias.Like.print (p : Place) (level : Nat) {a b : TypeAlias} (h : a.Like S b) :
    S (a.print p level) (b.print p level) := by
  rw [TypeAlias.print, TypeAlias.print, h.doc, h.name]
  exact hS.before (hS.append (hS.before (hS.behind _ (hS.angled
    (typeParams_print hS _ h.typeParams))) _) (Ty.Like.print hS level _ h.ty)) _

theorem Class.Like.print (p : Place) (level : Nat) {c d : Class} (h : c.Like S d) :
    S (c.print p level) (d.print p level) := by
  rw [Class.print, Class.print, h.doc, h.isAbstract, h.name]
  exact hS.before (hS.before (hS.append (hS.before (hS.append (hS.append
    (hS.behind _ (hS.angled (typeParams_print hS _ h.typeParams)))
    (opt_print hS 0 _ _ h.super)) (hS.listAfter _ (tys_print hS 0 _ h.interfaces))) _)
    (hS.join (forall₂_print (fun h => h.print hS (level + 1)) h.members))) _) _

theorem Enum.Like.print (p : Place) (level : Nat) {e f : Enum} (h : e.Like S f) :
    S (e.print p level) (f.print p level) := by
  rw [Enum.print, Enum.print, h.doc, h.isConst, h.name]
  exact hS.before (hS.before (hS.behind _ (hS.join (enumMembers_print hS _ h.members))) _) _

theorem Variables.Like.print (p : Place) (level : Nat) {v w : Variables} (h : v.Like S w) :
    S (v.print p level) (w.print p level) := by
  rw [Variables.print, Variables.print, h.doc, h.kind]
  exact hS.before (hS.behind _ (hS.intercalate _
    (forall₂_print (fun h => h.print hS level) h.declarators))) _

set_option linter.unusedSectionVars false in
mutual

theorem Decl.Like.print (p : Place) (level : Nat) : (d : Decl) → {e : Decl} → d.Like S e →
    S (d.print p level) (e.print p level)
  | .ns n, _, .ns h => by
    rw [Decl.print, Decl.print]
    exact Namespace.Like.print p level n h
  | .interface _, _, .interface h => by
    rw [Decl.print, Decl.print]
    exact h.print hS p level
  | .enum _, _, .enum h => by
    rw [Decl.print, Decl.print]
    exact h.print hS p level
  | .typeAlias _, _, .typeAlias h => by
    rw [Decl.print, Decl.print]
    exact h.print hS p level
  | .cls _, _, .cls h => by
    rw [Decl.print, Decl.print]
    exact h.print hS p level
  | .function _, _, .function h => by
    rw [Decl.print, Decl.print]
    exact h.print hS p level
  | .vars _, _, .vars h => by
    rw [Decl.print, Decl.print]
    exact h.print hS p level
termination_by structural x => x

theorem Namespace.Like.print (p : Place) (level : Nat) : (n : Namespace) → {m : Namespace} →
    n.Like S m → S (n.print p level) (m.print p level)
  | ⟨_, _, is⟩, _, .mk _ _ h => by
    rw [Namespace.print, Namespace.print]
    exact hS.before (hS.before (hS.behind _ (hS.join (body_print _ is h))) _) _
termination_by structural x => x

theorem Item.Like.print (p : Place) (level : Nat) : (i : Item) → {j : Item} → i.Like S j →
    S (i.print p level) (j.print p level)
  | .decl d, _, .decl h => by
    rw [Item.print, Item.print]
    exact Decl.Like.print p level d h
  | .ambientModule _ is, _, .ambientModule _ h => by
    rw [Item.print, Item.print]
    exact hS.before (hS.before (hS.behind _ (hS.join (body_print _ is h))) _) _
  | .exportStatement _, _, .exportStatement h => by
    rw [Item.print, Item.print]
    exact hS.behind _ (h.print hS)
termination_by structural x => x

theorem body_print (level : Nat) : (is : List Item) → {js : List Item} →
    List.Forall₂ (Item.Like S) is js → List.Forall₂ S (printBody level is) (printBody level js)
  | [], _, .nil => .nil
  | i :: is, _, .cons h hs => .cons (Item.Like.print _ level i h) (body_print level is hs)
termination_by structural x => x

end

theorem printItems_like (p : Place) (level : Nat) {is js : List Item}
    (h : List.Forall₂ (Item.Like S) is js) : S (printItems p level is) (printItems p level js) :=
  hS.join (forall₂_print (fun h => Item.Like.print hS p level _ h) h)

end Print

end Ambient
