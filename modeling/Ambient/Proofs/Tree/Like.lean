import Ambient.Tree.TyPrinter
import Mathlib.Data.List.Forall2
import Mathlib.Data.Option.Basic

/-!
# Types that differ in texts kept as written

Some texts of a tree are copied from the source as they stand there: template literals, computed
names, patterns and initializers. Two trees are alike under a relation between texts (`Ty.Like`)
when they are the same except for such texts, and these are related: each text of the one (`texts`)
to the text of the other one in the same place (`Ty.Like.differsIn`). Where the relation is closed
under joining texts (`Joins`), types that are alike are printed to related texts (`Ty.Like.print`).
-/

namespace Ambient

/-! ## Relations between texts -/

/-- A relation between texts that holds between a text and itself, and between joined texts when it
holds between their parts. -/
structure Joins (S : String → String → Prop) : Prop where
  refl (s : String) : S s s
  append {a a' b b' : String} (ha : S a a') (hb : S b b') : S (a ++ b) (a' ++ b')

theorem joins_eq : Joins (· = ·) :=
  ⟨fun _ => rfl, fun ha hb => by rw [ha, hb]⟩

variable (S : String → String → Prop)

/-! ## Types -/

mutual

/-- Types that differ in texts kept as written only. -/
inductive Ty.Like : Ty → Ty → Prop
  | named (name : String) {as bs : List Ty} (h : List.Forall₂ Ty.Like as bs) :
    Ty.Like (.named name as) (.named name bs)
  | primitive (p : Primitive) : Ty.Like (.primitive p) (.primitive p)
  | stringLiteral (s : String) : Ty.Like (.stringLiteral s) (.stringLiteral s)
  | numberLiteral (s : String) : Ty.Like (.numberLiteral s) (.numberLiteral s)
  | booleanLiteral (b : Bool) : Ty.Like (.booleanLiteral b) (.booleanLiteral b)
  | union {as bs : List Ty} (h : List.Forall₂ Ty.Like as bs) : Ty.Like (.union as) (.union bs)
  | intersection {as bs : List Ty} (h : List.Forall₂ Ty.Like as bs) :
    Ty.Like (.intersection as) (.intersection bs)
  | function {f g : Signature} {t u : Ty} (hs : Signature.Like f g) (ht : Ty.Like t u) :
    Ty.Like (.function f t) (.function g u)
  | constructor (isAbstract : Bool) {f g : Signature} {t u : Ty} (hs : Signature.Like f g)
    (ht : Ty.Like t u) : Ty.Like (.constructor isAbstract f t) (.constructor isAbstract g u)
  | object {ms ns : List Member} (h : List.Forall₂ Member.Like ms ns) :
    Ty.Like (.object ms) (.object ns)
  | array {t u : Ty} (h : Ty.Like t u) : Ty.Like (.array t) (.array u)
  | tuple {es fs : List TupleElement} (h : List.Forall₂ TupleElement.Like es fs) :
    Ty.Like (.tuple es) (.tuple fs)
  | typeOf {v w : String} (h : S v w) : Ty.Like (.typeOf v) (.typeOf w)
  | keyOf {t u : Ty} (h : Ty.Like t u) : Ty.Like (.keyOf t) (.keyOf u)
  | operator (op : TypeOperator) {t u : Ty} (h : Ty.Like t u) :
    Ty.Like (.operator op t) (.operator op u)
  | indexAccess {t u i j : Ty} (ht : Ty.Like t u) (hi : Ty.Like i j) :
    Ty.Like (.indexAccess t i) (.indexAccess u j)
  | conditional {c d e f y z n o : Ty} (hc : Ty.Like c d) (he : Ty.Like e f) (hy : Ty.Like y z)
    (hn : Ty.Like n o) : Ty.Like (.conditional c e y n) (.conditional d f z o)
  | mapped (readonly optional : Option MappedModifier) {k l : String} {c d v w : Ty}
    {n o : Option Ty} (hk : S k l) (hc : Ty.Like c d) (hn : Option.Rel Ty.Like n o)
    (hv : Ty.Like v w) :
    Ty.Like (.mapped k c n v readonly optional) (.mapped l d o w readonly optional)
  | infer (name : String) : Ty.Like (.infer name) (.infer name)
  | template {s t : String} (h : S s t) : Ty.Like (.template s) (.template t)
  | imported (module : String) (qualifier : Option String) {as bs : List Ty}
    (h : List.Forall₂ Ty.Like as bs) :
    Ty.Like (.imported module qualifier as) (.imported module qualifier bs)
  | predicate (asserts : Bool) (subject : String) {t u : Option Ty} (h : Option.Rel Ty.Like t u) :
    Ty.Like (.predicate asserts subject t) (.predicate asserts subject u)
  | parenthesized {t u : Ty} (h : Ty.Like t u) : Ty.Like (.parenthesized t) (.parenthesized u)
  | this : Ty.Like .this .this

/-- Signatures that differ in texts kept as written only. -/
inductive Signature.Like : Signature → Signature → Prop
  | mk {ps qs : List TypeParam} {r s : Option Ty} {as bs : List Param}
    (hp : List.Forall₂ TypeParam.Like ps qs) (hr : Option.Rel Ty.Like r s)
    (ha : List.Forall₂ Param.Like as bs) : Signature.Like ⟨ps, r, as⟩ ⟨qs, s, bs⟩

/-- Type parameters that differ in texts kept as written only. -/
inductive TypeParam.Like : TypeParam → TypeParam → Prop
  | mk (name : String) (modifiers : List TypeParamModifier) {c d e f : Option Ty}
    (hc : Option.Rel Ty.Like c d) (he : Option.Rel Ty.Like e f) :
    TypeParam.Like ⟨name, modifiers, c, e⟩ ⟨name, modifiers, d, f⟩

/-- Parameters that differ in texts kept as written only. -/
inductive Param.Like : Param → Param → Prop
  | mk (optional rest : Bool) {n m : String} {t u : Option Ty} (hn : S n m)
    (ht : Option.Rel Ty.Like t u) : Param.Like ⟨n, t, optional, rest⟩ ⟨m, u, optional, rest⟩

/-- Elements of a tuple that differ in texts kept as written only. -/
inductive TupleElement.Like : TupleElement → TupleElement → Prop
  | mk (optional rest : Bool) {n m : Option String} {t u : Ty} (hn : Option.Rel S n m)
    (ht : Ty.Like t u) : TupleElement.Like ⟨n, t, optional, rest⟩ ⟨m, u, optional, rest⟩

/-- Members that differ in texts kept as written only. -/
inductive Member.Like : Member → Member → Prop
  | mk (doc : Option String) {s t : MemberShape} (h : MemberShape.Like s t) :
    Member.Like ⟨doc, s⟩ ⟨doc, t⟩

/-- Members without documentation that differ in texts kept as written only. -/
inductive MemberShape.Like : MemberShape → MemberShape → Prop
  | property (optional readonly : Bool) {n m : String} {t u : Option Ty} (hn : S n m)
    (ht : Option.Rel Ty.Like t u) :
    MemberShape.Like (.property n t optional readonly) (.property m u optional readonly)
  | method (optional : Bool) {n m : String} {f g : Signature} {t u : Option Ty} (hn : S n m)
    (hs : Signature.Like f g) (ht : Option.Rel Ty.Like t u) :
    MemberShape.Like (.method n optional f t) (.method m optional g u)
  | call {f g : Signature} {t u : Option Ty} (hs : Signature.Like f g)
    (ht : Option.Rel Ty.Like t u) : MemberShape.Like (.call f t) (.call g u)
  | construct {ps qs : List TypeParam} {as bs : List Param} {t u : Option Ty}
    (hp : List.Forall₂ TypeParam.Like ps qs) (ha : List.Forall₂ Param.Like as bs)
    (ht : Option.Rel Ty.Like t u) : MemberShape.Like (.construct ps as t) (.construct qs bs u)
  | index {i j : IndexSignature} (h : IndexSignature.Like i j) :
    MemberShape.Like (.index i) (.index j)
  | accessor {a b : Accessor} (h : Accessor.Like a b) : MemberShape.Like (.accessor a) (.accessor b)

/-- Index signatures that differ in texts kept as written only. -/
inductive IndexSignature.Like : IndexSignature → IndexSignature → Prop
  | mk (readonly isStatic : Bool) {k l : String} {t u v w : Ty} (hk : S k l) (ht : Ty.Like t u)
    (hv : Ty.Like v w) : IndexSignature.Like ⟨k, t, v, readonly, isStatic⟩ ⟨l, u, w, readonly, isStatic⟩

/-- Accessors that differ in texts kept as written only. -/
inductive Accessor.Like : Accessor → Accessor → Prop
  | mk (kind : AccessorKind) (modifiers : MemberModifiers) {n m : String} {as bs : List Param}
    {t u : Option Ty} (hn : S n m) (ha : List.Forall₂ Param.Like as bs)
    (ht : Option.Rel Ty.Like t u) :
    Accessor.Like ⟨n, kind, as, t, modifiers⟩ ⟨m, kind, bs, u, modifiers⟩

end

/-! ## The texts kept as written -/

mutual

/-- The texts of a type in which another one that is alike can differ, in their order. -/
def Ty.texts : Ty → List String
  | .named _ args => tysTexts args
  | .primitive _ | .stringLiteral _ | .numberLiteral _ | .booleanLiteral _ => []
  | .union ts | .intersection ts => tysTexts ts
  | .function sig result | .constructor _ sig result => sig.texts ++ result.texts
  | .object ms => membersTexts ms
  | .array t | .keyOf t | .operator _ t | .parenthesized t => t.texts
  | .tuple es => elementsTexts es
  | .typeOf value => [value]
  | .indexAccess object index => object.texts ++ index.texts
  | .conditional check super yes no => check.texts ++ (super.texts ++ (yes.texts ++ no.texts))
  | .mapped key constraint name value _ _ =>
    [key] ++ (constraint.texts ++ (optTexts name ++ value.texts))
  | .infer _ | .this => []
  | .template text => [text]
  | .imported _ _ args => tysTexts args
  | .predicate _ _ ty => optTexts ty

/-- The texts of each type of a list. -/
def tysTexts : List Ty → List String
  | [] => []
  | t :: ts => t.texts ++ tysTexts ts

/-- The texts of a type, if there is one. -/
def optTexts : Option Ty → List String
  | none => []
  | some t => t.texts

/-- The texts of a signature. -/
def Signature.texts : Signature → List String
  | ⟨typeParams, receiver, params⟩ =>
    typeParamsTexts typeParams ++ (optTexts receiver ++ paramsTexts params)

/-- The texts of type parameters. -/
def typeParamsTexts : List TypeParam → List String
  | [] => []
  | ⟨_, _, constraint, default⟩ :: ps =>
    (optTexts constraint ++ optTexts default) ++ typeParamsTexts ps

/-- The texts of parameters, with their names. -/
def paramsTexts : List Param → List String
  | [] => []
  | ⟨name, ty, _, _⟩ :: ps => ([name] ++ optTexts ty) ++ paramsTexts ps

/-- The texts of the elements of a tuple, with their names. -/
def elementsTexts : List TupleElement → List String
  | [] => []
  | ⟨name, ty, _, _⟩ :: es => (name.toList ++ ty.texts) ++ elementsTexts es

/-- The texts of members. -/
def membersTexts : List Member → List String
  | [] => []
  | ⟨_, shape⟩ :: ms => shape.texts ++ membersTexts ms

/-- The texts of a member, with its name. -/
def MemberShape.texts : MemberShape → List String
  | .property name ty _ _ => [name] ++ optTexts ty
  | .method name _ sig result => [name] ++ (sig.texts ++ optTexts result)
  | .call sig result => sig.texts ++ optTexts result
  | .construct typeParams params result =>
    typeParamsTexts typeParams ++ (paramsTexts params ++ optTexts result)
  | .index sig => sig.texts
  | .accessor a => a.texts

/-- The texts of an index signature, with the name of its key. -/
def IndexSignature.texts : IndexSignature → List String
  | ⟨key, keyType, valueType, _, _⟩ => [key] ++ (keyType.texts ++ valueType.texts)

/-- The texts of an accessor, with its name. -/
def Accessor.texts : Accessor → List String
  | ⟨name, _, params, result, _⟩ => [name] ++ (paramsTexts params ++ optTexts result)

end

/-- Values that differ in these texts only, which are related one by one. -/
def DiffersIn {α : Type} (xs ys : List String) (a b : α) : Prop :=
  List.Forall₂ S xs ys ∧ (xs = ys → a = b)

variable {S}

namespace DiffersIn

variable {α β : Type} {xs ys xs' ys' : List String} {a b : α} {c d : β}

theorem same (a : α) : DiffersIn S [] [] a a :=
  ⟨.nil, fun _ => rfl⟩

theorem text {x y : String} (h : S x y) : DiffersIn S [x] [y] x y :=
  ⟨.cons h .nil, fun h => List.singleton_inj.1 h⟩

theorem append (h : DiffersIn S xs ys a b) (h' : DiffersIn S xs' ys' c d) :
    DiffersIn S (xs ++ xs') (ys ++ ys') (a, c) (b, d) := by
  refine ⟨List.rel_append h.1 h'.1, fun he => ?_⟩
  obtain ⟨hxs, hxs'⟩ := List.append_inj he h.1.length_eq
  rw [h.2 hxs, h'.2 hxs']

theorem map (h : DiffersIn S xs ys a b) (f : α → β) : DiffersIn S xs ys (f a) (f b) :=
  ⟨h.1, fun he => congrArg f (h.2 he)⟩

theorem eq (h : DiffersIn (· = ·) xs ys a b) : a = b :=
  h.2 (List.forall₂_eq_eq_eq ▸ h.1)

/-- Where two values differ, two of the texts do. -/
theorem eq_or_exists (h : DiffersIn S xs ys a b) :
    a = b ∨ ∃ x y, (x, y) ∈ xs.zip ys ∧ x ≠ y ∧ S x y := by
  rw [or_iff_not_imp_right]
  intro hsame
  refine h.2 ?_
  have hall : List.Forall₂ (· = ·) xs ys := by
    refine List.forall₂_iff_zip.2 ⟨h.1.length_eq, fun {x y} hmem => ?_⟩
    by_contra hne
    exact hsame ⟨x, y, hmem, hne, (List.forall₂_iff_zip.1 h.1).2 hmem⟩
  exact List.forall₂_eq_eq_eq ▸ hall

end DiffersIn

mutual

/-- **Types that are alike differ in their texts only.** -/
theorem Ty.Like.differsIn : (t : Ty) → {u : Ty} → t.Like S u → DiffersIn S t.texts u.texts t u
  | .named name as, _, .named _ h => (tys_differIn as h).map (Ty.named name)
  | .primitive p, _, .primitive _ => .same _
  | .stringLiteral s, _, .stringLiteral _ => .same _
  | .numberLiteral s, _, .numberLiteral _ => .same _
  | .booleanLiteral b, _, .booleanLiteral _ => .same _
  | .union as, _, .union h => (tys_differIn as h).map Ty.union
  | .intersection as, _, .intersection h => (tys_differIn as h).map Ty.intersection
  | .function f t, _, .function hs ht =>
    ((Signature.Like.differsIn f hs).append (Ty.Like.differsIn t ht)).map fun x =>
      Ty.function x.1 x.2
  | .constructor isAbstract f t, _, .constructor _ hs ht =>
    ((Signature.Like.differsIn f hs).append (Ty.Like.differsIn t ht)).map fun x =>
      Ty.constructor isAbstract x.1 x.2
  | .object ms, _, .object h => (members_differIn ms h).map Ty.object
  | .array t, _, .array h => (Ty.Like.differsIn t h).map Ty.array
  | .tuple es, _, .tuple h => (elements_differIn es h).map Ty.tuple
  | .typeOf v, _, .typeOf h => (DiffersIn.text h).map Ty.typeOf
  | .keyOf t, _, .keyOf h => (Ty.Like.differsIn t h).map Ty.keyOf
  | .operator op t, _, .operator _ h => (Ty.Like.differsIn t h).map (Ty.operator op)
  | .indexAccess t i, _, .indexAccess ht hi =>
    ((Ty.Like.differsIn t ht).append (Ty.Like.differsIn i hi)).map fun x => Ty.indexAccess x.1 x.2
  | .conditional c e y n, _, .conditional hc he hy hn =>
    ((Ty.Like.differsIn c hc).append ((Ty.Like.differsIn e he).append
      ((Ty.Like.differsIn y hy).append (Ty.Like.differsIn n hn)))).map fun x =>
        Ty.conditional x.1 x.2.1 x.2.2.1 x.2.2.2
  | .mapped k c n v readonly optional, _, .mapped _ _ hk hc hn hv =>
    ((DiffersIn.text hk).append ((Ty.Like.differsIn c hc).append
      ((opt_differsIn n hn).append (Ty.Like.differsIn v hv)))).map fun x =>
        Ty.mapped x.1 x.2.1 x.2.2.1 x.2.2.2 readonly optional
  | .infer _, _, .infer _ => .same _
  | .template s, _, .template h => (DiffersIn.text h).map Ty.template
  | .imported module qualifier as, _, .imported _ _ h =>
    (tys_differIn as h).map (Ty.imported module qualifier)
  | .predicate asserts subject t, _, .predicate _ _ h =>
    (opt_differsIn t h).map (Ty.predicate asserts subject)
  | .parenthesized t, _, .parenthesized h => (Ty.Like.differsIn t h).map Ty.parenthesized
  | .this, _, .this => .same _

theorem tys_differIn : (as : List Ty) → {bs : List Ty} → List.Forall₂ (Ty.Like S) as bs →
    DiffersIn S (tysTexts as) (tysTexts bs) as bs
  | [], _, .nil => .same _
  | a :: as, _, .cons h hs =>
    ((Ty.Like.differsIn a h).append (tys_differIn as hs)).map fun x => x.1 :: x.2

theorem opt_differsIn : (t : Option Ty) → {u : Option Ty} → Option.Rel (Ty.Like S) t u →
    DiffersIn S (optTexts t) (optTexts u) t u
  | none, _, .none => .same _
  | some t, _, .some h => (Ty.Like.differsIn t h).map some

theorem Signature.Like.differsIn : (f : Signature) → {g : Signature} → f.Like S g →
    DiffersIn S f.texts g.texts f g
  | ⟨ps, r, as⟩, _, .mk hp hr ha =>
    ((typeParams_differIn ps hp).append ((opt_differsIn r hr).append (params_differIn as ha))).map
      fun x => Signature.mk x.1 x.2.1 x.2.2

theorem typeParams_differIn : (ps : List TypeParam) → {qs : List TypeParam} →
    List.Forall₂ (TypeParam.Like S) ps qs →
      DiffersIn S (typeParamsTexts ps) (typeParamsTexts qs) ps qs
  | [], _, .nil => .same _
  | ⟨name, modifiers, c, e⟩ :: ps, _, .cons (.mk _ _ hc he) hs =>
    (((opt_differsIn c hc).append (opt_differsIn e he)).append (typeParams_differIn ps hs)).map
      fun x => TypeParam.mk name modifiers x.1.1 x.1.2 :: x.2

theorem params_differIn : (ps : List Param) → {qs : List Param} →
    List.Forall₂ (Param.Like S) ps qs → DiffersIn S (paramsTexts ps) (paramsTexts qs) ps qs
  | [], _, .nil => .same _
  | ⟨_, t, optional, rest⟩ :: ps, _, .cons (.mk _ _ hn ht) hs =>
    (((DiffersIn.text hn).append (opt_differsIn t ht)).append (params_differIn ps hs)).map fun x =>
      Param.mk x.1.1 x.1.2 optional rest :: x.2

theorem elements_differIn : (es : List TupleElement) → {fs : List TupleElement} →
    List.Forall₂ (TupleElement.Like S) es fs →
      DiffersIn S (elementsTexts es) (elementsTexts fs) es fs
  | [], _, .nil => .same _
  | ⟨none, t, optional, rest⟩ :: es, _, .cons (.mk _ _ .none ht) hs =>
    ((Ty.Like.differsIn t ht).append (elements_differIn es hs)).map fun x =>
      TupleElement.mk none x.1 optional rest :: x.2
  | ⟨some _, t, optional, rest⟩ :: es, _, .cons (.mk _ _ (.some hn) ht) hs =>
    (((DiffersIn.text hn).append (Ty.Like.differsIn t ht)).append (elements_differIn es hs)).map
      fun x => TupleElement.mk (some x.1.1) x.1.2 optional rest :: x.2

theorem members_differIn : (ms : List Member) → {ns : List Member} →
    List.Forall₂ (Member.Like S) ms ns → DiffersIn S (membersTexts ms) (membersTexts ns) ms ns
  | [], _, .nil => .same _
  | ⟨doc, s⟩ :: ms, _, .cons (.mk _ h) hs =>
    ((MemberShape.Like.differsIn s h).append (members_differIn ms hs)).map fun x =>
      Member.mk doc x.1 :: x.2

theorem MemberShape.Like.differsIn : (s : MemberShape) → {t : MemberShape} → s.Like S t →
    DiffersIn S s.texts t.texts s t
  | .property _ t optional readonly, _, .property _ _ hn ht =>
    ((DiffersIn.text hn).append (opt_differsIn t ht)).map fun x =>
      MemberShape.property x.1 x.2 optional readonly
  | .method _ optional f t, _, .method _ hn hs ht =>
    ((DiffersIn.text hn).append ((Signature.Like.differsIn f hs).append (opt_differsIn t ht))).map
      fun x => MemberShape.method x.1 optional x.2.1 x.2.2
  | .call f t, _, .call hs ht =>
    ((Signature.Like.differsIn f hs).append (opt_differsIn t ht)).map fun x => MemberShape.call x.1 x.2
  | .construct ps as t, _, .construct hp ha ht =>
    ((typeParams_differIn ps hp).append ((params_differIn as ha).append (opt_differsIn t ht))).map
      fun x => MemberShape.construct x.1 x.2.1 x.2.2
  | .index i, _, .index h => (IndexSignature.Like.differsIn i h).map MemberShape.index
  | .accessor a, _, .accessor h => (Accessor.Like.differsIn a h).map MemberShape.accessor

theorem IndexSignature.Like.differsIn : (i : IndexSignature) → {j : IndexSignature} →
    i.Like S j → DiffersIn S i.texts j.texts i j
  | ⟨_, t, v, readonly, isStatic⟩, _, .mk _ _ hk ht hv =>
    ((DiffersIn.text hk).append ((Ty.Like.differsIn t ht).append (Ty.Like.differsIn v hv))).map
      fun x => IndexSignature.mk x.1 x.2.1 x.2.2 readonly isStatic

theorem Accessor.Like.differsIn : (a : Accessor) → {b : Accessor} → a.Like S b →
    DiffersIn S a.texts b.texts a b
  | ⟨_, kind, as, t, modifiers⟩, _, .mk _ _ hn ha ht =>
    ((DiffersIn.text hn).append ((params_differIn as ha).append (opt_differsIn t ht))).map fun x =>
      Accessor.mk x.1 kind x.2.1 x.2.2 modifiers

end

/-! ## Printing -/

namespace Joins

variable (hS : Joins S)
include hS

theorem join {as bs : List String} (h : List.Forall₂ S as bs) :
    S (String.join as) (String.join bs) := by
  induction h with
  | nil => exact hS.refl _
  | cons h _ ih =>
    rw [String.join_cons, String.join_cons]
    exact hS.append h ih

theorem intercalate (sep : String) {as bs : List String} (h : List.Forall₂ S as bs) :
    S (String.intercalate sep as) (String.intercalate sep bs) := by
  induction h with
  | nil => exact hS.refl _
  | cons h hs ih =>
    cases hs with
    | nil => simpa using h
    | cons h' hs =>
      rw [String.intercalate_cons_cons, String.intercalate_cons_cons]
      exact hS.append (hS.append h (hS.refl _)) ih

theorem angled {as bs : List String} (h : List.Forall₂ S as bs) :
    S (angled as) (Ambient.angled bs) := by
  cases h with
  | nil => exact hS.refl _
  | cons h hs => exact hS.append (hS.append (hS.refl _) (hS.intercalate _ (.cons h hs))) (hS.refl _)

theorem parens (c : Bool) {a b : String} (h : S a b) : S (parens c a) (Ambient.parens c b) := by
  cases c with
  | false => exact h
  | true => exact hS.append (hS.append (hS.refl _) h) (hS.refl _)

/-- A related text behind the same text. -/
theorem behind (a : String) {b c : String} (h : S b c) : S (a ++ b) (a ++ c) :=
  hS.append (hS.refl a) h

/-- A related text in front of the same text. -/
theorem before {a b : String} (h : S a b) (c : String) : S (a ++ c) (b ++ c) :=
  hS.append h (hS.refl c)

end Joins

namespace Ty.Like

variable {t u : Ty}

theorem looserThanUnion_eq (h : t.Like S u) : t.looserThanUnion = u.looserThanUnion := by
  cases h <;> rfl

theorem isUnion_eq (h : t.Like S u) : t.isUnion = u.isUnion := by
  cases h <;> rfl

theorem isConditional_eq (h : t.Like S u) : t.isConditional = u.isConditional := by
  cases h <;> rfl

theorem looserThanPostfix_eq (h : t.Like S u) : t.looserThanPostfix = u.looserThanPostfix := by
  cases h <;> rfl

end Ty.Like

theorem isEmpty_eq_of_forall₂ {α : Type} {R : α → α → Prop} {as bs : List α}
    (h : List.Forall₂ R as bs) : as.isEmpty = bs.isEmpty := by
  cases h <;> rfl

theorem any_doc_eq {ms ns : List Member} (h : List.Forall₂ (Member.Like S) ms ns) :
    (ms.any fun m => m.doc.isSome) = ns.any fun m => m.doc.isSome := by
  induction h with
  | nil => rfl
  | cons h _ ih =>
    obtain ⟨doc, hs⟩ := h
    rw [List.any_cons, List.any_cons, ih]

section Print

variable (hS : Joins S)
include hS

set_option linter.unusedSectionVars false in
mutual

/-- **Types that are alike are printed to related texts.** -/
theorem Ty.Like.print (level : Nat) : (t : Ty) → {u : Ty} → t.Like S u →
    S (t.print level) (u.print level)
  | .named name as, _, .named _ h => by
    rw [Ty.print, Ty.print]
    exact hS.behind _ (hS.angled (tys_print level as h))
  | .primitive _, _, .primitive _ => hS.refl _
  | .stringLiteral _, _, .stringLiteral _ => hS.refl _
  | .numberLiteral _, _, .numberLiteral _ => hS.refl _
  | .booleanLiteral _, _, .booleanLiteral _ => hS.refl _
  | .union as, _, .union h => by
    rw [Ty.print, Ty.print]
    exact hS.intercalate _ (operands_print level _ (fun h => h.looserThanUnion_eq) as h)
  | .intersection as, _, .intersection h => by
    rw [Ty.print, Ty.print]
    refine hS.intercalate _ (operands_print level _ (fun h => ?_) as h)
    rw [h.looserThanUnion_eq, h.isUnion_eq]
  | .function f t, _, .function hs ht => by
    rw [Ty.print, Ty.print]
    exact hS.append (hS.before (Signature.Like.print f hs) _) (Ty.Like.print level t ht)
  | .constructor _ f t, _, .constructor _ hs ht => by
    rw [Ty.print, Ty.print]
    exact hS.append (hS.before (hS.behind _ (Signature.Like.print f hs)) _)
      (Ty.Like.print level t ht)
  | .object ms, _, .object h => by
    rw [Ty.print, Ty.print, isEmpty_eq_of_forall₂ h, any_doc_eq h]
    split
    · exact hS.refl _
    split
    · exact hS.before (hS.before (hS.behind _ (hS.join (memberLines_print _ ms h))) _) _
    · exact hS.before (hS.behind _ (hS.join (members_print level ms h))) _
  | .array t, _, .array h => by
    rw [Ty.print, Ty.print, h.looserThanPostfix_eq]
    exact hS.before (hS.parens _ (Ty.Like.print level t h)) _
  | .tuple es, _, .tuple h => by
    rw [Ty.print, Ty.print]
    exact hS.before (hS.behind _ (hS.intercalate _ (elements_print level es h))) _
  | .typeOf _, _, .typeOf h => by
    rw [Ty.print, Ty.print]
    exact hS.behind _ h
  | .keyOf t, _, .keyOf h => by
    rw [Ty.print, Ty.print, h.looserThanPostfix_eq]
    exact hS.behind _ (hS.parens _ (Ty.Like.print level t h))
  | .operator _ t, _, .operator _ h => by
    rw [Ty.print, Ty.print, h.looserThanPostfix_eq]
    exact hS.behind _ (hS.parens _ (Ty.Like.print level t h))
  | .indexAccess t i, _, .indexAccess ht hi => by
    rw [Ty.print, Ty.print, ht.looserThanPostfix_eq]
    exact hS.before (hS.append (hS.before (hS.parens _ (Ty.Like.print level t ht)) _)
      (Ty.Like.print level i hi)) _
  | .conditional c e y n, _, .conditional hc he hy hn => by
    rw [Ty.print, Ty.print, hc.looserThanUnion_eq, he.isConditional_eq]
    exact hS.append (hS.before (hS.append (hS.before (hS.append (hS.before
      (hS.parens _ (Ty.Like.print level c hc)) _) (hS.parens _ (Ty.Like.print level e he))) _)
      (Ty.Like.print level y hy)) _) (Ty.Like.print level n hn)
  | .mapped _ c n v _ _, _, .mapped _ _ hk hc hn hv => by
    rw [Ty.print, Ty.print]
    exact hS.before (hS.append (hS.before (hS.before (hS.before (hS.append
      (hS.append (hS.before (hS.behind _ hk) _) (Ty.Like.print level c hc))
      (opt_print level _ n hn)) _) _) _) (Ty.Like.print level v hv)) _
  | .infer _, _, .infer _ => hS.refl _
  | .template _, _, .template h => by
    rw [Ty.print, Ty.print]
    exact h
  | .imported _ _ as, _, .imported _ _ h => by
    rw [Ty.print, Ty.print]
    exact hS.behind _ (hS.angled (tys_print level as h))
  | .predicate _ _ t, _, .predicate _ _ h => by
    rw [Ty.print, Ty.print]
    exact hS.behind _ (opt_print level _ t h)
  | .parenthesized t, _, .parenthesized h => by
    rw [Ty.print, Ty.print]
    exact hS.before (hS.behind _ (Ty.Like.print level t h)) _
  | .this, _, .this => hS.refl _
termination_by structural x => x

theorem tys_print (level : Nat) : (as : List Ty) → {bs : List Ty} →
    List.Forall₂ (Ty.Like S) as bs → List.Forall₂ S (printTys level as) (printTys level bs)
  | [], _, .nil => .nil
  | a :: as, _, .cons h hs => .cons (Ty.Like.print level a h) (tys_print level as hs)
termination_by structural x => x

theorem operands_print (level : Nat) (loose : Ty → Bool)
    (hl : ∀ {t u : Ty}, t.Like S u → loose t = loose u) : (as : List Ty) → {bs : List Ty} →
    List.Forall₂ (Ty.Like S) as bs →
      List.Forall₂ S (printOperands level loose as) (printOperands level loose bs)
  | [], _, .nil => .nil
  | a :: as, _, .cons h hs => by
    rw [printOperands, printOperands, hl h]
    exact .cons (hS.parens _ (Ty.Like.print level a h)) (operands_print level loose hl as hs)
termination_by structural x => x

theorem opt_print (level : Nat) (before : String) : (t : Option Ty) → {u : Option Ty} →
    Option.Rel (Ty.Like S) t u → S (printOpt level before t) (printOpt level before u)
  | none, _, .none => hS.refl _
  | some t, _, .some h => hS.behind _ (Ty.Like.print level t h)
termination_by structural x => x

theorem Signature.Like.print : (f : Signature) → {g : Signature} → f.Like S g →
    S f.print g.print
  | ⟨ps, r, as⟩, _, .mk hp hr ha => by
    rw [Signature.print, Signature.print]
    refine hS.before (hS.append (hS.before (hS.angled (typeParams_print ps hp)) _)
      (hS.intercalate _ ?_)) _
    exact List.rel_append (receiver_print r hr) (params_print as ha)
termination_by structural x => x

theorem receiver_print : (t : Option Ty) → {u : Option Ty} → Option.Rel (Ty.Like S) t u →
    List.Forall₂ S (printReceiver t) (printReceiver u)
  | none, _, .none => .nil
  | some t, _, .some h => .cons (hS.behind _ (Ty.Like.print 0 t h)) .nil
termination_by structural x => x

theorem typeParams_print : (ps : List TypeParam) → {qs : List TypeParam} →
    List.Forall₂ (TypeParam.Like S) ps qs →
      List.Forall₂ S (printTypeParams ps) (printTypeParams qs)
  | [], _, .nil => .nil
  | ⟨_, _, c, e⟩ :: ps, _, .cons (.mk _ _ hc he) hs =>
    .cons (hS.append (hS.behind _ (opt_print 0 _ c hc)) (opt_print 0 _ e he))
      (typeParams_print ps hs)
termination_by structural x => x

theorem params_print : (ps : List Param) → {qs : List Param} →
    List.Forall₂ (Param.Like S) ps qs → List.Forall₂ S (printParams ps) (printParams qs)
  | [], _, .nil => .nil
  | ⟨_, t, _, _⟩ :: ps, _, .cons (.mk _ _ hn ht) hs =>
    .cons (hS.append (hS.before (hS.behind _ hn) _) (opt_print 0 _ t ht)) (params_print ps hs)
termination_by structural x => x

theorem elements_print (level : Nat) : (es : List TupleElement) → {fs : List TupleElement} →
    List.Forall₂ (TupleElement.Like S) es fs →
      List.Forall₂ S (printElements level es) (printElements level fs)
  | [], _, .nil => .nil
  | ⟨none, t, _, _⟩ :: es, _, .cons (.mk _ _ .none ht) hs =>
    .cons (hS.behind _ (hS.before (Ty.Like.print level t ht) _)) (elements_print level es hs)
  | ⟨some _, t, _, _⟩ :: es, _, .cons (.mk _ _ (.some hn) ht) hs =>
    .cons (hS.behind _ (hS.append (hS.before (hS.before hn _) _) (Ty.Like.print level t ht)))
      (elements_print level es hs)
termination_by structural x => x

theorem members_print (level : Nat) : (ms : List Member) → {ns : List Member} →
    List.Forall₂ (Member.Like S) ms ns →
      List.Forall₂ S (printMembers level ms) (printMembers level ns)
  | [], _, .nil => .nil
  | ⟨_, s⟩ :: ms, _, .cons (.mk _ h) hs =>
    .cons (hS.before (MemberShape.Like.print level s h) _) (members_print level ms hs)
termination_by structural x => x

theorem memberLines_print (level : Nat) : (ms : List Member) → {ns : List Member} →
    List.Forall₂ (Member.Like S) ms ns →
      List.Forall₂ S (printMemberLines level ms) (printMemberLines level ns)
  | [], _, .nil => .nil
  | ⟨_, s⟩ :: ms, _, .cons (.mk _ h) hs =>
    .cons (hS.before (hS.behind _ (MemberShape.Like.print level s h)) _)
      (memberLines_print level ms hs)
termination_by structural x => x

theorem MemberShape.Like.print (level : Nat) : (s : MemberShape) → {t : MemberShape} →
    s.Like S t → S (s.print level) (t.print level)
  | .property _ t _ _, _, .property _ _ hn ht => by
    rw [MemberShape.print, MemberShape.print]
    exact hS.append (hS.before (hS.behind _ hn) _) (opt_print level _ t ht)
  | .method _ _ f t, _, .method _ hn hs ht => by
    rw [MemberShape.print, MemberShape.print]
    exact hS.append (hS.append (hS.before hn _) (Signature.Like.print f hs)) (opt_print 0 _ t ht)
  | .call f t, _, .call hs ht => by
    rw [MemberShape.print, MemberShape.print]
    exact hS.append (Signature.Like.print f hs) (opt_print 0 _ t ht)
  | .construct ps as t, _, .construct hp ha ht => by
    rw [MemberShape.print, MemberShape.print]
    exact hS.append (hS.before (hS.append (hS.before (hS.behind _
      (hS.angled (typeParams_print ps hp))) _) (hS.intercalate _ (params_print as ha))) _)
      (opt_print 0 _ t ht)
  | .index i, _, .index h => by
    rw [MemberShape.print, MemberShape.print]
    exact IndexSignature.Like.print i h
  | .accessor a, _, .accessor h => by
    rw [MemberShape.print, MemberShape.print]
    exact Accessor.Like.print a h
termination_by structural x => x

theorem IndexSignature.Like.print : (i : IndexSignature) → {j : IndexSignature} → i.Like S j →
    S i.print j.print
  | ⟨_, t, v, _, _⟩, _, .mk _ _ hk ht hv => by
    rw [IndexSignature.print, IndexSignature.print]
    exact hS.append (hS.before (hS.append (hS.before (hS.behind _ hk) _) (Ty.Like.print 0 t ht)) _)
      (Ty.Like.print 0 v hv)
termination_by structural x => x

theorem Accessor.Like.print : (a : Accessor) → {b : Accessor} → a.Like S b → S a.print b.print
  | ⟨_, _, as, t, _⟩, _, .mk _ _ hn ha ht => by
    rw [Accessor.print, Accessor.print]
    exact hS.append (hS.before (hS.append (hS.before (hS.behind _ hn) _)
      (hS.intercalate _ (params_print as ha))) _) (opt_print 0 _ t ht)
termination_by structural x => x

end

end Print

end Ambient
