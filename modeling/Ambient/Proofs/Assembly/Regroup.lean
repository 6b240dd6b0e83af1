import Ambient.Proofs.Assembly.Partition

/-!
# Copies are sorted by kind

A namespace is copied by filling an empty one in a pass for each kind, where every declaration is
copied itself before it is added (`Namespace.refill`). No container on the way refuses anything, and
what comes out is `Namespace.regrouped` (`Namespace.refill_eq`).

`Namespace.regrouped_stable` says what that is, at every depth: the declarations of the body in the
stable order by kind. `Decl.regrouped_normal` says which declarations are their own copies: those
whose namespaces have that order everywhere already, among them all copies.

What holds of all declarations is proved along the namespaces in them (`Decl.nested_induction`).
-/

namespace Ambient

/-! ## Declarations along their namespaces -/

/-- A property of the declarations that hold no others, which a namespace has if the declarations in
its body have it. -/
@[elab_as_elim]
theorem Decl.nested_induction {P : Decl → Prop} (leaf : ∀ d : Decl, d.kind ≠ .ns → P d)
    (ns : ∀ n : Namespace, (∀ d, .decl d ∈ n.items → P d) → P (.ns n)) : (d : Decl) → P d
  | .ns ⟨name, doc, items⟩ =>
    ns ⟨name, doc, items⟩ fun d hd =>
      -- the declarations of a body are behind a list, where the recursion does not see them
      have : sizeOf (Item.decl d) < sizeOf items := List.sizeOf_lt_of_mem hd
      Decl.nested_induction leaf ns d
  | .interface _ | .enum _ | .typeAlias _ | .cls _ | .function _ | .vars _ =>
    leaf _ (by simp [Decl.kind])
termination_by d => sizeOf d
decreasing_by simp_all; omega

/-- A declaration with another namespace in place of the one that it is. -/
def Decl.mapNamespace (f : Namespace → Namespace) : Decl → Decl
  | .ns n => .ns (f n)
  | .interface i => .interface i
  | .enum e => .enum e
  | .typeAlias t => .typeAlias t
  | .cls c => .cls c
  | .function g => .function g
  | .vars v => .vars v

/-- Only namespaces are changed by copying. -/
theorem Decl.regrouped_eq_mapNamespace (d : Decl) :
    d.regrouped = d.mapNamespace Namespace.regrouped := by
  cases d <;> rw [Decl.regrouped, Decl.mapNamespace]

theorem Decl.regrouped_eq_self_of_kind {d : Decl} (h : d.kind ≠ .ns) : d.regrouped = d :=
  Item.decl.inj (Decl.copied_eq h)

theorem mem_declsOf {d : Decl} {items : List Item} : d ∈ declsOf items ↔ .decl d ∈ items := by
  rw [declsOf, List.mem_filterMap]
  constructor
  · rintro ⟨item, hitem, hd⟩
    cases item with
    | decl e =>
      obtain rfl : e = d := Option.some.inj hd
      exact hitem
    | _ => cases hd
  · intro h
    exact ⟨_, h, rfl⟩

theorem declsOf_map_decl (ds : List Decl) : declsOf (ds.map .decl) = ds := by
  rw [declsOf, List.filterMap_map]
  exact List.filterMap_some

/-- The namespace that a declaration is, if it is one. -/
def Decl.namespace? : Decl → Option Namespace
  | .ns n => some n
  | _ => none

theorem Decl.namespace?_regrouped (d : Decl) :
    d.regrouped.namespace? = d.namespace?.map Namespace.regrouped := by
  cases d <;> rw [Decl.regrouped] <;> rfl

theorem Namespace.namespacesOf_items (n : Namespace) :
    namespacesOf n.items = (n.decls .ns).filterMap Decl.namespace? := by
  rw [Namespace.decls]
  induction n.items with
  | nil => rfl
  | cons item items ih =>
    cases item with
    | decl d =>
      cases d <;> simp_all [namespacesOf, declsOf, Item.decl?, Decl.kind, Decl.namespace?]
    | _ => exact ih

/-! ## The stable order by kind -/

/-- Whether one declaration may stand in front of another in a copy. -/
def Decl.inOrder (d e : Decl) : Bool :=
  d.kind.rank ≤ e.kind.rank

theorem Decl.inOrder_trans (a b c : Decl) (hab : a.inOrder b = true) (hbc : b.inOrder c = true) :
    a.inOrder c = true :=
  decide_eq_true (Nat.le_trans (of_decide_eq_true hab) (of_decide_eq_true hbc))

theorem Decl.inOrder_total (a b : Decl) : (a.inOrder b || b.inOrder a) = true := by
  simpa [inOrder] using Nat.le_total a.kind.rank b.kind.rank

/-- In a list where nothing of the first class stands behind something of the second, those of both
classes stand together as the one behind the other. -/
theorem filter_append_filter {α : Type} {p q : α → Bool} {xs : List α}
    (hpq : ∀ x, p x = true → q x = false)
    (h : xs.Pairwise fun x y => q x = true → p y = false) :
    xs.filter p ++ xs.filter q = xs.filter fun x => p x || q x := by
  induction xs with
  | nil => rfl
  | cons x xs ih =>
    obtain ⟨hx, hxs⟩ := List.pairwise_cons.1 h
    cases hp : p x with
    | true => simp [hp, hpq x hp, ih hxs]
    | false =>
      cases hq : q x with
      | true =>
        -- nothing of the first class is left behind one of the second
        have hnone : xs.filter p = [] := by
          simpa using fun y hy => hx y hy hq
        have hrest := ih hxs
        rw [hnone, List.nil_append] at hrest
        simp [hp, hq, hnone, hrest]
      | false => simp [hp, hq, ih hxs]

/-- A list in the order of its classes is the elements of each class in turn. -/
theorem flatMap_filter_of_pairwise {α κ : Type} [DecidableEq κ] {f : α → κ} {rank : κ → Nat}
    {ks : List κ} {xs : List α} (hks : ks.Pairwise fun k l => rank k < rank l)
    (hxs : xs.Pairwise fun x y => rank (f x) ≤ rank (f y)) :
    (ks.flatMap fun k => xs.filter fun x => f x = k) = xs.filter fun x => f x ∈ ks := by
  induction ks with
  | nil => simp
  | cons k ks ih =>
    obtain ⟨hk, hks⟩ := List.pairwise_cons.1 hks
    have hne (l : κ) (hl : l ∈ ks) : l ≠ k := by
      rintro rfl
      exact absurd (hk l hl) (Nat.lt_irrefl _)
    -- what is of class k stands in front of what is of a class among ks
    rw [List.flatMap_cons, ih hks, filter_append_filter]
    · refine List.filter_congr ?_
      intro x _
      simp
    · intro x hx
      simpa using fun hmem => hne _ hmem (of_decide_eq_true hx)
    · refine hxs.imp ?_
      intro x y hxy hx
      have hlt := hk (f x) (of_decide_eq_true hx)
      refine decide_eq_false ?_
      rintro rfl
      exact absurd hxy (Nat.not_le_of_gt hlt)

theorem byKind_eq_self {ds : List Decl}
    (h : ds.Pairwise fun d e => d.kind.rank ≤ e.kind.rank) : byKind ds = ds := by
  have hall : DeclKind.all.Pairwise fun k l => k.rank < l.rank := by decide
  rw [byKind, flatMap_filter_of_pairwise hall h]
  exact List.filter_eq_self.2 fun d _ => decide_eq_true d.kind.mem_all

theorem pairwise_mergeSort_inOrder (ds : List Decl) :
    (ds.mergeSort Decl.inOrder).Pairwise fun d e => d.kind.rank ≤ e.kind.rank := by
  have h := List.pairwise_mergeSort Decl.inOrder_trans Decl.inOrder_total ds
  exact h.imp of_decide_eq_true

/-- Sorting is stable: declarations of one kind keep their order. -/
theorem filter_kind_mergeSort (ds : List Decl) (k : DeclKind) :
    (ds.mergeSort Decl.inOrder).filter (fun d => d.kind = k) = ds.filter fun d => d.kind = k := by
  have hkind : (ds.filter fun d => d.kind = k).Pairwise fun d e => Decl.inOrder d e = true := by
    refine List.pairwise_of_forall_mem_list ?_
    intro d hd e he
    have hd := of_decide_eq_true (List.mem_filter.1 hd).2
    have he := of_decide_eq_true (List.mem_filter.1 he).2
    simp [Decl.inOrder, hd, he]
  -- what is in order already is found in the sorted list as it stands
  have hsub := List.sublist_mergeSort Decl.inOrder_trans Decl.inOrder_total hkind
    List.filter_sublist
  have hfilter := hsub.filter fun d : Decl => decide (d.kind = k)
  rw [List.filter_filter] at hfilter
  simp only [Bool.and_self] at hfilter
  -- and there is nothing more of this kind in it, as sorting only permutes
  have hlength := ((List.mergeSort_perm ds Decl.inOrder).filter fun d => d.kind = k).length_eq
  exact (hfilter.eq_of_length hlength.symm).symm

/-- **Declarations kind by kind are declarations in the stable order by kind.** -/
theorem byKind_eq_mergeSort (ds : List Decl) : byKind ds = ds.mergeSort Decl.inOrder := by
  calc byKind ds = byKind (ds.mergeSort Decl.inOrder) := by
        simp only [byKind, filter_kind_mergeSort]
    _ = ds.mergeSort Decl.inOrder := byKind_eq_self (pairwise_mergeSort_inOrder ds)

theorem byKind_pairwise (ds : List Decl) :
    (byKind ds).Pairwise fun d e => d.kind.rank ≤ e.kind.rank := by
  rw [byKind_eq_mergeSort]
  exact pairwise_mergeSort_inOrder ds

theorem mem_byKind {d : Decl} {ds : List Decl} : d ∈ byKind ds ↔ d ∈ ds := by
  rw [byKind_eq_mergeSort, List.mem_mergeSort]

/-! ## What a copy is -/

theorem Namespace.eq_of_parts {m n : Namespace} (hname : m.name = n.name) (hdoc : m.doc = n.doc)
    (hitems : m.items = n.items) : m = n := by
  cases m
  cases n
  simp_all

theorem Namespace.regrouped_name (n : Namespace) : n.regrouped.name = n.name := by
  cases n
  rw [Namespace.regrouped]

theorem Namespace.regrouped_doc (n : Namespace) : n.regrouped.doc = n.doc := by
  cases n
  rw [Namespace.regrouped]

/-- The body of a copy is the copies of the declarations, kind by kind. -/
theorem Namespace.items_regrouped (n : Namespace) :
    n.regrouped.items = (byKind (declsOf n.items)).map Decl.copied := by
  rw [Namespace.regrouped_items, byKind, List.map_flatMap]
  rfl

theorem Namespace.declsOf_regrouped (n : Namespace) :
    declsOf n.regrouped.items = (byKind (declsOf n.items)).map Decl.regrouped := by
  rw [n.items_regrouped, ← declsOf_map_decl ((byKind (declsOf n.items)).map Decl.regrouped),
    List.map_map]
  rfl

/-- Nothing is lost, repeated or put into another order within its kind. -/
theorem Namespace.decls_regrouped (n : Namespace) (k : DeclKind) :
    n.regrouped.decls k = (n.decls k).map Decl.regrouped := by
  rw [Namespace.decls, n.declsOf_regrouped, byKind_eq_mergeSort, List.filter_map, Namespace.decls,
    ← filter_kind_mergeSort]
  simp only [Function.comp_def, Decl.kind_regrouped]

/-- The namespaces in a copy are the copies of the namespaces, in their order. -/
theorem Namespace.namespacesOf_regrouped (n : Namespace) :
    namespacesOf n.regrouped.items = (namespacesOf n.items).map Namespace.regrouped := by
  rw [Namespace.namespacesOf_items, n.decls_regrouped, List.filterMap_map,
    Namespace.namespacesOf_items, List.map_filterMap]
  exact List.filterMap_congr fun d _ => d.namespace?_regrouped

/-- The namespace that is reached by going into one of the namespaces of a body, counted from the
first, again and again. -/
def Namespace.inside? (n : Namespace) : List Nat → Option Namespace
  | [] => some n
  | i :: path => (namespacesOf n.items)[i]? >>= fun m => m.inside? path

/-- Copies are reached where what they are copies of is. -/
theorem Namespace.inside?_regrouped (path : List Nat) (n : Namespace) :
    n.regrouped.inside? path = (n.inside? path).map Namespace.regrouped := by
  induction path generalizing n with
  | nil => rfl
  | cons i path ih =>
    rw [inside?, inside?, n.namespacesOf_regrouped, List.getElem?_map]
    cases (namespacesOf n.items)[i]? with
    | none => rfl
    | some m => exact ih m

/-- The first namespace is a copy of the second: it has the same name and documentation, and in its
body the declarations of the other one in the stable order by kind, the namespaces among them as
copies and all others as they are. -/
structure Namespace.IsStableCopy (m n : Namespace) : Prop where
  name_eq : m.name = n.name
  doc_eq : m.doc = n.doc
  items_eq : m.items = ((declsOf n.items).mergeSort Decl.inOrder).map fun d =>
    .decl (d.mapNamespace Namespace.regrouped)
  decls_eq (k : DeclKind) : m.decls k = (n.decls k).map (Decl.mapNamespace Namespace.regrouped)

theorem Namespace.regrouped_isStableCopy (n : Namespace) : n.regrouped.IsStableCopy n := by
  have hregrouped : Decl.regrouped = Decl.mapNamespace Namespace.regrouped :=
    funext Decl.regrouped_eq_mapNamespace
  constructor
  case name_eq => exact n.regrouped_name
  case doc_eq => exact n.regrouped_doc
  case items_eq =>
    rw [n.items_regrouped, byKind_eq_mergeSort, ← hregrouped]
    rfl
  case decls_eq =>
    intro k
    rw [n.decls_regrouped, hregrouped]

/-! ## Copying pass by pass -/

mutual

/-- A declaration copied by filling an empty namespace for every namespace in it. -/
def Decl.refill : Decl → Except AssemblyError Decl
  | .ns n => n.refill.map .ns
  | .interface i => .ok (.interface i)
  | .enum e => .ok (.enum e)
  | .typeAlias t => .ok (.typeAlias t)
  | .cls c => .ok (.cls c)
  | .function f => .ok (.function f)
  | .vars v => .ok (.vars v)

/-- A namespace copied into an empty one, in a pass over its body for each kind. -/
def Namespace.refill : Namespace → Except AssemblyError Namespace
  | ⟨name, doc, items⟩ =>
    DeclKind.all.foldlM (fun dest k => refillKind k items dest) ⟨name, doc, []⟩

/-- The pass for one kind: declarations of other kinds, and what is no declaration, are passed
over. -/
def refillKind (k : DeclKind) : List Item → Namespace → Except AssemblyError Namespace
  | [], dest => .ok dest
  | .decl d :: is, dest =>
    if d.kind = k then do
      let copy ← d.refill
      let dest ← Container.add dest copy
      refillKind k is dest
    else refillKind k is dest
  | .ambientModule .. :: is, dest => refillKind k is dest
  | .exportStatement _ :: is, dest => refillKind k is dest

end

section Refill

variable {items : List Item} (h : ∀ d, .decl d ∈ items → d.refill = .ok d.regrouped)

include h

/-- A pass adds the copies of the declarations of its kind. -/
theorem refillKind_eq (k : DeclKind) (dest : Namespace) :
    refillKind k items dest =
      .ok ⟨dest.name, dest.doc,
        dest.items ++ ((declsOf items).filter fun d => d.kind = k).map Decl.copied⟩ := by
  induction items generalizing dest with
  | nil =>
    cases dest
    simp [refillKind, declsOf]
  | cons item items ih =>
    have hrest := ih fun d hd => h d (List.mem_cons_of_mem _ hd)
    cases item with
    | decl d =>
      have hdecls : declsOf (.decl d :: items) = d :: declsOf items := rfl
      rw [refillKind, hdecls]
      by_cases hk : d.kind = k
      · rw [if_pos hk, h d List.mem_cons_self]
        show (Container.add dest d.regrouped >>= refillKind k items) = _
        -- a namespace takes declarations of every kind
        show refillKind k items (Container.push dest (.decl d.regrouped)) = _
        rw [hrest]
        simp [Container.push, hk, Decl.copied]
      · rw [if_neg hk, hrest]
        simp [hk]
    | ambientModule name is =>
      rw [refillKind, hrest]
      rfl
    | exportStatement e =>
      rw [refillKind, hrest]
      rfl

theorem foldlM_refillKind (ks : List DeclKind) (dest : Namespace) :
    ks.foldlM (fun dest k => refillKind k items dest) dest =
      .ok ⟨dest.name, dest.doc, dest.items ++
        (ks.flatMap fun k => (declsOf items).filter fun d => d.kind = k).map Decl.copied⟩ := by
  induction ks generalizing dest with
  | nil =>
    cases dest
    simp [pure, Except.pure]
  | cons k ks ih =>
    rw [List.foldlM_cons, refillKind_eq h]
    show List.foldlM _ _ ks = _
    rw [ih]
    simp

end Refill

theorem Namespace.refill_eq_of_items {n : Namespace}
    (h : ∀ d, .decl d ∈ n.items → d.refill = .ok d.regrouped) : n.refill = .ok n.regrouped := by
  have hitems := n.items_regrouped
  obtain ⟨name, doc, items⟩ := n
  rw [Namespace.refill, foldlM_refillKind h, List.nil_append, ← byKind]
  exact congrArg Except.ok (Namespace.eq_of_parts rfl rfl hitems.symm)

/-- No container on the way refuses anything, and the passes give the copy. -/
theorem Decl.refill_eq (d : Decl) : d.refill = .ok d.regrouped := by
  induction d using Decl.nested_induction with
  | leaf d h =>
    cases d with
    | ns n => exact absurd rfl h
    | _ => rw [refill, regrouped]
  | ns n ih =>
    rw [refill, regrouped, Namespace.refill_eq_of_items ih]
    rfl

theorem Namespace.refill_eq (n : Namespace) : n.refill = .ok n.regrouped :=
  refill_eq_of_items fun d _ => d.refill_eq

/-- **Copying a namespace sorts it by kind, at every depth.** The copy is made, with the name and
the documentation of the namespace, and its body is the declarations of the body in the stable order
by kind, the namespaces among them as copies. What else stands in the body is left out. The same
holds of every namespace that is reached from it: its copy is reached in the same way in the copy,
and of each kind it has the same declarations in the same order. -/
theorem Namespace.regrouped_stable (n : Namespace) :
    n.refill = .ok n.regrouped ∧ n.regrouped.IsStableCopy n ∧
      ∀ path, n.regrouped.inside? path = (n.inside? path).map Namespace.regrouped ∧
        ∀ m, n.inside? path = some m → m.regrouped.IsStableCopy m := by
  refine ⟨n.refill_eq, n.regrouped_isStableCopy, ?_⟩
  intro path
  refine ⟨inside?_regrouped path n, ?_⟩
  intro m _
  exact m.regrouped_isStableCopy

/-- A block with functions around a namespace, in which an ambient module stands, and with an
interface at the end. -/
def serverBlock : Namespace where
  name := "ts"
  doc := some "The compiler."
  items :=
    [.decl (.function ⟨"parse", none, ⟨[], none, []⟩, none⟩),
     .exportStatement (.assign "ts"),
     .decl (.ns ⟨"server", none,
       [.decl (.function ⟨"open", none, ⟨[], none, []⟩, none⟩),
        .ambientModule "fs" [],
        .decl (.interface ⟨"Session", none, [], [], []⟩)]⟩),
     .decl (.function ⟨"scan", none, ⟨[], none, []⟩, none⟩),
     .decl (.interface ⟨"Node", none, [], [], []⟩)]

/-- The copy of the block, and of the namespace in it, which stands in front in the copy. -/
theorem Namespace.regrouped_stable_server :
    let server : Namespace :=
      ⟨"server", none,
        [.decl (.interface ⟨"Session", none, [], [], []⟩),
         .decl (.function ⟨"open", none, ⟨[], none, []⟩, none⟩)]⟩
    serverBlock.refill = .ok
        ⟨"ts", some "The compiler.",
          [.decl (.ns server),
           .decl (.interface ⟨"Node", none, [], [], []⟩),
           .decl (.function ⟨"parse", none, ⟨[], none, []⟩, none⟩),
           .decl (.function ⟨"scan", none, ⟨[], none, []⟩, none⟩)]⟩ ∧
      ∃ m, serverBlock.inside? [0] = some m ∧ m.regrouped.IsStableCopy m ∧
        serverBlock.regrouped.inside? [0] = some server := by
  intro server
  obtain ⟨hrefill, -, hinside⟩ := serverBlock.regrouped_stable
  obtain ⟨hreached, hcopy⟩ := hinside [0]
  exact ⟨hrefill, _, rfl, hcopy _ rfl, hreached⟩

/-! ## Declarations that are their own copies -/

/-- A namespace that a declaration is or that is reached from it by going into namespaces. -/
inductive Decl.Reaches : Decl → Namespace → Prop
  | self (n : Namespace) : Reaches (.ns n) n
  | inside {n m : Namespace} {d : Decl} (hd : .decl d ∈ n.items) (h : d.Reaches m) :
    Reaches (.ns n) m

theorem Decl.Reaches.kind_eq {d : Decl} {n : Namespace} (h : d.Reaches n) : d.kind = .ns := by
  cases h <;> rfl

theorem Decl.reaches_ns_iff {n m : Namespace} :
    (Decl.ns n).Reaches m ↔ m = n ∨ ∃ d, .decl d ∈ n.items ∧ d.Reaches m := by
  constructor
  · intro h
    cases h with
    | self => exact .inl rfl
    | inside hd h => exact .inr ⟨_, hd, h⟩
  · rintro (rfl | ⟨d, hd, h⟩)
    · exact .self m
    · exact .inside hd h

/-- A namespace whose body holds declarations only, in the order of copying. -/
structure Namespace.IsGrouped (n : Namespace) : Prop where
  only_decls : ∀ item ∈ n.items, ∃ d, item = .decl d
  ascending : (declsOf n.items).Pairwise fun d e => d.kind.rank ≤ e.kind.rank

/-- Items that are declarations only. -/
theorem map_decl_declsOf {items : List Item} (h : ∀ item ∈ items, ∃ d, item = .decl d) :
    (declsOf items).map .decl = items := by
  induction items with
  | nil => rfl
  | cons item items ih =>
    obtain ⟨d, rfl⟩ := h _ List.mem_cons_self
    have hdecls : declsOf (.decl d :: items) = d :: declsOf items := rfl
    rw [hdecls, List.map_cons, ih fun item hitem => h item (List.mem_cons_of_mem _ hitem)]

theorem Namespace.isGrouped_regrouped (n : Namespace) : n.regrouped.IsGrouped := by
  constructor
  case only_decls =>
    intro item hitem
    rw [n.items_regrouped] at hitem
    obtain ⟨d, -, rfl⟩ := List.mem_map.1 hitem
    exact ⟨_, rfl⟩
  case ascending =>
    rw [n.declsOf_regrouped, List.pairwise_map]
    simpa only [Decl.kind_regrouped] using byKind_pairwise (declsOf n.items)

/-- A namespace is its own copy if nothing in its body moves or is left out, and the declarations in
it are their own copies. -/
theorem Namespace.regrouped_eq_self_iff {n : Namespace} :
    n.regrouped = n ↔ n.IsGrouped ∧ ∀ d, .decl d ∈ n.items → d.regrouped = d := by
  constructor
  · intro h
    have hgrouped : n.IsGrouped := h ▸ n.isGrouped_regrouped
    have hdecls := n.declsOf_regrouped
    -- nothing moves in a grouped body, so it is the same as its copies place by place
    rw [h, byKind_eq_self hgrouped.ascending] at hdecls
    refine ⟨hgrouped, ?_⟩
    intro d hd
    have hsame : (declsOf n.items).map Decl.regrouped = (declsOf n.items).map id := by
      rw [List.map_id, ← hdecls]
    exact List.map_inj_left.1 hsame d (mem_declsOf.2 hd)
  · rintro ⟨hgrouped, hdecls⟩
    refine Namespace.eq_of_parts n.regrouped_name n.regrouped_doc ?_
    calc n.regrouped.items = (byKind (declsOf n.items)).map Decl.copied := n.items_regrouped
      _ = (declsOf n.items).map Decl.copied := by rw [byKind_eq_self hgrouped.ascending]
      _ = (declsOf n.items).map .decl := List.map_congr_left fun d hd =>
          congrArg Item.decl (hdecls d (mem_declsOf.1 hd))
      _ = n.items := map_decl_declsOf hgrouped.only_decls

theorem Decl.regrouped_eq_self_iff (d : Decl) :
    d.regrouped = d ↔ ∀ n, d.Reaches n → n.IsGrouped := by
  induction d using Decl.nested_induction with
  | leaf d h =>
    refine iff_of_true (regrouped_eq_self_of_kind h) ?_
    intro n hn
    exact absurd hn.kind_eq h
  | ns n ih =>
    have hns : (Decl.ns n).regrouped = .ns n ↔ n.regrouped = n := by
      rw [regrouped, Decl.ns.injEq]
    rw [hns, Namespace.regrouped_eq_self_iff]
    simp only [reaches_ns_iff, forall_eq_or_imp]
    refine and_congr_right fun _ => ⟨?_, ?_⟩
    · rintro hdecls m ⟨d, hd, hm⟩
      exact (ih d hd).1 (hdecls d hd) m hm
    · intro hreached d hd
      exact (ih d hd).2 fun m hm => hreached m ⟨d, hd, hm⟩

/-- A copy is its own copy. -/
theorem Decl.regrouped_regrouped (d : Decl) : d.regrouped.regrouped = d.regrouped := by
  induction d using Decl.nested_induction with
  | leaf d h => rw [regrouped_eq_self_of_kind h, regrouped_eq_self_of_kind h]
  | ns n ih =>
    rw [regrouped, regrouped, Decl.ns.injEq, Namespace.regrouped_eq_self_iff]
    refine ⟨n.isGrouped_regrouped, ?_⟩
    intro d hd
    -- the declarations in a copy are copies, of which the hypothesis speaks
    rw [n.items_regrouped] at hd
    obtain ⟨e, he, hcopied⟩ := List.mem_map.1 hd
    obtain rfl : e.regrouped = d := Item.decl.inj hcopied
    exact ih e (mem_declsOf.1 (mem_byKind.1 he))

theorem ranksAscend_iff (ds : List Decl) :
    ranksAscend ds = true ↔ ds.Pairwise fun d e => d.kind.rank ≤ e.kind.rank := by
  fun_induction ranksAscend ds with
  | case1 => simp
  | case2 d => simp
  | case3 d e ds ih =>
    rw [Bool.and_eq_true, ih, List.pairwise_cons (a := d), decide_eq_true_eq]
    constructor
    · rintro ⟨hde, hds⟩
      refine ⟨?_, hds⟩
      intro x hx
      rcases List.mem_cons.1 hx with rfl | hx
      · exact hde
      · exact Nat.le_trans hde (List.rel_of_pairwise_cons hds hx)
    · rintro ⟨hd, hds⟩
      exact ⟨hd e List.mem_cons_self, hds⟩

theorem allRegrouped_iff (items : List Item) :
    allRegrouped items = true ↔
      (∀ item ∈ items, ∃ d, item = .decl d) ∧ ∀ d, .decl d ∈ items → d.isRegrouped = true := by
  induction items with
  | nil => simp [allRegrouped]
  | cons item items ih =>
    cases item <;> simp [allRegrouped, ih, and_left_comm]

/-- The check is right. -/
theorem Decl.isRegrouped_iff (d : Decl) : d.isRegrouped = true ↔ d.regrouped = d := by
  induction d using Decl.nested_induction with
  | leaf d h =>
    refine iff_of_true ?_ (regrouped_eq_self_of_kind h)
    cases d with
    | ns n => exact absurd rfl h
    | _ => rw [isRegrouped]
  | ns n ih =>
    have hchecked : n.isRegrouped = true ↔ n.IsGrouped ∧
        ∀ d, .decl d ∈ n.items → d.isRegrouped = true := by
      obtain ⟨name, doc, items⟩ := n
      rw [Namespace.isRegrouped, Bool.and_eq_true, ranksAscend_iff, allRegrouped_iff]
      exact ⟨fun ⟨ho, hi, hd⟩ => ⟨⟨hi, ho⟩, hd⟩, fun ⟨⟨hi, ho⟩, hd⟩ => ⟨ho, hi, hd⟩⟩
    rw [regrouped, Decl.ns.injEq, Namespace.regrouped_eq_self_iff, isRegrouped, hchecked]
    exact and_congr_right fun _ => forall₂_congr ih

/-- **Copying leads to a normal form.** A copy is always made, and what is made when it is copied in
turn is the copy itself. A declaration is its own copy exactly if every namespace that is reached
from it holds declarations only, in the order of copying, and this is what the check says of it. -/
theorem Decl.regrouped_normal (d : Decl) :
    d.refill = .ok d.regrouped ∧ d.regrouped.refill = .ok d.regrouped ∧
      (d.regrouped = d ↔ ∀ n, d.Reaches n → n.IsGrouped) ∧
      (d.isRegrouped = true ↔ d.regrouped = d) := by
  have hagain : d.regrouped.refill = .ok d.regrouped := by
    rw [d.regrouped.refill_eq, d.regrouped_regrouped]
  exact ⟨d.refill_eq, hagain, d.regrouped_eq_self_iff, d.isRegrouped_iff⟩

end Ambient
