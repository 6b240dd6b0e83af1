import Ambient.Assembly

/-!
# The stages of assembly

What each stage of `assemble` does to what a container holds: declarations are added as copies in
their order (`addPlaced_module`, `addPlaced_wrapping`), the rules change the first interface of each
name (`applyRules_ok`), and the brand goes to the first interface with its name (`branded_ok`).
-/

namespace Ambient

/-! ## Adding declarations -/

namespace Container

variable {α : Type} [Container α]

/-- A container that accepts every declaration of a list takes in all of them, one behind the
other. -/
theorem addAll_eq_foldl (ds : List Decl) (c : α) (h : ∀ d ∈ ds, ∀ c : α, accepts c d.kind = true) :
    addAll c ds = (ds.foldl (fun c d => push c (.decl d.regrouped)) c, .ok ds.length) := by
  induction ds generalizing c with
  | nil => rfl
  | cons d ds ih =>
    have hd : accepts c d.kind = true := h d (by simp) c
    have hds := ih (push c (.decl d.regrouped)) fun d' hd' => h d' (by simp [hd'])
    rw [addAll, add, Decl.kind_regrouped, if_pos hd]
    simp only [hds, List.foldl_cons, List.length_cons]
    rfl

/-- The outcome of adding declarations of one kind that are all accepted. -/
theorem outcome_addKind (c : α) (k : DeclKind) (ds : List Decl)
    (h : ∀ d ∈ ds, ∀ c : α, accepts c d.kind = true) :
    (addKind c k ds).outcome = .ok (ds.foldl (fun c d => push c (.decl d.regrouped)) c) := by
  simp [addKind, addAll_eq_foldl ds c h, bind]

end Container

/-- The copy of a declaration as an item. -/
def Decl.copied (d : Decl) : Item :=
  .decl d.regrouped

theorem foldl_push_module (ds : List Decl) (m : OutputModule) :
    ds.foldl (fun m d => Container.push m (.decl d.regrouped)) m =
      { m with items := m.items ++ ds.map Decl.copied } := by
  induction ds generalizing m with
  | nil => simp
  | cons d ds ih =>
    rw [List.foldl_cons, ih]
    simp [Container.push, Decl.copied]

theorem foldl_push_wrapping (ds : List Decl) (n : WrappingNamespace) :
    ds.foldl (fun n d => Container.push n (.decl d.regrouped)) n =
      { n with items := n.items ++ ds.map Decl.copied } := by
  induction ds generalizing n with
  | nil => simp
  | cons d ds ih =>
    rw [List.foldl_cons, ih]
    simp [Container.push, Decl.copied]

theorem kind_of_mem_select {p : Policy} {bs : List Namespace} {place : Placement} {k : DeclKind}
    {d : Decl} (h : d ∈ p.select bs place k) : d.kind = k :=
  kind_of_mem_flatten (List.mem_filter.1 h).1

/-- The top level of a module takes in declarations of the kinds that can be hoisted. -/
theorem addPlaced_module (p : Policy) (bs : List Namespace) (place : Placement)
    (ks : List DeclKind) (hks : ∀ k ∈ ks, k.isSeparable = true) (m : OutputModule) :
    (addPlaced p bs place ks m).outcome =
      .ok { m with items := m.items ++ (ks.flatMap (p.select bs place)).map Decl.copied } := by
  induction ks generalizing m with
  | nil => simp [addPlaced]
  | cons k ks ih =>
    have hk : ∀ d ∈ p.select bs place k, ∀ m : OutputModule,
        Container.accepts m d.kind = true := by
      intro d hd m
      rw [kind_of_mem_select hd]
      exact hks k (by simp)
    rw [addPlaced, Logged.outcome_bind, Container.outcome_addKind m k _ hk]
    show (addPlaced p bs place ks _).outcome = _
    rw [ih fun k hk => hks k (by simp [hk]), foldl_push_module]
    simp

/-- The wrapping namespace takes in declarations of every kind. -/
theorem addPlaced_wrapping (p : Policy) (bs : List Namespace) (place : Placement)
    (ks : List DeclKind) (n : WrappingNamespace) :
    (addPlaced p bs place ks n).outcome =
      .ok { n with items := n.items ++ (ks.flatMap (p.select bs place)).map Decl.copied } := by
  induction ks generalizing n with
  | nil => simp [addPlaced]
  | cons k ks ih =>
    rw [addPlaced, Logged.outcome_bind, Container.outcome_addKind n k _ fun _ _ _ => rfl]
    show (addPlaced p bs place ks _).outcome = _
    rw [ih, foldl_push_wrapping]
    simp

/-! ## Qualifying names -/

/-- Some members whose first index signature, if its type is a union, has a change made to each
member of the union. -/
def mapFirstUnion (f : Ty → Ty) : List Member → List Member
  | [] => []
  | ⟨doc, .index sig⟩ :: ms =>
    match sig.valueType with
    | .union ts => ⟨doc, .index { sig with valueType := .union (ts.map f) }⟩ :: ms
    | _ => ⟨doc, .index sig⟩ :: ms
  | m :: ms => m :: mapFirstUnion f ms

/-- What several rules do to a type, one after the other. -/
def qualifyAll (ns : String) (rs : List QualifyRule) (t : Ty) : Ty :=
  rs.foldl (fun t r => r.qualify ns t) t

/-- An interface with the rules for its name applied in their order. -/
def Interface.qualified (ns : String) (rs : List QualifyRule) (i : Interface) : Interface :=
  let own := rs.filter fun r => r.interface = i.name
  { i with members := mapFirstUnion (qualifyAll ns own) i.members }

/-- Some items whose first interface of each name has the rules for that name applied, `seen` being
the names of the interfaces in front of them. -/
def qualifiedFirsts (ns : String) (rs : List QualifyRule) (seen : List String) :
    List Item → List Item
  | [] => []
  | .decl (.interface i) :: is =>
    .decl (.interface (if i.name ∈ seen then i else i.qualified ns rs)) ::
      qualifiedFirsts ns rs (i.name :: seen) is
  | i :: is => i :: qualifiedFirsts ns rs seen is

theorem mapFirstUnion_mapFirstUnion (f g : Ty → Ty) (ms : List Member) :
    mapFirstUnion g (mapFirstUnion f ms) = mapFirstUnion (g ∘ f) ms := by
  fun_induction mapFirstUnion f ms with
  | case1 => rfl
  | case2 doc sig ms ts h => simp [mapFirstUnion, h]
  | case3 doc sig ms h =>
    rw [mapFirstUnion, mapFirstUnion]
    split
    · rename_i ts hts
      exact absurd hts (h ts)
    · rfl
  | case4 m ms h ih =>
    obtain ⟨doc, shape⟩ := m
    cases shape <;> simp_all [mapFirstUnion]

theorem mapFirstUnion_id (ms : List Member) : mapFirstUnion id ms = ms := by
  fun_induction mapFirstUnion id ms with
  | case1 => rfl
  | case2 doc sig ms ts h =>
    obtain ⟨key, keyType, valueType, readonly, isStatic⟩ := sig
    obtain rfl : valueType = .union ts := h
    simp
  | case3 doc sig ms h => rfl
  | case4 m ms h ih => rw [ih]

/-- A rule that applies to an interface changes its first index signature and nothing else. -/
theorem QualifyRule.applyTo_ok {r : QualifyRule} {ns : String} {i new : Interface} {count : Nat}
    (h : r.applyTo ns i = .ok (new, count)) :
    new = { i with members := mapFirstUnion (r.qualify ns) i.members } := by
  have replace (sig : IndexSignature) (ts : List Ty) (hts : sig.valueType = .union ts)
      (ms : List Member) (hms : firstIndex? ms = some sig) :
      replaceFirstIndex { sig with valueType := .union (ts.map (r.qualify ns)) } ms =
        mapFirstUnion (r.qualify ns) ms := by
    fun_induction firstIndex? ms with
    | case1 => cases hms
    | case2 doc sig' ms =>
      cases hms
      simp [replaceFirstIndex, mapFirstUnion, hts]
    | case3 m ms hm ih =>
      obtain ⟨doc, shape⟩ := m
      cases shape <;> simp_all [replaceFirstIndex, mapFirstUnion]
  unfold QualifyRule.applyTo at h
  split at h
  · cases h
  · rename_i sig hsig
    split at h
    · rename_i ts hts
      cases h
      rw [replace sig ts hts i.members hsig]
    · cases h

/-- One more rule in front: it matters only for the first interface with its name. -/
theorem Interface.qualified_cons (ns : String) (r : QualifyRule) (rs : List QualifyRule)
    (i : Interface) :
    i.qualified ns (r :: rs) =
      if i.name = r.interface then
        Interface.qualified ns rs { i with members := mapFirstUnion (r.qualify ns) i.members }
      else i.qualified ns rs := by
  by_cases h : i.name = r.interface
  · rw [if_pos h]
    simp only [Interface.qualified, List.filter_cons, h, mapFirstUnion_mapFirstUnion]
    rfl
  · have h' : ¬r.interface = i.name := fun e => h e.symm
    simp [Interface.qualified, h, h']

/-- A rule for a name in front of which an interface has that name already changes nothing. -/
theorem qualifiedFirsts_cons_of_mem (ns : String) (r : QualifyRule) (rs : List QualifyRule)
    (seen : List String) (items : List Item) (h : r.interface ∈ seen) :
    qualifiedFirsts ns (r :: rs) seen items = qualifiedFirsts ns rs seen items := by
  fun_induction qualifiedFirsts ns rs seen items with
  | case1 => rfl
  | case2 seen i is ih =>
    rw [qualifiedFirsts, ih (by simp [h]), Interface.qualified_cons]
    by_cases hi : i.name = r.interface <;> simp [hi, h]
  | case3 seen i is hi ih =>
    rw [qualifiedFirsts, ih h]
    exact hi

/-- The first rule does to the items what `QualifyRule.apply` does. -/
theorem qualifiedFirsts_cons (ns : String) (r : QualifyRule) (rs : List QualifyRule)
    (seen : List String) (items : List Item) (i : Interface) (h : r.interface ∉ seen)
    (hi : findInterface? r.interface items = some i) :
    qualifiedFirsts ns (r :: rs) seen items =
      qualifiedFirsts ns rs seen (replaceInterface r.interface
        { i with members := mapFirstUnion (r.qualify ns) i.members } items) := by
  fun_induction qualifiedFirsts ns rs seen items with
  | case1 => cases hi
  | case2 seen j is ih =>
    by_cases hj : j.name = r.interface
    · obtain rfl : j = i := by simpa [findInterface?, interfacesOf, hj] using hi
      rw [qualifiedFirsts, qualifiedFirsts_cons_of_mem _ _ _ _ _ (by simp [hj]),
        Interface.qualified_cons, if_pos hj, replaceInterface, if_pos hj, qualifiedFirsts]
      simp [hj, h]
    · have hi' : findInterface? r.interface is = some i := by
        simpa [findInterface?, interfacesOf, hj] using hi
      have hr : r.interface ∉ j.name :: seen := by
        simpa [h] using fun e => hj e.symm
      rw [qualifiedFirsts, ih hr hi', Interface.qualified_cons, if_neg hj, replaceInterface,
        if_neg hj, qualifiedFirsts]
  | case3 seen j is hj ih =>
    have hi' : findInterface? r.interface is = some i := by
      have hd : interfacesOf (j :: is) = interfacesOf is := by
        cases j with
        | decl d =>
          cases d with
          | interface k => exact absurd rfl (hj k)
          | _ => rfl
        | _ => rfl
      rwa [findInterface?, hd] at hi
    rw [qualifiedFirsts, ih h hi', replaceInterface, qualifiedFirsts]
    all_goals exact hj

/-- Rules that all apply change the first interface of each name, and nothing but the items. -/
theorem applyRules_ok {ns : String} {rs : List QualifyRule} {m : OutputModule}
    (h : (applyRules ns rs m).2.outcome = .ok ()) :
    (applyRules ns rs m).1 = { m with items := qualifiedFirsts ns rs [] m.items } := by
  induction rs generalizing m with
  | nil =>
    have hid (seen : List String) (items : List Item) :
        qualifiedFirsts ns [] seen items = items := by
      fun_induction qualifiedFirsts ns [] seen items with
      | case1 => rfl
      | case2 seen i is ih =>
        have hq : i.qualified ns [] = i := by
          obtain ⟨name, doc, typeParams, supers, members⟩ := i
          exact congrArg _ (mapFirstUnion_id members)
        simp [ih, hq]
      | case3 seen i is hi ih => rw [ih]
    rw [hid]
    rfl
  | cons r rs ih =>
    rw [applyRules] at h ⊢
    split at h
    · cases h
    · rename_i m' count hm'
      have hrest : (applyRules ns rs m').2.outcome = .ok () := h
      simp only [ih hrest]
      unfold QualifyRule.apply at hm'
      split at hm'
      · cases hm'
      · rename_i i hi
        cases hnew : r.applyTo ns i with
        | error e => rw [hnew] at hm'; cases hm'
        | ok p =>
          obtain ⟨new, n⟩ := p
          rw [hnew] at hm'
          cases hm'
          rw [QualifyRule.applyTo_ok hnew,
            qualifiedFirsts_cons ns r rs [] m.items i (by simp) hi]

/-! ## The brand -/

/-- Replacing the first interface of a name that there is leaves everything around it. -/
theorem replaceInterface_of_find {name : String} {items : List Item} {i : Interface}
    (h : findInterface? name items = some i) (new : Interface) :
    ∃ before after, items = before ++ .decl (.interface i) :: after ∧
      (∀ j ∈ interfacesOf before, j.name ≠ name) ∧ i.name = name ∧
      replaceInterface name new items = before ++ .decl (.interface new) :: after := by
  fun_induction replaceInterface name new items with
  | case1 => cases h
  | case2 j is hj =>
    obtain rfl : j = i := by simpa [findInterface?, interfacesOf, hj] using h
    exact ⟨[], is, rfl, by simp [interfacesOf], hj, rfl⟩
  | case3 j is hj ih =>
    have h' : findInterface? name is = some i := by
      simpa [findInterface?, interfacesOf, hj] using h
    obtain ⟨before, after, rfl, hb, hi, hr⟩ := ih h'
    refine ⟨.decl (.interface j) :: before, after, rfl, ?_, hi, by rw [hr]; rfl⟩
    intro k hk
    rcases List.mem_cons.1 hk with rfl | hk
    · exact hj
    · exact hb k hk
  | case4 item is hitem ih =>
    have hd (l : List Item) : interfacesOf (item :: l) = interfacesOf l := by
      cases item with
      | decl d =>
        cases d with
        | interface k => exact absurd rfl (hitem k)
        | _ => rfl
      | _ => rfl
    have h' : findInterface? name is = some i := by rwa [findInterface?, hd] at h
    obtain ⟨before, after, rfl, hb, hi, hr⟩ := ih h'
    exact ⟨item :: before, after, rfl, by rwa [hd], hi, by rw [hr]; rfl⟩

/-- `after` is `before` with one property at the end of the first interface that is to be
branded. The property has the name and the documentation that are chosen and the type `undefined`,
and is neither optional nor read-only. -/
def Branded (b : BrandConfig) (before after : List Item) : Prop :=
  ∃ front i back, before = front ++ .decl (.interface i) :: back ∧ i.name = b.interface ∧
    (∀ j ∈ interfacesOf front, j.name ≠ b.interface) ∧
    after =
      front ++ .decl (.interface
        { i with
          members := i.members ++
            [{ doc := some b.doc
               shape := .property b.property (some (.primitive .undefined)) false false }] }) :: back

theorem branded_ok {n n' : WrappingNamespace} {b : BrandConfig} (h : n.branded b = .ok n') :
    Branded b n.items n'.items ∧ n' = { n with items := n'.items } := by
  unfold WrappingNamespace.branded at h
  split at h
  · cases h
  · rename_i i hi
    cases h
    obtain ⟨front, back, hitems, hfront, hname, hnew⟩ :=
      replaceInterface_of_find hi { i with members := i.members ++ [b.member] }
    exact ⟨⟨front, i, back, hitems, hname, hfront, hnew⟩, rfl⟩

end Ambient
