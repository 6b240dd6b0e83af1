import Ambient.Proofs.Assembly.Partition
import Ambient.Proofs.Tree.LikeDecl

/-!
# Assembling files that differ in texts kept as written

Assembly sorts declarations by their kinds and names, adds prefixes to names in types, and copies
everything else. It looks at no text that is kept as written. Files that are alike are therefore
assembled to modules that are alike, or fail in the same way (`File.Like.assemble`), and modules
that are alike are printed to related texts (`OutputModule.Like.print`).
-/

namespace Ambient

/-! ## Outcomes -/

/-- Two runs fail in the same way, or give related results. -/
inductive SameOutcome {ε α β : Type} (R : α → β → Prop) : Except ε α → Except ε β → Prop
  | ok {a : α} {b : β} (h : R a b) : SameOutcome R (.ok a) (.ok b)
  | error (e : ε) : SameOutcome R (.error e) (.error e)

namespace SameOutcome

variable {ε ε' α β γ δ : Type} {R : α → β → Prop} {Q : γ → δ → Prop} {x : Except ε α}
  {y : Except ε β}

theorem bind {f : α → Except ε γ} {g : β → Except ε δ} (h : SameOutcome R x y)
    (hf : ∀ a b, R a b → SameOutcome Q (f a) (g b)) : SameOutcome Q (x >>= f) (y >>= g) := by
  cases h with
  | ok h => exact hf _ _ h
  | error e => exact .error e

theorem mapError (f : ε → ε') (h : SameOutcome R x y) :
    SameOutcome R (x.mapError f) (y.mapError f) := by
  cases h with
  | ok h => exact .ok h
  | error e => exact .error (f e)

theorem self (x : Except ε α) : SameOutcome (· = ·) x x := by
  cases x with
  | ok a => exact .ok rfl
  | error e => exact .error e

end SameOutcome

/-! ## Lists -/

section Lists

variable {α κ : Type} {R : α → α → Prop} {as bs : List α}

/-- What two tests that agree on related elements keep. -/
theorem forall₂_filter {p q : α → Bool} (hpq : ∀ a b, R a b → p a = q b)
    (h : List.Forall₂ R as bs) :
    List.Forall₂ (fun a b => R a b ∧ p a = true) (as.filter p) (bs.filter q) := by
  induction h with
  | nil => exact .nil
  | @cons a b as bs hab _ ih =>
    rw [List.filter_cons, List.filter_cons, ← hpq a b hab]
    by_cases hp : p a = true
    · rw [if_pos hp, if_pos hp]
      exact .cons ⟨hab, hp⟩ ih
    · rw [if_neg hp, if_neg hp]
      exact ih

theorem forall₂_flatMap {f g : κ → List α} (h : ∀ k, List.Forall₂ R (f k) (g k)) (ks : List κ) :
    List.Forall₂ R (ks.flatMap f) (ks.flatMap g) := by
  induction ks with
  | nil => exact .nil
  | cons k ks ih => exact List.rel_append (h k) ih

theorem rel_find? {p q : α → Bool} (hpq : ∀ a b, R a b → p a = q b) (h : List.Forall₂ R as bs) :
    Option.Rel R (as.find? p) (bs.find? q) := by
  induction h with
  | nil => exact .none
  | @cons a b as bs hab _ ih =>
    rw [List.find?_cons, List.find?_cons, ← hpq a b hab]
    cases p a with
    | false => exact ih
    | true => exact .some hab

end Lists

variable {S : String → String → Prop}

/-! ## The declarations of each kind -/

/-- Declarations of one kind that differ in texts kept as written only. -/
def Decl.LikeOf (S : String → String → Prop) (k : DeclKind) (d e : Decl) : Prop :=
  d.Like S e ∧ d.kind = k

theorem Decl.Like.kind_eq {d e : Decl} (h : d.Like S e) : d.kind = e.kind := by
  cases h <;> rfl

/-- The names that the policy looks at are no texts kept as written. -/
theorem Decl.Like.name_eq {d e : Decl} (h : d.Like S e) (hk : d.kind.isSeparable = true) :
    d.name = e.name := by
  cases h with
  | interface h => exact h.name
  | enum h => exact h.name
  | typeAlias h => exact h.name
  | ns h => cases hk
  | cls h => cases hk
  | function h => cases hk
  | vars h => cases hk

theorem Namespace.Like.name_eq {n m : Namespace} (h : n.Like S m) : n.name = m.name := by
  cases h
  rfl

theorem Namespace.Like.items {n m : Namespace} (h : n.Like S m) :
    List.Forall₂ (Item.Like S) n.items m.items := by
  cases h with
  | mk _ _ h => exact h

theorem declsOf_like {is js : List Item} (h : List.Forall₂ (Item.Like S) is js) :
    List.Forall₂ (Decl.Like S) (declsOf is) (declsOf js) := by
  refine List.rel_filterMap (fun i j hij => ?_) h
  cases hij with
  | decl h => exact .some h
  | ambientModule _ _ => exact .none
  | exportStatement _ => exact .none

theorem namespacesOf_like {is js : List Item} (h : List.Forall₂ (Item.Like S) is js) :
    List.Forall₂ (Namespace.Like S) (namespacesOf is) (namespacesOf js) := by
  refine List.rel_filterMap (fun i j hij => ?_) h
  cases hij with
  | decl h =>
    cases h with
    | ns h => exact .some h
    | _ => exact .none
  | ambientModule _ _ => exact .none
  | exportStatement _ => exact .none

theorem interfacesOf_like {is js : List Item} (h : List.Forall₂ (Item.Like S) is js) :
    List.Forall₂ (Interface.Like S) (interfacesOf is) (interfacesOf js) := by
  refine List.rel_filterMap (fun i j hij => ?_) h
  cases hij with
  | decl h =>
    cases h with
    | interface h => exact .some h
    | _ => exact .none
  | ambientModule _ _ => exact .none
  | exportStatement _ => exact .none

theorem File.Like.blocks {f g : File} (h : f.Like S g) (name : String) :
    List.Forall₂ (Namespace.Like S) (f.blocks name) (g.blocks name) := by
  refine List.Forall₂.imp (fun _ _ h => h.1) (forall₂_filter (fun n m hnm => ?_)
    (namespacesOf_like h.items))
  rw [hnm.name_eq]

theorem flatten_like {bs cs : List Namespace} (h : List.Forall₂ (Namespace.Like S) bs cs)
    (k : DeclKind) : List.Forall₂ (Decl.LikeOf S k) (flatten bs k) (flatten cs k) := by
  induction h with
  | nil => exact .nil
  | cons h _ ih =>
    refine List.rel_append (List.Forall₂.imp ?_ (forall₂_filter (fun d e hde => ?_)
      (declsOf_like h.items))) ih
    · exact fun d e hde => ⟨hde.1, by simpa using hde.2⟩
    · rw [hde.kind_eq]

/-- What a test on names keeps of a kind that can be hoisted. -/
theorem filter_name_like {k : DeclKind} (hk : k.isSeparable = true) (p : String → Bool)
    {ds es : List Decl} (h : List.Forall₂ (Decl.LikeOf S k) ds es) :
    List.Forall₂ (Decl.Like S) (ds.filter fun d => p d.name) (es.filter fun e => p e.name) := by
  refine List.Forall₂.imp (fun _ _ h => h.1.1) (forall₂_filter (fun d e hde => ?_) h)
  rw [hde.1.name_eq (hde.2 ▸ hk)]

section Kinds

variable {of of' : DeclKind → List Decl}
  (h : ∀ k, List.Forall₂ (Decl.LikeOf S k) (of k) (of' k))
include h

theorem Policy.hoistedDecls_like (p : Policy) :
    List.Forall₂ (Decl.Like S) (p.hoistedDecls of) (p.hoistedDecls of') := by
  have hnamed (k : DeclKind) (hk : k.isSeparable = true) (names : List String) :=
    filter_name_like hk (fun name => name ∈ names) (h k)
  exact List.rel_append (List.rel_append (hnamed _ rfl _) (hnamed _ rfl _)) (hnamed _ rfl _)

theorem Policy.nestedDecls_like (p : Policy) :
    List.Forall₂ (Decl.Like S) (p.nestedDecls of) (p.nestedDecls of') := by
  have hunnamed (k : DeclKind) (hk : k.isSeparable = true) (names : List String) :=
    filter_name_like hk (fun name => name ∉ names) (h k)
  have hall (k : DeclKind) : List.Forall₂ (Decl.Like S) (of k) (of' k) :=
    List.Forall₂.imp (fun _ _ h => h.1) (h k)
  exact List.rel_append (List.rel_append (List.rel_append (List.rel_append (List.rel_append
    (hunnamed _ rfl _) (hunnamed _ rfl _)) (hunnamed _ rfl _)) (hall _)) (hall _)) (hall _)

end Kinds

/-! ## Copies -/

theorem byKind_like {ds es : List Decl} (h : List.Forall₂ (Decl.Like S) ds es) :
    List.Forall₂ (Decl.Like S) (byKind ds) (byKind es) := by
  refine forall₂_flatMap (fun k => ?_) DeclKind.all
  refine List.Forall₂.imp (fun _ _ h => h.1) (forall₂_filter (fun d e hde => ?_) h)
  rw [hde.kind_eq]

theorem map_decl_like {ds es : List Decl} (h : List.Forall₂ (Decl.Like S) ds es) :
    List.Forall₂ (Item.Like S) (ds.map .decl) (es.map .decl) :=
  List.rel_map (fun _ _ h => .decl h) h

mutual

theorem Decl.Like.regrouped : (d : Decl) → {e : Decl} → d.Like S e →
    d.regrouped.Like S e.regrouped
  | .ns n, _, .ns h => by
    rw [Decl.regrouped, Decl.regrouped]
    exact .ns (Namespace.Like.regrouped n h)
  | .interface _, _, .interface h => by
    rw [Decl.regrouped, Decl.regrouped]
    exact .interface h
  | .enum _, _, .enum h => by
    rw [Decl.regrouped, Decl.regrouped]
    exact .enum h
  | .typeAlias _, _, .typeAlias h => by
    rw [Decl.regrouped, Decl.regrouped]
    exact .typeAlias h
  | .cls _, _, .cls h => by
    rw [Decl.regrouped, Decl.regrouped]
    exact .cls h
  | .function _, _, .function h => by
    rw [Decl.regrouped, Decl.regrouped]
    exact .function h
  | .vars _, _, .vars h => by
    rw [Decl.regrouped, Decl.regrouped]
    exact .vars h

theorem Namespace.Like.regrouped : (n : Namespace) → {m : Namespace} → n.Like S m →
    n.regrouped.Like S m.regrouped
  | ⟨_, _, is⟩, _, .mk _ _ h => by
    rw [Namespace.regrouped, Namespace.regrouped]
    exact .mk _ _ (map_decl_like (byKind_like (regroupedDecls_like is h)))

theorem regroupedDecls_like : (is : List Item) → {js : List Item} →
    List.Forall₂ (Item.Like S) is js →
    List.Forall₂ (Decl.Like S) (regroupedDecls is) (regroupedDecls js)
  | [], _, .nil => .nil
  | .decl d :: is, _, .cons (.decl h) hs => by
    rw [regroupedDecls, regroupedDecls]
    exact .cons (Decl.Like.regrouped d h) (regroupedDecls_like is hs)
  | .ambientModule _ _ :: is, _, .cons (.ambientModule _ _) hs => by
    rw [regroupedDecls, regroupedDecls]
    exact regroupedDecls_like is hs
  | .exportStatement _ :: is, _, .cons (.exportStatement _) hs => by
    rw [regroupedDecls, regroupedDecls]
    exact regroupedDecls_like is hs

end

/-! ## Interfaces by name -/

theorem findInterface?_like (name : String) {is js : List Item}
    (h : List.Forall₂ (Item.Like S) is js) :
    Option.Rel (Interface.Like S) (findInterface? name is) (findInterface? name js) := by
  refine rel_find? (fun i j hij => ?_) (interfacesOf_like h)
  rw [hij.name]

theorem replaceInterface_like (name : String) {new new' : Interface} (hnew : new.Like S new')
    {is js : List Item} (h : List.Forall₂ (Item.Like S) is js) :
    List.Forall₂ (Item.Like S) (replaceInterface name new is) (replaceInterface name new' js) := by
  induction h with
  | nil => exact .nil
  | @cons i j is js hij hrest ih =>
    cases hij with
    | ambientModule name h => exact .cons (.ambientModule name h) ih
    | exportStatement h => exact .cons (.exportStatement h) ih
    | decl h =>
      cases h with
      | interface h =>
        rw [replaceInterface, replaceInterface, ← h.name]
        split
        · exact .cons (.decl (.interface hnew)) hrest
        · exact .cons (.decl (.interface h)) ih
      | ns h => exact .cons (.decl (.ns h)) ih
      | enum h => exact .cons (.decl (.enum h)) ih
      | typeAlias h => exact .cons (.decl (.typeAlias h)) ih
      | cls h => exact .cons (.decl (.cls h)) ih
      | function h => exact .cons (.decl (.function h)) ih
      | vars h => exact .cons (.decl (.vars h)) ih

/-! ## Rules -/

theorem firstIndex?_like {ms ns : List Member} (h : List.Forall₂ (Member.Like S) ms ns) :
    Option.Rel (IndexSignature.Like S) (firstIndex? ms) (firstIndex? ns) := by
  induction h with
  | nil => exact .none
  | cons hm _ ih =>
    obtain ⟨doc, hs⟩ := hm
    cases hs with
    | index h => exact .some h
    | property _ _ _ _ => exact ih
    | method _ _ _ _ => exact ih
    | call _ _ => exact ih
    | construct _ _ _ => exact ih
    | accessor _ => exact ih

theorem replaceFirstIndex_like {i j : IndexSignature} (hij : i.Like S j) {ms ns : List Member}
    (h : List.Forall₂ (Member.Like S) ms ns) :
    List.Forall₂ (Member.Like S) (replaceFirstIndex i ms) (replaceFirstIndex j ns) := by
  induction h with
  | nil => exact .nil
  | cons hm hrest ih =>
    obtain ⟨doc, hs⟩ := hm
    cases hs with
    | index _ => exact .cons (.mk doc (.index hij)) hrest
    | property o r hn ht => exact .cons (.mk doc (.property o r hn ht)) ih
    | method o hn hs ht => exact .cons (.mk doc (.method o hn hs ht)) ih
    | call hs ht => exact .cons (.mk doc (.call hs ht)) ih
    | construct hp ha ht => exact .cons (.mk doc (.construct hp ha ht)) ih
    | accessor h => exact .cons (.mk doc (.accessor h)) ih

namespace QualifyRule

variable (r : QualifyRule) (ns : String)

theorem qualify_like {t u : Ty} (h : t.Like S u) : (r.qualify ns t).Like S (r.qualify ns u) := by
  cases h with
  | named name h =>
    rw [qualify, qualify]
    split
    · exact .named _ h
    · exact .named _ h
  | _ => simpa only [qualify] using by constructor <;> assumption

theorem affects_eq {t u : Ty} (h : t.Like S u) : r.affects t = r.affects u := by
  cases h <;> rfl

theorem countP_affects_eq {ts us : List Ty} (h : List.Forall₂ (Ty.Like S) ts us) :
    ts.countP r.affects = us.countP r.affects := by
  induction h with
  | nil => rfl
  | cons h _ ih => rw [List.countP_cons, List.countP_cons, ih, r.affects_eq h]

theorem applyTo_like {i j : Interface} (h : i.Like S j) :
    SameOutcome (fun x y => x.1.Like S y.1 ∧ x.2 = y.2) (r.applyTo ns i) (r.applyTo ns j) := by
  have hindex := firstIndex?_like h.members
  rw [applyTo, applyTo]
  generalize firstIndex? i.members = x at hindex
  generalize firstIndex? j.members = y at hindex
  cases hindex with
  | none => exact .error _
  | some hsig =>
    obtain ⟨readonly, isStatic, hk, ht, hv⟩ := hsig
    cases hv with
    | union hts =>
      refine .ok ⟨⟨h.name, h.doc, h.typeParams, h.supers, ?_⟩, r.countP_affects_eq hts⟩
      have hnew := List.rel_map (fun _ _ h => r.qualify_like ns h) hts
      exact replaceFirstIndex_like (.mk readonly isStatic hk ht (.union hnew)) h.members
    | _ => exact .error _

end QualifyRule

/-! ## Modules -/

/-- Wrapping namespaces that differ in texts kept as written only. -/
structure WrappingNamespace.Like (S : String → String → Prop) (n m : WrappingNamespace) : Prop where
  name : n.name = m.name
  items : List.Forall₂ (Item.Like S) n.items m.items
  statements : n.statements = m.statements

/-- Modules that differ in texts kept as written only. -/
structure OutputModule.Like (S : String → String → Prop) (m n : OutputModule) : Prop where
  path : m.path = n.path
  header : m.header = n.header
  imports : m.imports = n.imports
  items : List.Forall₂ (Item.Like S) m.items n.items
  wrapping : Option.Rel (WrappingNamespace.Like S) m.wrapping? n.wrapping?

theorem QualifyRule.apply_like (r : QualifyRule) (ns : String) {m n : OutputModule}
    (h : m.Like S n) :
    SameOutcome (fun x y => x.1.Like S y.1 ∧ x.2 = y.2) (r.apply ns m) (r.apply ns n) := by
  have hfind := findInterface?_like r.interface h.items
  rw [apply, apply]
  generalize findInterface? r.interface m.items = x at hfind
  generalize findInterface? r.interface n.items = y at hfind
  cases hfind with
  | none => exact .error _
  | some hi =>
    refine (r.applyTo_like ns hi).bind fun x y hxy => .ok ⟨?_, hxy.2⟩
    exact ⟨h.path, h.header, h.imports, replaceInterface_like _ hxy.1 h.items, h.wrapping⟩

/-- Rules do the same to modules that are alike, also where one of them fails. -/
theorem applyRules_like (ns : String) (rs : List QualifyRule) {m n : OutputModule}
    (h : m.Like S n) :
    (applyRules ns rs m).1.Like S (applyRules ns rs n).1 ∧
      (applyRules ns rs m).2.outcome = (applyRules ns rs n).2.outcome := by
  induction rs generalizing m n with
  | nil => exact ⟨h, rfl⟩
  | cons r rs ih =>
    have happly := r.apply_like ns h
    rw [applyRules, applyRules]
    generalize r.apply ns m = x at happly
    generalize r.apply ns n = y at happly
    cases happly with
    | error e => exact ⟨h, rfl⟩
    | ok hxy => exact ih hxy.1

section Texts

variable (hS : Joins S)
include hS

theorem BrandConfig.member_like (b : BrandConfig) : b.member.Like S b.member :=
  .mk _ (.property false false (hS.refl _) (.some (.primitive _)))

theorem WrappingNamespace.Like.branded {n m : WrappingNamespace} (h : n.Like S m)
    (b : BrandConfig) : SameOutcome (WrappingNamespace.Like S) (n.branded b) (m.branded b) := by
  have hfind := findInterface?_like b.interface h.items
  rw [WrappingNamespace.branded, WrappingNamespace.branded]
  generalize findInterface? b.interface n.items = x at hfind
  generalize findInterface? b.interface m.items = y at hfind
  cases hfind with
  | none => exact .error _
  | some hi =>
    refine .ok ⟨h.name, replaceInterface_like _ ?_ h.items, h.statements⟩
    have hbrand : List.Forall₂ (Member.Like S) [b.member] [b.member] :=
      .cons (b.member_like hS) .nil
    exact ⟨hi.name, hi.doc, hi.typeParams, hi.supers, List.rel_append hi.members hbrand⟩

theorem Policy.assembled_like (p : Policy) (config : Config) (version : Option String)
    (path : Path) {of of' : DeclKind → List Decl}
    (h : ∀ k, List.Forall₂ (Decl.LikeOf S k) (of k) (of' k)) :
    SameOutcome (OutputModule.Like S) (p.assembled config version path of)
      (p.assembled config version path of') := by
  have hstart : (p.hoistedModule config path of).Like S (p.hoistedModule config path of') :=
    ⟨rfl, rfl, rfl, map_decl_like (p.hoistedDecls_like h), .none⟩
  have hwrapping : (p.wrappingOf config of).Like S (p.wrappingOf config of') := by
    refine ⟨rfl, List.rel_append ?_ (map_decl_like (p.nestedDecls_like h)), rfl⟩
    exact List.rel_map (fun d _ hd => .decl (Decl.Like.regrouped d hd.1)) (h .ns)
  obtain ⟨hqualified, houtcome⟩ := applyRules_like config.wrapper config.rules hstart
  rw [Policy.assembled, Policy.assembled, ← houtcome]
  refine (SameOutcome.self _).bind fun _ _ _ => ?_
  refine (hwrapping.branded hS config.brand).bind fun n m hnm => ?_
  exact .ok ⟨hqualified.path, rfl, hqualified.imports, hqualified.items,
    .some ⟨hnm.name, hnm.items, rfl⟩⟩

/-- **Files that are alike are assembled to modules that are alike, or fail in the same way.** -/
theorem File.Like.assemble {f g : File} (h : f.Like S g) (config : Config) (p : Policy)
    (version : Option String) (path : Path) :
    SameOutcome (OutputModule.Like S) (assemble config p version f path).outcome
      (assemble config p version g path).outcome := by
  have hblocks := h.blocks config.sourceNamespace
  by_cases hnone : f.blocks config.sourceNamespace = []
  · have hnone' : g.blocks config.sourceNamespace = [] := by
      rw [hnone, List.forall₂_nil_left_iff] at hblocks
      exact hblocks
    have hmissing (e : File) (he : e.blocks config.sourceNamespace = []) :
        (Ambient.assemble config p version e path).outcome =
          .error (.missingNamespace config.sourceNamespace) := by
      rw [Ambient.assemble, he]
      rfl
    rw [hmissing f hnone, hmissing g hnone']
    exact .error _
  · have hsome : g.blocks config.sourceNamespace ≠ [] := by
      intro he
      rw [he, List.forall₂_nil_right_iff] at hblocks
      exact hnone hblocks
    rw [outcome_assemble config p version f path hnone,
      outcome_assemble config p version g path hsome]
    exact p.assembled_like hS config version path (flatten_like hblocks)

/-! ## Texts of modules -/

theorem WrappingNamespace.Like.print {n m : WrappingNamespace} (h : n.Like S m) :
    S n.print m.print := by
  have hitems := printItems_like hS .module 1 h.items
  unfold WrappingNamespace.print
  rw [h.name, h.statements]
  exact hS.before (hS.before (hS.behind _ hitems) _) _

/-- **Modules that are alike are printed to related texts.** -/
theorem OutputModule.Like.print {m n : OutputModule} (h : m.Like S n) : S m.print n.print := by
  have hitems : S (if m.items.isEmpty then "" else "\n" ++ printItems .module 0 m.items)
      (if n.items.isEmpty then "" else "\n" ++ printItems .module 0 n.items) := by
    rw [isEmpty_eq_of_forall₂ h.items]
    split
    · exact hS.refl _
    · exact hS.behind _ (printItems_like hS _ _ h.items)
  have hwrapping : S (m.wrapping?.elim "" ("\n" ++ ·.print)) (n.wrapping?.elim "" ("\n" ++ ·.print)) := by
    have h := h.wrapping
    generalize m.wrapping? = x at h
    generalize n.wrapping? = y at h
    cases h with
    | none => exact hS.refl _
    | some h => exact hS.behind _ (h.print hS)
  rw [OutputModule.print, OutputModule.print, h.header, h.imports]
  exact hS.append (hS.append (hS.refl _) hitems) hwrapping

end Texts

end Ambient
