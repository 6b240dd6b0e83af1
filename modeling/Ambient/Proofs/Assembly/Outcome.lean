import Ambient.Proofs.Assembly.Partition
import Ambient.Proofs.Assembly.Separation

/-!
# When a module is assembled

`assemble_outcome` reads the outcome of assembly off the source and the configuration. The checks
themselves run on a module that earlier rules have changed already. What they look at is the name of
an interface and whether its first index signature has a union (`Interface.unionAtIndex?`), and no
rule changes that (`shapes_applyRules`), so that every rule can be judged on the source.
-/

namespace Ambient

/-! ## The interfaces of the source -/

/-- The interfaces in all blocks of a namespace. -/
def File.interfaces (f : File) (name : String) : List Interface :=
  (f.blocks name).flatMap fun b => interfacesOf b.items

namespace Config

/-- The interfaces of a file that a configuration hoists. -/
def hoistedInterfaces (c : Config) (f : File) : List Interface :=
  (f.interfaces c.sourceNamespace).filter fun i => i.name ∈ c.interfaceNames

/-- The interfaces of a file that a configuration leaves in the wrapping namespace. -/
def nestedInterfaces (c : Config) (f : File) : List Interface :=
  (f.interfaces c.sourceNamespace).filter fun i => i.name ∉ c.interfaceNames

end Config

theorem interfacesOf_append (as bs : List Item) :
    interfacesOf (as ++ bs) = interfacesOf as ++ interfacesOf bs :=
  List.filterMap_append

/-- Declarations of another kind are no interfaces. -/
theorem interfacesOf_decls_of_kind {ds : List Decl} (h : ∀ d ∈ ds, d.kind ≠ .interface) :
    interfacesOf (ds.map .decl) = [] := by
  rw [interfacesOf, List.filterMap_map, List.filterMap_eq_nil_iff]
  intro d hd
  have := h d hd
  cases d <;> first | rfl | exact absurd rfl this

/-- Copies of declarations of another kind are no interfaces either. -/
theorem interfacesOf_copied_of_kind {ds : List Decl} (h : ∀ d ∈ ds, d.kind ≠ .interface) :
    interfacesOf (ds.map Decl.copied) = [] := by
  have hds : ds.map Decl.copied = (ds.map Decl.regrouped).map .decl := by
    rw [List.map_map]
    rfl
  rw [hds]
  refine interfacesOf_decls_of_kind fun d hd => ?_
  obtain ⟨d', hd', rfl⟩ := List.mem_map.1 hd
  rw [Decl.kind_regrouped]
  exact h d' hd'

/-- The interfaces among the declarations of that kind, chosen by their names. -/
theorem interfacesOf_flatten (bs : List Namespace) (P : String → Bool) :
    interfacesOf (((flatten bs .interface).filter fun d => P d.name).map .decl) =
      (bs.flatMap fun b => interfacesOf b.items).filter fun i => P i.name := by
  induction bs with
  | nil => rfl
  | cons b bs ih =>
    have hflat : flatten (b :: bs) .interface = b.decls .interface ++ flatten bs .interface := rfl
    have hblock (items : List Item) :
        interfacesOf ((((declsOf items).filter fun d => d.kind = .interface).filter
          fun d => P d.name).map .decl) = (interfacesOf items).filter fun i => P i.name := by
      induction items with
      | nil => rfl
      | cons item items ih =>
        cases item with
        | decl d =>
          cases d with
          | interface i =>
            have hhead (ds : List Decl) : interfacesOf (.decl (.interface i) :: ds.map .decl) =
              i :: interfacesOf (ds.map .decl) := rfl
            by_cases hi : P i.name = true <;>
              simp_all [declsOf, Item.decl?, Decl.kind, interfacesOf, Decl.name, Decl.name?]
          | _ => exact ih
        | _ => exact ih
    rw [hflat, List.filter_append, List.map_append, interfacesOf_append, ih, Namespace.decls,
      hblock, List.flatMap_cons, List.filter_append]

/-! ## What a rule looks at -/

/-- Whether the first index signature has a union, if there is one. -/
def Interface.unionAtIndex? (i : Interface) : Option Bool :=
  (firstIndex? i.members).map fun sig =>
    match sig.valueType with
    | .union _ => true
    | _ => false

/-- What keeps the names in an interface from being qualified. -/
def Interface.fault? (i : Interface) : Option QualifyFault :=
  match i.unionAtIndex? with
  | none => some .noIndexSignature
  | some false => some .notAUnion
  | some true => none

/-- What keeps a rule from being applied where these are the hoisted interfaces. The first one with
the name counts. -/
def QualifyRule.fault? (r : QualifyRule) (is : List Interface) : Option QualifyFault :=
  match is.find? fun i => i.name = r.interface with
  | none => some .notHoisted
  | some i => i.fault?

/-- The error of the first rule that cannot be applied. -/
def firstFault? (rs : List QualifyRule) (is : List Interface) : Option AssemblyError :=
  rs.findSome? fun r => (r.fault? is).map (.cannotQualify r.interface)

/-- All that rules look at in some interfaces. -/
def shapes (is : List Interface) : List (String × Option Bool) :=
  is.map fun i => (i.name, i.unionAtIndex?)

theorem QualifyRule.fault?_congr (r : QualifyRule) {is js : List Interface}
    (h : shapes is = shapes js) : r.fault? is = r.fault? js := by
  induction is generalizing js with
  | nil =>
    obtain rfl : js = [] := by simpa [shapes] using h.symm
    rfl
  | cons i is ih =>
    cases js with
    | nil => simp [shapes] at h
    | cons j js =>
      obtain ⟨⟨hname, hunion⟩, hrest⟩ : (i.name = j.name ∧ i.unionAtIndex? = j.unionAtIndex?) ∧
          shapes is = shapes js := by
        simpa [shapes] using h
      by_cases hr : j.name = r.interface
      · simp [fault?, Interface.fault?, hname, hr, hunion]
      · have := ih hrest
        simpa [fault?, hname, hr] using this

theorem firstFault?_congr (rs : List QualifyRule) {is js : List Interface}
    (h : shapes is = shapes js) : firstFault? rs is = firstFault? rs js := by
  have hall : (fun r : QualifyRule => (r.fault? is).map (AssemblyError.cannotQualify r.interface)) =
      fun r => (r.fault? js).map (.cannotQualify r.interface) := by
    funext r
    rw [r.fault?_congr h]
  rw [firstFault?, firstFault?, hall]

/-! ## One rule -/

theorem unionAtIndex?_mapFirstUnion (f : Ty → Ty) (i : Interface) :
    Interface.unionAtIndex? { i with members := mapFirstUnion f i.members } = i.unionAtIndex? := by
  have hmembers (ms : List Member) : (firstIndex? (mapFirstUnion f ms)).map (fun sig =>
      match sig.valueType with | .union _ => true | _ => false) =
      (firstIndex? ms).map (fun sig =>
        match sig.valueType with | .union _ => true | _ => false) := by
    fun_induction mapFirstUnion f ms with
    | case1 => rfl
    | case2 doc sig ms ts hts => simp [firstIndex?, hts]
    | case3 doc sig ms hts => rfl
    | case4 m ms hm ih =>
      obtain ⟨doc, shape⟩ := m
      cases shape with
      | index sig => exact absurd rfl (hm doc sig)
      | _ => exact ih
  exact hmembers i.members

theorem shapes_replaceInterface {name : String} {items : List Item} {i new : Interface}
    (h : findInterface? name items = some i) (hname : new.name = i.name)
    (hunion : new.unionAtIndex? = i.unionAtIndex?) :
    shapes (interfacesOf (replaceInterface name new items)) = shapes (interfacesOf items) := by
  obtain ⟨before, after, rfl, -, -, hnew⟩ := replaceInterface_of_find h new
  rw [hnew, interfacesOf_append, interfacesOf_append]
  simp [shapes, interfacesOf, hname, hunion]

theorem QualifyRule.applyTo_cases (r : QualifyRule) (ns : String) (i : Interface) :
    (∃ f, i.fault? = some f ∧ r.applyTo ns i = .error (.cannotQualify r.interface f)) ∨
    (i.fault? = none ∧ ∃ new count, r.applyTo ns i = .ok (new, count)) := by
  unfold Interface.fault? Interface.unionAtIndex? applyTo
  cases firstIndex? i.members with
  | none => exact .inl ⟨_, rfl, rfl⟩
  | some sig =>
    simp only [Option.map_some]
    cases sig.valueType with
    | union ts => exact .inr ⟨rfl, _, _, rfl⟩
    | _ => exact .inl ⟨_, rfl, rfl⟩

/-- **What one rule does:** it fails with its fault, or there is none and what rules look at stays
as it was. -/
theorem QualifyRule.apply_cases (r : QualifyRule) (ns : String) (m : OutputModule) :
    (∃ f, r.fault? (interfacesOf m.items) = some f ∧
      r.apply ns m = .error (.cannotQualify r.interface f)) ∨
    (r.fault? (interfacesOf m.items) = none ∧ ∃ m' count, r.apply ns m = .ok (m', count) ∧
      shapes (interfacesOf m'.items) = shapes (interfacesOf m.items)) := by
  unfold fault? apply
  cases hi : findInterface? r.interface m.items with
  | none =>
    rw [findInterface?] at hi
    rw [hi]
    exact .inl ⟨.notHoisted, rfl, rfl⟩
  | some i =>
    have hfind := hi
    rw [findInterface?] at hfind
    rw [hfind]
    rcases r.applyTo_cases ns i with ⟨f, hf, he⟩ | ⟨hf, new, count, hnew⟩
    · exact .inl ⟨f, hf, by simp only [he]; rfl⟩
    · refine .inr ⟨hf, _, count, by simp only [hnew]; rfl, ?_⟩
      obtain rfl := applyTo_ok hnew
      exact shapes_replaceInterface hi rfl (unionAtIndex?_mapFirstUnion _ i)

/-! ## All rules -/

/-- Rules change nothing that rules look at, also where one of them fails. -/
theorem shapes_applyRules (ns : String) (rs : List QualifyRule) (m : OutputModule) :
    shapes (interfacesOf (applyRules ns rs m).1.items) = shapes (interfacesOf m.items) := by
  induction rs generalizing m with
  | nil => rfl
  | cons r rs ih =>
    rw [applyRules]
    rcases r.apply_cases ns m with ⟨f, -, he⟩ | ⟨-, m', count, hm', hshapes⟩
    · rw [he]
    · rw [hm', ← hshapes]
      exact ih m'

/-- The rules fail like the first one that cannot be applied to the module as it was before all of
them. -/
theorem outcome_applyRules (ns : String) (rs : List QualifyRule) (m : OutputModule) :
    (applyRules ns rs m).2.outcome =
      (firstFault? rs (interfacesOf m.items)).elim (.ok ()) .error := by
  induction rs generalizing m with
  | nil => rfl
  | cons r rs ih =>
    rw [applyRules, firstFault?, List.findSome?_cons]
    rcases r.apply_cases ns m with ⟨f, hf, he⟩ | ⟨hf, m', count, hm', hshapes⟩
    · rw [he, hf]
      rfl
    · rw [hm', hf]
      show (applyRules ns rs m').2.outcome = _
      rw [ih m', firstFault?_congr rs hshapes]
      rfl

/-! ## The brand -/

theorem outcome_branded (n : WrappingNamespace) (b : BrandConfig) :
    (∃ n', n.branded b = .ok n') ∧ (∃ i ∈ interfacesOf n.items, i.name = b.interface) ∨
    n.branded b = .error (.missingBrandTarget b.interface) ∧
      ∀ i ∈ interfacesOf n.items, i.name ≠ b.interface := by
  unfold WrappingNamespace.branded findInterface?
  cases hi : (interfacesOf n.items).find? fun i => i.name = b.interface with
  | none =>
    refine .inr ⟨rfl, fun i hmem => ?_⟩
    simpa using List.find?_eq_none.1 hi i hmem
  | some i =>
    refine .inl ⟨⟨_, rfl⟩, i, List.mem_of_find?_eq_some hi, ?_⟩
    simpa using List.find?_some hi

/-! ## The outcome -/

theorem Config.interfacesOf_hoistedModule (c : Config) (f : File) (path : Path) :
    interfacesOf (c.lists.hoistedModule c path (flatten (f.blocks c.sourceNamespace))).items =
      c.hoistedInterfaces f := by
  have other (k : DeclKind) (names : List String) (hk : k ≠ .interface) :
      interfacesOf ((named names (flatten (f.blocks c.sourceNamespace) k)).map .decl) = [] := by
    refine interfacesOf_decls_of_kind fun d hd => ?_
    rwa [kind_of_mem_flatten (List.mem_filter.1 hd).1]
  rw [Policy.hoistedModule, Policy.hoistedDecls, List.map_append, List.map_append,
    interfacesOf_append, interfacesOf_append, other .enum _ (by decide),
    other .typeAlias _ (by decide), List.nil_append, List.append_nil, named]
  have hflat := interfacesOf_flatten (f.blocks c.sourceNamespace) fun s => s ∈ c.interfaceNames
  simpa [Config.lists, Policy.ofNames, Config.hoistedInterfaces, File.interfaces] using hflat

theorem Config.interfacesOf_wrappingOf (c : Config) (f : File) :
    interfacesOf (c.lists.wrappingOf c (flatten (f.blocks c.sourceNamespace))).items =
      c.nestedInterfaces f := by
  have other (k : DeclKind) (names : List String) (hk : k ≠ .interface) :
      interfacesOf ((unnamed names (flatten (f.blocks c.sourceNamespace) k)).map .decl) = [] := by
    refine interfacesOf_decls_of_kind fun d hd => ?_
    rwa [kind_of_mem_flatten (List.mem_filter.1 hd).1]
  have whole (k : DeclKind) (hk : k ≠ .interface) :
      interfacesOf ((flatten (f.blocks c.sourceNamespace) k).map .decl) = [] := by
    refine interfacesOf_decls_of_kind fun d hd => ?_
    rwa [kind_of_mem_flatten hd]
  have hcopied : interfacesOf ((flatten (f.blocks c.sourceNamespace) .ns).map Decl.copied) = [] := by
    refine interfacesOf_copied_of_kind fun d hd => ?_
    rw [kind_of_mem_flatten hd]
    decide
  rw [Policy.wrappingOf, interfacesOf_append, hcopied, Policy.nestedDecls]
  simp only [List.map_append, interfacesOf_append]
  rw [other .enum _ (by decide), other .typeAlias _ (by decide), whole .cls (by decide),
    whole .function (by decide), whole .vars (by decide), unnamed]
  have hflat := interfacesOf_flatten (f.blocks c.sourceNamespace) fun s => s ∉ c.interfaceNames
  simpa [Config.lists, Policy.ofNames, Config.nestedInterfaces, File.interfaces] using hflat

/-- No namespace at the top level has the name that is looked for. -/
def Config.NoNamespace (c : Config) (f : File) : Prop :=
  ∀ n, .decl (.ns n) ∈ f.items → n.name ≠ c.sourceNamespace

theorem Config.blocks_eq_nil_iff (c : Config) (f : File) :
    f.blocks c.sourceNamespace = [] ↔ c.NoNamespace f := by
  rw [File.blocks, List.filter_eq_nil_iff, NoNamespace]
  have hmem (n : Namespace) : n ∈ namespacesOf f.items ↔ .decl (.ns n) ∈ f.items := by
    rw [namespacesOf, List.mem_filterMap]
    constructor
    · rintro ⟨item, hitem, hn⟩
      split at hn
      · obtain rfl := Option.some.inj hn
        exact hitem
      · cases hn
    · intro hitem
      exact ⟨_, hitem, rfl⟩
  simp only [hmem, decide_eq_true_eq]

/-- The first of the rules that cannot be applied to some interfaces, with its fault. -/
def FirstFault (rs : List QualifyRule) (is : List Interface) (r : QualifyRule) (f : QualifyFault) :
    Prop :=
  ∃ before after, rs = before ++ r :: after ∧ (∀ q ∈ before, q.fault? is = none) ∧
    r.fault? is = some f

theorem firstFault?_eq_none_iff {rs : List QualifyRule} {is : List Interface} :
    firstFault? rs is = none ↔ ∀ r ∈ rs, r.fault? is = none := by
  simp [firstFault?]

theorem eq_cannotQualify_of_firstFault? {rs : List QualifyRule} {is : List Interface}
    {e : AssemblyError} (h : firstFault? rs is = some e) :
    ∃ name fault, e = .cannotQualify name fault := by
  obtain ⟨r, -, hr⟩ := List.exists_of_findSome?_eq_some h
  obtain ⟨f, -, rfl⟩ := Option.map_eq_some_iff.1 hr
  exact ⟨r.interface, f, rfl⟩

theorem firstFault?_eq_some_iff {rs : List QualifyRule} {is : List Interface} {name : String}
    {fault : QualifyFault} :
    firstFault? rs is = some (.cannotQualify name fault) ↔
      ∃ r, FirstFault rs is r fault ∧ name = r.interface := by
  rw [firstFault?, List.findSome?_eq_some_iff]
  constructor
  · rintro ⟨before, r, after, hrs, hr, hbefore⟩
    obtain ⟨f, hf, he⟩ := Option.map_eq_some_iff.1 hr
    cases he
    exact ⟨r, ⟨before, after, hrs, by simpa using hbefore, hf⟩, rfl⟩
  · rintro ⟨r, ⟨before, after, hrs, hbefore, hf⟩, rfl⟩
    refine ⟨before, r, after, hrs, ?_, by simpa using hbefore⟩
    rw [hf]
    rfl

/-- The outcome where there is a block: first the rules, then the brand. -/
theorem Config.outcome_of_blocks {c : Config} {f : File} (version : Option String) (path : Path)
    (hblocks : f.blocks c.sourceNamespace ≠ []) :
    let outcome := (assemble c c.lists version f path).outcome
    (∃ e, firstFault? c.rules (c.hoistedInterfaces f) = some e ∧ outcome = .error e) ∨
    firstFault? c.rules (c.hoistedInterfaces f) = none ∧
      ((∃ m, outcome = .ok m) ∧ (∃ i ∈ c.nestedInterfaces f, i.name = c.brand.interface) ∨
        outcome = .error (.missingBrandTarget c.brand.interface) ∧
          ∀ i ∈ c.nestedInterfaces f, i.name ≠ c.brand.interface) := by
  intro outcome
  have hrules := outcome_applyRules c.wrapper c.rules
    (c.lists.hoistedModule c path (flatten (f.blocks c.sourceNamespace)))
  have hbrand := outcome_branded
    (c.lists.wrappingOf c (flatten (f.blocks c.sourceNamespace))) c.brand
  rw [c.interfacesOf_hoistedModule f path] at hrules
  rw [c.interfacesOf_wrappingOf f] at hbrand
  have houtcome : outcome = _ := outcome_assemble c _ version f path hblocks
  rw [houtcome, Policy.assembled]
  cases hfault : firstFault? c.rules (c.hoistedInterfaces f) with
  | some e =>
    refine .inl ⟨e, rfl, ?_⟩
    rw [hrules, hfault]
    rfl
  | none =>
    refine .inr ⟨rfl, ?_⟩
    rw [hrules, hfault]
    rcases hbrand with ⟨⟨n', hn'⟩, hi⟩ | ⟨he, hno⟩
    · refine .inl ⟨?_, hi⟩
      rw [hn']
      exact ⟨_, rfl⟩
    · refine .inr ⟨?_, hno⟩
      rw [he]
      rfl

/-- **The source and the configuration decide the outcome of assembly.** If no name is in two of the
lists of names to hoist, there is a policy, and

1. a namespace is missing exactly if none at the top level has the name;
2. else a name cannot be qualified exactly if some rule has a fault, judged on the interfaces of the
   source that are hoisted, and the first such rule is reported;
3. else the interface to brand is missing exactly if none of the interfaces that stay has its name;
4. else, and only then, there is a module.

No container refuses a declaration. Rules in front of a rule change nothing about whether it can be
applied. An interface cannot be branded if its name is listed. -/
theorem assemble_outcome {config : Config} (h : config.ListsDisjoint) (version : Option String)
    (file : File) (path : Path) :
    ∃ p, config.policy = .ok p ∧
      let outcome := (assemble config p version file path).outcome
      let hoisted := config.hoistedInterfaces file
      let nested := config.nestedInterfaces file
      let start := p.hoistedModule config path (flatten (file.blocks config.sourceNamespace))
      (∀ name, outcome = .error (.missingNamespace name) ↔
        config.NoNamespace file ∧ name = config.sourceNamespace) ∧
      (∀ name fault, outcome = .error (.cannotQualify name fault) ↔
        ¬config.NoNamespace file ∧
          ∃ r, FirstFault config.rules hoisted r fault ∧ name = r.interface) ∧
      (∀ name, outcome = .error (.missingBrandTarget name) ↔
        ¬config.NoNamespace file ∧ (∀ r ∈ config.rules, r.fault? hoisted = none) ∧
          (∀ i ∈ nested, i.name ≠ config.brand.interface) ∧ name = config.brand.interface) ∧
      ((∃ m, outcome = .ok m) ↔
        ¬config.NoNamespace file ∧ (∀ r ∈ config.rules, r.fault? hoisted = none) ∧
          ∃ i ∈ nested, i.name = config.brand.interface) ∧
      (∀ container kind, outcome ≠ .error (.cannotContain container kind)) ∧
      (∀ rs (r : QualifyRule) e, r.apply config.wrapper (applyRules config.wrapper rs start).1 = .error e ↔
        r.apply config.wrapper start = .error e) ∧
      (config.brand.interface ∈ config.interfaceNames → ∀ m, outcome ≠ .ok m) := by
  refine ⟨_, h.policy, ?_⟩
  intro outcome hoisted nested start
  have hearlier (rs : List QualifyRule) (r : QualifyRule) (e : AssemblyError) :
      r.apply config.wrapper (applyRules config.wrapper rs start).1 = .error e ↔
        r.apply config.wrapper start = .error e := by
    have hsame := r.fault?_congr (shapes_applyRules config.wrapper rs start)
    rcases r.apply_cases config.wrapper (applyRules config.wrapper rs start).1 with
      ⟨f, hf, he⟩ | ⟨hf, m, n, hm, -⟩ <;>
    rcases r.apply_cases config.wrapper start with ⟨g, hg, he'⟩ | ⟨hg, m', n', hm', -⟩
    · obtain rfl : f = g := by simpa [hf, hg] using hsame
      rw [he, he']
    · simp [hf, hg] at hsame
    · simp [hf, hg] at hsame
    · rw [hm, hm']
      simp
  have hlisted : config.brand.interface ∈ config.interfaceNames →
      ∀ i ∈ nested, i.name ≠ config.brand.interface := by
    intro hb i hi he
    have hnot := (List.mem_filter.1 hi).2
    rw [he] at hnot
    exact absurd hb (by simpa using hnot)
  by_cases hno : config.NoNamespace file
  · have hmissing : outcome = .error (.missingNamespace config.sourceNamespace) := by
      have hempty : (file.blocks config.sourceNamespace).isEmpty = true := by
        rw [(config.blocks_eq_nil_iff file).2 hno]
        rfl
      show (assemble _ _ _ _ _).outcome = _
      rw [assemble, hempty]
      rfl
    rw [hmissing]
    simp only [hno, not_true_eq_false, false_and, true_and]
    refine ⟨?_, ?_, ?_, ?_, ?_, hearlier, ?_⟩ <;> simp [eq_comm]
  · have hblocks := mt (config.blocks_eq_nil_iff file).1 hno
    simp only [hno, not_false_eq_true, true_and, false_and, ← firstFault?_eq_none_iff,
      ← firstFault?_eq_some_iff]
    rcases config.outcome_of_blocks version path hblocks with
      ⟨e, hfault, he⟩ | ⟨hfault, ⟨⟨m, hm⟩, i, hi, hname⟩ | ⟨he, hnone⟩⟩
    · obtain ⟨name, fault, rfl⟩ := eq_cannotQualify_of_firstFault? hfault
      have houtcome : outcome = _ := he
      rw [houtcome, show firstFault? config.rules hoisted = _ from hfault]
      refine ⟨?_, ?_, ?_, ?_, ?_, hearlier, ?_⟩ <;> simp
    · have houtcome : outcome = _ := hm
      have hbranded : ∃ i ∈ nested, i.name = config.brand.interface := ⟨i, hi, hname⟩
      rw [houtcome, show firstFault? config.rules hoisted = _ from hfault]
      refine ⟨by simp, by simp, ?_, ⟨fun _ => ⟨rfl, hbranded⟩, fun _ => ⟨m, rfl⟩⟩, by simp, hearlier,
        fun hb => absurd hname (hlisted hb i hi)⟩
      intro name
      simpa using fun hall => absurd hname (hall i hi)
    · have houtcome : outcome = _ := he
      rw [houtcome, show firstFault? config.rules hoisted = _ from hfault]
      refine ⟨by simp, by simp, ?_, ?_, by simp, hearlier, by simp⟩
      · intro name
        simpa [eq_comm] using fun _ => hnone
      · simpa using hnone

/-- With two rules for one interface and a rule for one that there is not, the third rule is
reported. The first two rules do not get in its way. -/
theorem assemble_outcome_twoBlocks :
    let config : Config :=
      { qualify := some [⟨"MapLike", ["Node"]⟩, ⟨"MapLike", ["Node"]⟩, ⟨"EditorSettings", []⟩] }
    ∃ p, config.policy = .ok p ∧
      (assemble config p none twoBlocks config.output).outcome =
        .error (.cannotQualify "EditorSettings" .notHoisted) := by
  intro config
  have hdisjoint : config.ListsDisjoint := ⟨by decide, by decide, by decide⟩
  obtain ⟨p, hp, -, hqualify, -⟩ := assemble_outcome hdisjoint none twoBlocks config.output
  refine ⟨p, hp, (hqualify _ _).2 ⟨?_, ⟨"EditorSettings", []⟩, ?_, rfl⟩⟩
  · intro hno
    exact hno _ (List.mem_cons_self) rfl
  · exact ⟨[⟨"MapLike", ["Node"]⟩, ⟨"MapLike", ["Node"]⟩], [], rfl, by decide, rfl⟩

end Ambient
