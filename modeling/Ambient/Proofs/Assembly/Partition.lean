import Ambient.Proofs.Assembly.Stages
import Mathlib.Data.List.Basic

/-!
# Every declaration goes to one place

`assemble_partition` says what an assembled module holds. The declarations of each kind are taken
together over all blocks of the source namespace (`flatten`), and the policy divides them between
the top level and the wrapping namespace. Nothing is lost, repeated or put into another order within
its kind, and nothing else about the file has an influence on the module.
-/

namespace Ambient

/-- The declarations of a kind whose names are in a list. -/
def named (names : List String) (ds : List Decl) : List Decl :=
  ds.filter fun d => d.name ∈ names

/-- The declarations of a kind whose names are not in a list. -/
def unnamed (names : List String) (ds : List Decl) : List Decl :=
  ds.filter fun d => d.name ∉ names

/-- The declarations at the top level of the module. -/
def Policy.hoistedDecls (p : Policy) (of : DeclKind → List Decl) : List Decl :=
  named p.enums (of .enum) ++ named p.interfaces (of .interface) ++
    named p.typeAliases (of .typeAlias)

/-- The declarations in the wrapping namespace, the nested namespaces apart. -/
def Policy.nestedDecls (p : Policy) (of : DeclKind → List Decl) : List Decl :=
  unnamed p.interfaces (of .interface) ++ unnamed p.enums (of .enum) ++
    unnamed p.typeAliases (of .typeAlias) ++ of .cls ++ of .function ++ of .vars

/-! ## What the policy selects -/

theorem Policy.select_hoisted (p : Policy) (bs : List Namespace) {k : DeclKind}
    {names : List String} (h : p.namesFor? k = some names) :
    p.select bs .hoisted k = named names (flatten bs k) := by
  refine List.filter_congr fun d _ => ?_
  by_cases hd : d.name ∈ names <;> simp [Policy.classify, h, hd]

theorem Policy.select_nested (p : Policy) (bs : List Namespace) {k : DeclKind}
    {names : List String} (h : p.namesFor? k = some names) :
    p.select bs .nested k = unnamed names (flatten bs k) := by
  refine List.filter_congr fun d _ => ?_
  by_cases hd : d.name ∈ names <;> simp [Policy.classify, h, hd]

/-- Kinds that cannot be hoisted stay in the wrapping namespace as a whole. -/
theorem Policy.select_nested_of_none (p : Policy) (bs : List Namespace) {k : DeclKind}
    (h : p.namesFor? k = none) : p.select bs .nested k = flatten bs k := by
  refine List.filter_eq_self.2 fun d _ => ?_
  simp [Policy.classify, h]

theorem Policy.flatMap_select_hoisted (p : Policy) (bs : List Namespace) :
    hoistedOrder.flatMap (p.select bs .hoisted) = p.hoistedDecls (flatten bs) := by
  have he := p.select_hoisted bs (k := .enum) rfl
  have hi := p.select_hoisted bs (k := .interface) rfl
  have ht := p.select_hoisted bs (k := .typeAlias) rfl
  simp [hoistedOrder, Policy.hoistedDecls, he, hi, ht]

theorem Policy.flatMap_select_nested (p : Policy) (bs : List Namespace) :
    DeclKind.all.flatMap (p.select bs .nested) = flatten bs .ns ++ p.nestedDecls (flatten bs) := by
  have he := p.select_nested bs (k := .enum) rfl
  have hi := p.select_nested bs (k := .interface) rfl
  have ht := p.select_nested bs (k := .typeAlias) rfl
  have hrest (k : DeclKind) := p.select_nested_of_none bs (k := k)
  simp [DeclKind.all, Policy.nestedDecls, he, hi, ht, hrest .ns rfl, hrest .cls rfl,
    hrest .function rfl, hrest .vars rfl]

/-- Only namespaces are changed by copying. -/
theorem Decl.copied_eq {d : Decl} (h : d.kind ≠ .ns) : d.copied = .decl d := by
  cases d with
  | ns n => exact absurd rfl h
  | _ => simp [Decl.copied, Decl.regrouped]

theorem kind_ne_ns_of_mem_hoistedDecls {p : Policy} {bs : List Namespace} {d : Decl}
    (h : d ∈ p.hoistedDecls (flatten bs)) : d.kind ≠ .ns := by
  simp only [Policy.hoistedDecls, named, List.mem_append, List.mem_filter] at h
  rcases h with (h | h) | h <;> rw [kind_of_mem_flatten h.1] <;> decide

theorem kind_ne_ns_of_mem_nestedDecls {p : Policy} {bs : List Namespace} {d : Decl}
    (h : d ∈ p.nestedDecls (flatten bs)) : d.kind ≠ .ns := by
  simp only [Policy.nestedDecls, unnamed, List.mem_append, List.mem_filter] at h
  rcases h with ((((h | h) | h) | h) | h) | h
  · rw [kind_of_mem_flatten h.1]; decide
  · rw [kind_of_mem_flatten h.1]; decide
  · rw [kind_of_mem_flatten h.1]; decide
  · rw [kind_of_mem_flatten h]; decide
  · rw [kind_of_mem_flatten h]; decide
  · rw [kind_of_mem_flatten h]; decide

/-! ## Nothing is lost and nothing is repeated -/

/-- A list sorted into classes holds the same elements, if the classes are different and cover
it. -/
theorem flatMap_filter_perm {α κ : Type} [DecidableEq κ] (f : α → κ) (ks : List κ)
    (hks : ks.Nodup) (xs : List α) (hxs : ∀ x ∈ xs, f x ∈ ks) :
    (ks.flatMap fun k => xs.filter fun x => f x = k).Perm xs := by
  induction ks generalizing xs with
  | nil =>
    have hnil : xs = [] := List.eq_nil_iff_forall_not_mem.2 fun x hx => by simpa using hxs x hx
    rw [hnil]
    exact List.Perm.refl _
  | cons k ks ih =>
    obtain ⟨hk, hks⟩ := List.nodup_cons.1 hks
    -- what is not of the first class is sorted into the others
    have hrest : (ks.flatMap fun l => xs.filter fun x => f x = l) =
        ks.flatMap fun l => (xs.filter fun x => !decide (f x = k)).filter fun x => f x = l := by
      refine List.flatMap_congr fun l hl => ?_
      rw [List.filter_filter]
      refine List.filter_congr fun x _ => ?_
      have hlk : l ≠ k := fun e => hk (e ▸ hl)
      by_cases hx : f x = l <;> simp [hx, hlk]
    rw [List.flatMap_cons, hrest]
    refine List.Perm.trans (List.Perm.append_left _ (ih hks _ fun x hx => ?_))
      (List.filter_append_perm _ xs)
    obtain ⟨hx, hxk⟩ := List.mem_filter.1 hx
    simpa [show f x ≠ k by simpa using hxk] using hxs x hx

theorem named_append_unnamed_perm (names : List String) (ds : List Decl) :
    (named names ds ++ unnamed names ds).Perm ds := by
  have h := List.filter_append_perm (fun d : Decl => decide (d.name ∈ names)) ds
  simpa [named, unnamed] using h

/-- The declarations of all blocks, kind by kind. -/
theorem flatMap_flatten_perm (bs : List Namespace) :
    (DeclKind.all.flatMap (flatten bs)).Perm (bs.flatMap fun b => declsOf b.items) := by
  have h : flatten bs = fun k => (bs.flatMap fun b => declsOf b.items).filter fun d => d.kind = k := by
    funext k
    simp [flatten, Namespace.decls, List.filter_flatMap]
  rw [h]
  exact flatMap_filter_perm Decl.kind DeclKind.all (by decide) _ fun d _ => d.kind.mem_all

/-- What the policy divides is together every declaration of every block. -/
theorem hoistedDecls_append_nestedDecls_perm (p : Policy) (bs : List Namespace) :
    (p.hoistedDecls (flatten bs) ++ (flatten bs .ns ++ p.nestedDecls (flatten bs))).Perm
      (bs.flatMap fun b => declsOf b.items) := by
  refine List.Perm.trans ?_ (flatMap_flatten_perm bs)
  have he := named_append_unnamed_perm p.enums (flatten bs .enum)
  have hi := named_append_unnamed_perm p.interfaces (flatten bs .interface)
  have ht := named_append_unnamed_perm p.typeAliases (flatten bs .typeAlias)
  classical
  simp only [List.perm_iff_count, List.count_append] at he hi ht ⊢
  intro d
  have := he d
  have := hi d
  have := ht d
  simp only [Policy.hoistedDecls, Policy.nestedDecls, DeclKind.all, List.flatMap_cons,
    List.flatMap_nil, List.count_append, List.count_nil]
  omega

/-! ## The module as a function of the declarations of each kind -/

/-- The module before its rules are applied. -/
def Policy.hoistedModule (p : Policy) (config : Config) (path : Path)
    (of : DeclKind → List Decl) : OutputModule where
  path := path
  imports :=
    [.all config.compilerAlias config.compilerModule,
     .only [config.mergeUtility] config.mergeUtilityModule]
  items := (p.hoistedDecls of).map .decl

/-- The wrapping namespace before its brand. -/
def Policy.wrappingOf (p : Policy) (config : Config) (of : DeclKind → List Decl) :
    WrappingNamespace where
  name := config.wrapper
  items := (of .ns).map Decl.copied ++ (p.nestedDecls of).map .decl

/-- The outcome of assembly, from the declarations of each kind alone. -/
def Policy.assembled (p : Policy) (config : Config) (version : Option String) (path : Path)
    (of : DeclKind → List Decl) : Except AssemblyError OutputModule := do
  let qualified := applyRules config.wrapper config.rules (p.hoistedModule config path of)
  qualified.2.outcome
  let branded ← (p.wrappingOf config of).branded config.brand
  pure
    { qualified.1 with
      header := some (headerComment version)
      wrapping? := some
        { branded with
          statements :=
            [{ utility := config.mergeUtility, target := config.wrapper
               source := config.compilerAlias }] } }

theorem outcome_addBrand (b : BrandConfig) (n : WrappingNamespace) :
    (addBrand b n).outcome = n.branded b := by
  simp only [addBrand, Logged.outcome_bind, Logged.outcome_ofExcept]
  cases n.branded b <;> rfl

/-- Of the file, assembly sees only whether there is a block and what the declarations of each kind
are. -/
theorem outcome_assemble (config : Config) (p : Policy) (version : Option String) (file : File)
    (path : Path) (h : file.blocks config.sourceNamespace ≠ []) :
    (assemble config p version file path).outcome =
      p.assembled config version path (flatten (file.blocks config.sourceNamespace)) := by
  have hne : (file.blocks config.sourceNamespace).isEmpty = false := by
    simpa [List.isEmpty_eq_false_iff] using h
  have hhoisted : (p.hoistedDecls (flatten (file.blocks config.sourceNamespace))).map
      Decl.copied = (p.hoistedDecls (flatten (file.blocks config.sourceNamespace))).map .decl :=
    List.map_congr_left fun d hd => Decl.copied_eq (kind_ne_ns_of_mem_hoistedDecls hd)
  have hnested : (p.nestedDecls (flatten (file.blocks config.sourceNamespace))).map
      Decl.copied = (p.nestedDecls (flatten (file.blocks config.sourceNamespace))).map .decl :=
    List.map_congr_left fun d hd => Decl.copied_eq (kind_ne_ns_of_mem_nestedDecls hd)
  unfold assemble
  simp only [hne, Bool.false_eq_true, if_false, Logged.outcome_bind, Logged.outcome_note,
    addPlaced_module _ _ _ _ (show ∀ k ∈ hoistedOrder, k.isSeparable = true by decide),
    addPlaced_wrapping, p.flatMap_select_hoisted, p.flatMap_select_nested, List.map_append,
    hhoisted, hnested, List.nil_append]
  rw [Policy.assembled, ← Policy.hoistedModule, ← Policy.wrappingOf]
  show (applyRules _ _ _).2.outcome >>= _ = _
  cases (applyRules config.wrapper config.rules _).2.outcome with
  | error e => rfl
  | ok u =>
    show (addBrand _ _).outcome >>= _ = _ >>= _
    rw [outcome_addBrand]
    cases WrappingNamespace.branded _ _ <;> rfl

/-- A module that comes out holds a branded interface, so that there was a block. -/
theorem blocks_ne_nil_of_branded {bs : List Namespace} {p : Policy} {config : Config}
    {version : Option String} {path : Path} {m : OutputModule}
    (h : p.assembled config version path (flatten bs) = .ok m) : bs ≠ [] := by
  rintro rfl
  rw [Policy.assembled] at h
  cases hr : (applyRules config.wrapper config.rules
      (p.hoistedModule config path (flatten []))).2.outcome with
  | error e => rw [hr] at h; cases h
  | ok u => rw [hr] at h; cases h

/-- A module that comes out of a file comes out of its blocks. -/
theorem assembled_of_assemble {config : Config} {p : Policy} {version : Option String}
    {file : File} {path : Path} {m : OutputModule}
    (h : (assemble config p version file path).outcome = .ok m) :
    file.blocks config.sourceNamespace ≠ [] ∧
      p.assembled config version path (flatten (file.blocks config.sourceNamespace)) = .ok m := by
  have hne : file.blocks config.sourceNamespace ≠ [] := by
    intro hnil
    rw [assemble, show (file.blocks config.sourceNamespace).isEmpty = true by
      rw [List.isEmpty_iff]; exact hnil] at h
    cases h
  exact ⟨hne, by rw [← outcome_assemble config p version file path hne, h]⟩

/-- The parts that a module comes out of: its rules are applied and its namespace is branded. -/
theorem Policy.assembled_ok {p : Policy} {config : Config} {version : Option String} {path : Path}
    {of : DeclKind → List Decl} {m : OutputModule} (h : p.assembled config version path of = .ok m) :
    ∃ n, Branded config.brand ((of .ns).map Decl.copied ++ (p.nestedDecls of).map .decl) n.items ∧
      n.name = config.wrapper ∧
      n.statements =
        [{ utility := config.mergeUtility, target := config.wrapper
           source := config.compilerAlias }] ∧
      m = { p.hoistedModule config path of with
        header := some (headerComment version)
        items := qualifiedFirsts config.wrapper config.rules [] ((p.hoistedDecls of).map .decl)
        wrapping? := some n } := by
  rw [assembled] at h
  cases hr : (applyRules config.wrapper config.rules (p.hoistedModule config path of)).2.outcome with
  | error e => rw [hr] at h; cases h
  | ok u =>
    rw [hr] at h
    cases hb : (p.wrappingOf config of).branded config.brand with
    | error e => rw [hb] at h; cases h
    | ok n =>
      rw [hb] at h
      cases h
      obtain ⟨hbranded, hn⟩ := branded_ok hb
      refine ⟨{ n with
        statements := [{ utility := config.mergeUtility, target := config.wrapper
                         source := config.compilerAlias }] }, hbranded, ?_, rfl, ?_⟩
      · rw [hn]
        rfl
      · rw [applyRules_ok hr]
        rfl

/-! ## The partition -/

/-- **Every declaration of every block goes to exactly one place.** If a module is assembled, then
with the declarations of each kind taken together over the blocks of the source namespace:

1. the top level holds the listed enumerations, interfaces and type aliases, changed only by the
   rules for qualifying names;
2. the wrapping namespace holds copies of the nested namespaces, the interfaces, enumerations and
   type aliases that are not listed, and the classes, functions and variables, changed only by the
   brand;
3. both together are the declarations of all blocks, each as often as it is declared;
4. a file whose blocks have the same declarations of each kind gives the same module, however they
   are spread over blocks and mixed with other items. -/
theorem assemble_partition {config : Config} {p : Policy} {version : Option String} {file : File}
    {path : Path} {m : OutputModule}
    (h : (assemble config p version file path).outcome = .ok m) :
    let blocks := file.blocks config.sourceNamespace
    m.items =
        qualifiedFirsts config.wrapper config.rules []
          ((p.hoistedDecls (flatten blocks)).map .decl) ∧
      (∃ n, m.wrapping? = some n ∧
        Branded config.brand
          ((flatten blocks .ns).map Decl.copied ++ (p.nestedDecls (flatten blocks)).map .decl)
          n.items) ∧
      (p.hoistedDecls (flatten blocks) ++ (flatten blocks .ns ++ p.nestedDecls (flatten blocks))).Perm
        (blocks.flatMap fun b => declsOf b.items) ∧
      ∀ file' : File,
        (∀ k, flatten (file'.blocks config.sourceNamespace) k = flatten blocks k) →
          (assemble config p version file' path).outcome = .ok m := by
  intro blocks
  obtain ⟨-, hm⟩ := assembled_of_assemble h
  have hsame (file' : File)
      (hk : ∀ k, flatten (file'.blocks config.sourceNamespace) k = flatten blocks k) :
      (assemble config p version file' path).outcome = .ok m := by
    rw [← funext hk] at hm
    rw [outcome_assemble config p version file' path (blocks_ne_nil_of_branded hm), hm]
  obtain ⟨n, hbranded, -, -, rfl⟩ := p.assembled_ok hm
  exact ⟨rfl, ⟨n, rfl, hbranded⟩, hoistedDecls_append_nestedDecls_perm p blocks, hsame⟩

/-- Two blocks with an overload and with one interface declared in both, and an item between
them. -/
def twoBlocks : File where
  items :=
    [.decl (.ns ⟨"ts", none,
       [.decl (.function ⟨"parse", none, ⟨[], none, []⟩, none⟩),
        .decl (.interface ⟨"Node", none, [], [], []⟩),
        .decl (.enum ⟨"SyntaxKind", none, false, []⟩)]⟩),
     .exportStatement (.assign "ts"),
     .decl (.ns ⟨"ts", none,
       [.decl (.interface ⟨"MapLike", none, [], [],
          [⟨none, .index ⟨"key", .primitive .string, .union [.named "Node" [], .this], false, false⟩⟩]⟩),
        .decl (.interface ⟨"Node", none, [], [], []⟩),
        .decl (.function ⟨"parse", none, ⟨[], none, []⟩, none⟩)]⟩)]

theorem assemble_partition_twoBlocks :
    let config : Config := { qualify := some [⟨"MapLike", ["Node"]⟩] }
    ∃ m n, (assemble config Policy.builtin none twoBlocks config.output).outcome = .ok m ∧
      m.items =
        [.decl (.enum ⟨"SyntaxKind", none, false, []⟩),
         .decl (.interface ⟨"MapLike", none, [], [],
           [⟨none, .index
             ⟨"key", .primitive .string, .union [.named "ts.Node" [], .this], false, false⟩⟩]⟩)] ∧
      m.wrapping? = some n ∧
      n.items =
        [.decl (.interface ⟨"Node", none, [], [],
           [⟨some ("Nominal brand. Keeps nodes from this module distinct from structurally " ++
               "identical compiler nodes."),
             .property "_compilerBrand" (some (.primitive .undefined)) false false⟩]⟩),
         .decl (.interface ⟨"Node", none, [], [], []⟩),
         .decl (.function ⟨"parse", none, ⟨[], none, []⟩, none⟩),
         .decl (.function ⟨"parse", none, ⟨[], none, []⟩, none⟩)] :=
  ⟨_, _, rfl, (@assemble_partition { qualify := some [⟨"MapLike", ["Node"]⟩] } Policy.builtin none
    twoBlocks _ _ rfl).1, rfl, rfl⟩

end Ambient
