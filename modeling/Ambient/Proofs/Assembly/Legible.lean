import Ambient.Proofs.Assembly.Comments
import Ambient.Proofs.Assembly.ReadBack
import Ambient.Proofs.Assembly.Regroup

/-!
# Reading an assembled module

Assembly copies declarations, puts a namespace in front of some names and adds one property. What is
`Carried` by each of these steps and holds of every item of a file holds of every item of the module
that is assembled from it (`Carried.assembled`). Two properties of items decide whether a module is
read back, and both are carried: each part of the item tells what it is (`Item.Legible`), and no
conditional type in it stands where the word `extends` is not taken up (`Item.clear`).

So the module that is assembled from a legible file is read back as what was assembled, up to
parentheses, if that is clear, and refused otherwise (`assemble_parse_print`).
-/

namespace Ambient

open Text

/-! ## What assembly carries from the file into the module -/

/-- A property of items that no step of assembly takes away. -/
structure Carried (ns : String) (rs : List QualifyRule) (b : BrandConfig) (P : Item → Prop) :
    Prop where
  /-- It holds of what stands in a namespace. -/
  inside : ∀ {n : Namespace}, P (.decl (.ns n)) → ∀ i ∈ n.items, P i
  /-- It holds of a namespace that is filled with something else, if it holds of that. -/
  refilled : ∀ {n : Namespace} {items : List Item}, P (.decl (.ns n)) → (∀ i ∈ items, P i) →
    P (.decl (.ns { n with items }))
  qualified : ∀ {i : Interface}, P (.decl (.interface i)) →
    P (.decl (.interface (i.qualified ns rs)))
  branded : ∀ {i : Interface}, P (.decl (.interface i)) →
    P (.decl (.interface { i with members := i.members ++ [b.member] }))

namespace Carried

variable {ns : String} {rs : List QualifyRule} {b : BrandConfig} {P : Item → Prop}
variable (hP : Carried ns rs b P)

include hP

theorem flatten {file : File} {name : String} {k : DeclKind} {d : Decl}
    (hfile : ∀ i ∈ file.items, P i) (hd : d ∈ flatten (file.blocks name) k) : P (.decl d) := by
  obtain ⟨n, hn, hd⟩ := List.mem_flatMap.1 hd
  have hblock : .decl (.ns n) ∈ file.items := by
    obtain ⟨i, hi, hin⟩ := List.mem_filterMap.1 (List.mem_filter.1 hn).1
    split at hin
    · cases hin
      exact hi
    · cases hin
  exact hP.inside (hfile _ hblock) _ (mem_declsOf.1 (List.mem_filter.1 hd).1)

/-- A copy, along the namespaces in it. -/
theorem copied (d : Decl) : P (.decl d) → P d.copied := by
  induction d using Decl.nested_induction with
  | leaf d hd =>
    intro h
    rwa [Decl.copied_eq hd]
  | ns n ih =>
    intro h
    have hitems : ∀ i ∈ n.regrouped.items, P i := by
      intro i hi
      rw [n.items_regrouped] at hi
      obtain ⟨d, hd, rfl⟩ := List.mem_map.1 hi
      have hd := mem_declsOf.1 (mem_byKind.1 hd)
      exact ih d hd (hP.inside h _ hd)
    have hcopy : n.regrouped = { n with items := n.regrouped.items } :=
      Namespace.eq_of_parts n.regrouped_name n.regrouped_doc rfl
    rw [Decl.copied, Decl.regrouped, hcopy]
    exact hP.refilled h hitems

theorem qualifiedFirsts {items : List Item} (h : ∀ i ∈ items, P i) (seen : List String) :
    ∀ i ∈ qualifiedFirsts ns rs seen items, P i := by
  fun_induction Ambient.qualifiedFirsts ns rs seen items with
  | case1 => simp
  | case2 seen i is ih =>
    obtain ⟨hi, his⟩ := List.forall_mem_cons.1 h
    refine List.forall_mem_cons.2 ⟨?_, ih his⟩
    split
    · exact hi
    · exact hP.qualified hi
  | case3 seen i is _ ih =>
    obtain ⟨hi, his⟩ := List.forall_mem_cons.1 h
    exact List.forall_mem_cons.2 ⟨hi, ih his⟩

theorem of_branded {before after : List Item} (hb : Branded b before after)
    (h : ∀ i ∈ before, P i) : ∀ i ∈ after, P i := by
  obtain ⟨front, i, back, rfl, -, -, rfl⟩ := hb
  obtain ⟨hfront, hrest⟩ := List.forall_mem_append.1 h
  obtain ⟨hi, hback⟩ := List.forall_mem_cons.1 hrest
  exact List.forall_mem_append.2 ⟨hfront, List.forall_mem_cons.2 ⟨hP.branded hi, hback⟩⟩

end Carried

/-- **What is carried and holds of a file holds of the module that is assembled from it.** -/
theorem Carried.assembled {config : Config} {p : Policy} {version : Option String} {file : File}
    {path : Path} {m : OutputModule} {P : Item → Prop}
    (hP : Carried config.wrapper config.rules config.brand P) (hfile : ∀ i ∈ file.items, P i)
    (h : (assemble config p version file path).outcome = .ok m) :
    (∀ i ∈ m.items, P i) ∧ ∀ n ∈ m.wrapping?, ∀ i ∈ n.items, P i := by
  have hdecls {ds : List Decl}
      (hds : ∀ d ∈ ds, ∃ k, d ∈ Ambient.flatten (file.blocks config.sourceNamespace) k) :
      ∀ d ∈ ds, P (.decl d) := by
    intro d hd
    obtain ⟨k, hk⟩ := hds d hd
    exact hP.flatten hfile hk
  have hhoisted : ∀ d ∈ p.hoistedDecls (Ambient.flatten (file.blocks config.sourceNamespace)),
      P (.decl d) := by
    refine hdecls fun d hd => ?_
    simp only [Policy.hoistedDecls, named, List.mem_append, List.mem_filter] at hd
    tauto
  have hnested : ∀ d ∈ p.nestedDecls (Ambient.flatten (file.blocks config.sourceNamespace)),
      P (.decl d) := by
    refine hdecls fun d hd => ?_
    simp only [Policy.nestedDecls, unnamed, List.mem_append, List.mem_filter] at hd
    tauto
  obtain ⟨n, hbranded, -, -, rfl⟩ := Policy.assembled_ok (assembled_of_assemble h).2
  refine ⟨hP.qualifiedFirsts ?_ [], ?_⟩
  · intro i hi
    obtain ⟨d, hd, rfl⟩ := List.mem_map.1 hi
    exact hhoisted d hd
  · rintro n' hn'
    obtain rfl : n = n' := Option.some.inj hn'
    refine hP.of_branded hbranded (List.forall_mem_append.2 ⟨?_, ?_⟩)
    · intro i hi
      obtain ⟨d, hd, rfl⟩ := List.mem_map.1 hi
      exact hP.copied d (hP.flatten hfile hd)
    · intro i hi
      obtain ⟨d, hd, rfl⟩ := List.mem_map.1 hi
      exact hnested d hd

/-! ## What an item of a module looks like -/

section

variable {f : Ty → Ty}

theorem legibleMembers_mapFirstUnion
    (hf : ∀ t : Ty, t.isPredicate = false ∧ t.Legible → (f t).isPredicate = false ∧ (f t).Legible)
    (hu : ∀ t, (f t).isUnion = t.isUnion) {ms : List Member} (h : legibleMembers ms) :
    legibleMembers (mapFirstUnion f ms) := by
  fun_induction mapFirstUnion f ms with
  | case1 => trivial
  | case2 doc sig ms ts hts =>
    obtain ⟨key, keyType, valueType, readonly, isStatic⟩ := sig
    obtain rfl : valueType = .union ts := hts
    simp only [legibleMembers, Member.Legible, MemberShape.Legible, IndexSignature.Legible,
      Ty.Legible] at h ⊢
    obtain ⟨⟨hdoc, hstatic, hkey, hkeyType, hpred, htwo, hunion, hts⟩, hms⟩ := h
    refine ⟨⟨hdoc, hstatic, hkey, hkeyType, hpred, by simpa using htwo, ?_, ?_⟩, hms⟩
    · exact List.forall_mem_map.2 fun t ht => (hu t).trans (hunion t ht)
    · exact legibleTys_iff.2 (List.forall_mem_map.2 fun t ht => hf t (legibleTys_iff.1 hts t ht))
  | case3 => exact h
  | case4 m ms _ ih =>
    rw [legibleMembers] at h ⊢
    exact ⟨h.1, ih h.2⟩

theorem clearMembers_mapFirstUnion (hf : ∀ t : Ty, (f t).clear false = t.clear false)
    (ms : List Member) : clearMembers (mapFirstUnion f ms) = clearMembers ms := by
  fun_induction mapFirstUnion f ms with
  | case1 => rfl
  | case2 doc sig ms ts hts =>
    obtain ⟨key, keyType, valueType, readonly, isStatic⟩ := sig
    obtain rfl : valueType = .union ts := hts
    simp [clearMembers, Member.clear, MemberShape.clear, IndexSignature.clear, Ty.clear,
      clearOperands_eq_all, hf, Function.comp_def]
  | case3 => rfl
  | case4 m ms _ ih => rw [clearMembers, clearMembers, ih]

end

/-- What holds of a type and of every name with a namespace in front holds after all rules. -/
theorem qualifyAll_induction {ns : String} {P : Ty → Prop} (rs : List QualifyRule) {t : Ty}
    (h : P t) (hname : ∀ name args, P (.named name args) → P (.named (ns ++ "." ++ name) args)) :
    P (qualifyAll ns rs t) := by
  induction rs generalizing t with
  | nil => exact h
  | cons r rs ih =>
    have hr : P (r.qualify ns t) := by
      cases t with
      | named name args =>
        rw [QualifyRule.qualify]
        split
        · exact hname name args h
        · exact h
      | _ => exact h
    exact ih hr

/-- A name behind a namespace. -/
theorem TypeName.qualified {ns name : String} (hns : Ident ns) (h : TypeName name) :
    TypeName (ns ++ "." ++ name) := by
  obtain ⟨a, ws, ha, hws, rfl⟩ := h
  refine ⟨ns, a :: ws, hns, List.forall_mem_cons.2 ⟨ha.word, hws⟩, ?_⟩
  simp [trail, String.append_assoc]

/-- The names and texts of a configuration that get into a module. -/
structure Config.Legible (c : Config) : Prop where
  wrapper : Ident c.wrapper
  compilerAlias : Ident c.compilerAlias
  mergeUtility : Ident c.mergeUtility
  brandProperty : PropertyName c.brand.property
  brandDoc : LegibleDoc c.brand.doc

/-- **Whether an item tells what it is is carried.** -/
theorem Config.Legible.carried {c : Config} (h : c.Legible) (rs : List QualifyRule) :
    Carried c.wrapper rs c.brand Item.Legible where
  inside {n} hn := by
    obtain ⟨name, doc, items⟩ := n
    rw [Item.Legible, Decl.Legible, Namespace.Legible] at hn
    exact legibleItems_iff.1 hn.2.2
  refilled {n items} hn hitems := by
    obtain ⟨name, doc, old⟩ := n
    rw [Item.Legible, Decl.Legible, Namespace.Legible] at hn ⊢
    exact ⟨hn.1, hn.2.1, legibleItems_iff.2 hitems⟩
  qualified {i} hi := by
    rw [Item.Legible, Decl.Legible] at hi ⊢
    refine { hi with members := legibleMembers_mapFirstUnion (fun t ht => ?_) (fun t => ?_) hi.members }
    · refine qualifyAll_induction (P := fun u => u.isPredicate = false ∧ u.Legible) _ ht
        fun name args hl => ⟨rfl, ?_⟩
      rw [Ty.Legible] at hl ⊢
      exact ⟨hl.2.1.qualified h.wrapper, hl.2.2⟩
    · exact qualifyAll_induction (P := fun u => u.isUnion = t.isUnion) _ rfl fun _ _ hu => hu
  branded {i} hi := by
    rw [Item.Legible, Decl.Legible] at hi ⊢
    refine { hi with members := ?_ }
    rw [legibleMembers_iff, List.forall_mem_append, List.forall_mem_singleton]
    refine ⟨legibleMembers_iff.1 hi.members, ?_⟩
    rw [BrandConfig.member, Member.Legible, MemberShape.Legible, legibleOpt, Ty.Legible]
    simpa using ⟨h.brandDoc, h.brandProperty, rfl⟩

/-- **Whether an item is read back is carried.** -/
theorem carried_clear (ns : String) (rs : List QualifyRule) (b : BrandConfig) :
    Carried ns rs b fun i => i.clear = true where
  inside {n} hn := by
    obtain ⟨name, doc, items⟩ := n
    rw [Item.clear, Decl.clear, Namespace.clear, clearItems_eq_all, List.all_eq_true] at hn
    exact hn
  refilled {n items} _ hitems := by
    obtain ⟨name, doc, old⟩ := n
    rw [Item.clear, Decl.clear, Namespace.clear, clearItems_eq_all, List.all_eq_true]
    exact hitems
  qualified {i} hi := by
    rw [Item.clear, Decl.clear, Interface.clear] at hi ⊢
    rw [Interface.qualified, clearMembers_mapFirstUnion fun t => ?_]
    · exact hi
    · exact qualifyAll_induction (P := fun u => u.clear false = _) _ rfl fun _ _ hc => hc
  branded {i} hi := by
    rw [Item.clear, Decl.clear, Interface.clear] at hi ⊢
    rw [clearMembers_eq_all, List.all_append, ← clearMembers_eq_all]
    simpa [BrandConfig.member, Member.clear, MemberShape.clear, clearOpt, Ty.clear] using hi

/-! ## Reading a module -/

/-- The header is no token, if the version does not close it. -/
theorem spells_headerComment {version : Option String}
    (h : ∀ v ∈ version, closesComment v.toList = false) (next : List Char) :
    Spells (headerComment version ++ "\n") [] next := by
  have hbreak {next : List Char} : Spells "\n" [] next := .fixed rfl
  have hfirst {next : List Char} :
      Spells (String.ofList ('/' :: '*' :: (" eslint-disable ".toList ++ ['*', '/']))) [] next :=
    .comment (by decide) (by decide)
  have hhead : (headerBody version).head? ≠ some '*' := by
    have hfront : "\n * TypeScript compiler declarations".toList =
        '\n' :: " * TypeScript compiler declarations".toList := by decide
    unfold headerBody
    rw [hfront, List.cons_append, List.head?_cons]
    simp
  have hsecond {next : List Char} :
      Spells (String.ofList ('/' :: '*' :: (headerBody version ++ ['*', '/']))) [] next :=
    .comment (closesComment_headerBody h) hhead
  have htext : headerComment version =
      String.ofList ('/' :: '*' :: (" eslint-disable ".toList ++ ['*', '/'])) ++ "\n" ++
        String.ofList ('/' :: '*' :: (headerBody version ++ ['*', '/'])) := by
    rw [← String.toList_inj, toList_headerComment]
    simp
  rw [htext]
  exact ((hfirst.append hbreak).append hsecond).append hbreak

/-- **An assembled module tells what its parts are.** -/
theorem Config.Legible.legible_assembled {config : Config} {p : Policy} {version : Option String}
    {file : File} {path : Path} {m : OutputModule} (hconfig : config.Legible)
    (hversion : ∀ v ∈ version, closesComment v.toList = false) (hfile : file.Legible)
    (h : (assemble config p version file path).outcome = .ok m) : m.Legible := by
  obtain ⟨hitems, hnested⟩ := (hconfig.carried config.rules).assembled hfile h
  obtain ⟨n, -, hname, hstatements, rfl⟩ := Policy.assembled_ok (assembled_of_assemble h).2
  refine ⟨?_, ?_, hitems, ?_⟩
  · rintro header hheader
    obtain rfl : headerComment version = header := Option.some.inj hheader
    exact spells_headerComment hversion
  · refine List.forall_mem_cons.2 ⟨hconfig.compilerAlias.word, List.forall_mem_singleton.2 ?_⟩
    exact List.forall_mem_singleton.2 hconfig.mergeUtility.word
  · rintro n' hn'
    obtain rfl : n = n' := Option.some.inj hn'
    refine ⟨?_, hnested n rfl, ?_⟩
    · rw [hname]
      exact ⟨config.wrapper, [], .inl hconfig.wrapper, by simp, by simp [trail]⟩
    · rw [hstatements]
      exact List.forall_mem_singleton.2 ⟨hconfig.mergeUtility, hconfig.wrapper, hconfig.compilerAlias⟩

/-- **An assembled module is read back as what was assembled,** up to parentheses, exactly if it is
clear. That it is follows from the file. What was assembled is the declarations at the top level and
behind them one namespace, without documentation; the header, the imports and the statement at the
end of the namespace add nothing. -/
theorem assemble_parse_print {config : Config} {p : Policy} {version : Option String}
    {file : File} {path : Path} {m : OutputModule} (hconfig : config.Legible)
    (hversion : ∀ v ∈ version, closesComment v.toList = false) (hfile : file.Legible)
    (h : (assemble config p version file path).outcome = .ok m) :
    (∃ n, m.wrapping? = some n ∧ n.name = config.wrapper ∧
        m.contents.items = m.items ++ [.decl (.ns ⟨config.wrapper, none, n.items⟩)]) ∧
      (file.clear = true → m.contents.clear = true) ∧
      (m.contents.clear = true → ∃ g, parse m.print = .ok g ∧ g.erased = m.contents.erased) ∧
      (m.contents.clear = false → ∃ e, parse m.print = .error e) := by
  have hlegible := hconfig.legible_assembled hversion hfile h
  refine ⟨?_, ?_, ?_, ?_⟩
  · obtain ⟨n, -, hname, -, rfl⟩ := Policy.assembled_ok (assembled_of_assemble h).2
    exact ⟨n, rfl, hname, by rw [← hname]; rfl⟩
  · intro hclear
    rw [File.clear, List.all_eq_true] at hclear
    obtain ⟨hitems, hnested⟩ := (carried_clear _ _ _).assembled hclear h
    rw [File.clear, List.all_eq_true, OutputModule.contents]
    refine List.forall_mem_append.2 ⟨hitems, ?_⟩
    intro i hi
    obtain ⟨n, hn, rfl⟩ := List.mem_map.1 hi
    rw [Item.clear, Decl.clear, Namespace.clear, clearItems_eq_all, List.all_eq_true]
    exact hnested n (Option.mem_toList.1 hn)
  · intro hclear
    exact ⟨m.contents.reread, (m.parse_print hlegible _).2 ⟨hclear, rfl⟩, m.contents.erased_reread⟩
  · intro hclear
    cases hparse : parse m.print with
    | error e => exact ⟨e, rfl⟩
    | ok g =>
      have hread := ((m.parse_print hlegible g).1 hparse).1
      rw [hclear] at hread
      cases hread

/-- A module with a version and a brand is read back. -/
theorem assemble_parse_print_oneNode :
    let config : Config := { qualify := some [], brand := { doc := "Brand" } }
    ∃ m, (assemble config Policy.builtin (some "5.4") oneNode config.output).outcome = .ok m ∧
      ∃ g, parse m.print = .ok g ∧ g.erased = m.contents.erased := by
  intro config
  have hts : Ident "ts" := ⟨'t', ['s'], rfl, rfl⟩
  have hnode : Ident "Node" := ⟨'N', "ode".toList, rfl, rfl⟩
  have hcompiler : Ident "tsCompiler" := ⟨'t', "sCompiler".toList, rfl, rfl⟩
  have hutility : Ident "ObjectUtils" := ⟨'O', "bjectUtils".toList, rfl, rfl⟩
  have hbrand : Word "_compilerBrand" := .inl ⟨'_', "compilerBrand".toList, rfl, rfl⟩
  have hlines : lines "Brand".toList = ["Brand".toList] := by decide
  have hdoc : LegibleDoc "Brand" := by
    refine ⟨by decide, by decide, by decide, by decide,
      by decide, by decide, fun l hl => ?_⟩
    obtain rfl : "Brand".toList = l := List.head_eq_of_cons_eq (hlines.symm.trans hl)
    decide
  have hconfig : config.Legible :=
    ⟨hts, hcompiler, hutility, ⟨.inl hbrand, by decide⟩, hdoc⟩
  have hfile : oneNode.Legible := by
    refine List.forall_mem_singleton.2 ?_
    rw [Item.Legible, Decl.Legible, Namespace.Legible, legibleItems_iff]
    refine ⟨⟨"ts", [], .inl hts, by simp, by simp [trail]⟩, by simp [legibleDoc?],
      List.forall_mem_singleton.2 ?_⟩
    rw [Item.Legible, Decl.Legible]
    exact ⟨.inl hnode, by simp [legibleDoc?], trivial, trivial, trivial⟩
  have hassembled : (assemble config Policy.builtin (some "5.4") oneNode config.output).outcome =
      .ok _ := rfl
  obtain ⟨-, hclear, hread, -⟩ :=
    assemble_parse_print hconfig (by decide) hfile hassembled
  exact ⟨_, hassembled, hread (hclear (by decide))⟩

end Ambient
