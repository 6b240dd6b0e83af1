import Mathlib.Data.List.Find
import Ambient.Proofs.Files.Ancestors
import Ambient.Proofs.Project.Regenerate

/-!
# Where a project finds its compiler

Without a configured input a project looks for the compiler along the ancestors of its root. Which
directories these are is a matter of the text of the root: the ones that the fronts of its
components lead to (`Project.withConfig_discovers`).

They are the directories above the root, up to where the root starts, if no component is two dots.
So the compiler is found in the nearest directory from an absolute root up, and from a relative root
up to the working directory and not further.
-/

namespace Ambient

namespace FileTree

variable {t : FileTree} {p q a root : Path} {l k : Location}

/-! ## Directories with a compiler -/

/-- Where the compiler declarations lie in a directory that they are installed in. -/
def declarationsAt (l : Location) : Location :=
  l ++ compilerDeclarations.names

/-- Whether the compiler declarations are a file in a directory. -/
def hasCompiler (t : FileTree) (l : Location) : Bool :=
  match t.walk l compilerDeclarations.names with
  | .ok k => (t.file? k).isSome
  | .error _ => false

theorem names_compilerDeclarations :
    compilerDeclarations.names = ["node_modules", "typescript", "lib", "typescript.d.ts"] := by
  decide

theorem foldl_advance_compilerDeclarations (l : Location) :
    compilerDeclarations.names.foldl advance l = declarationsAt l := by
  rw [declarationsAt, names_compilerDeclarations]
  simp [advance]

theorem hasCompiler_iff :
    t.hasCompiler l = true ↔
      t.Walks l compilerDeclarations.names ∧ (t.file? (declarationsAt l)).isSome = true := by
  rw [hasCompiler]
  cases hw : t.walk l compilerDeclarations.names with
  | error e =>
    refine ⟨fun h => (nomatch h), ?_⟩
    rintro ⟨hwalks, -⟩
    rw [walk_eq_ok_iff.2 ⟨hwalks, rfl⟩] at hw
    cases hw
  | ok k =>
    obtain ⟨hwalks, rfl⟩ := walk_eq_ok_iff.1 hw
    rw [foldl_advance_compilerDeclarations]
    exact ⟨fun h => ⟨hwalks, h⟩, fun h => h.2⟩

theorem isFile_iff :
    t.isFile p = true ↔
      refusal? p = none ∧ t.Walks (t.start p) p.names ∧ (t.file? (t.target p)).isSome = true ∧
        p.endsInSlash = false := by
  constructor
  · intro h
    rw [isFile] at h
    split at h
    · next l c hf =>
      obtain ⟨hr, hw, rfl, hl, hs⟩ := find_eq_ok_iff.1 hf
      refine ⟨hr, hw, by rw [file?_eq_some_iff.2 hl]; rfl, ?_⟩
      cases hslash : p.endsInSlash with
      | false => rfl
      | true => cases hs hslash
    · cases h
  · rintro ⟨hr, hw, hfile, hs⟩
    obtain ⟨c, hc⟩ := Option.isSome_iff_exists.1 hfile
    have hf : t.find p = .ok (t.target p, .file c) :=
      find_eq_ok_iff.2 ⟨hr, hw, rfl, file?_eq_some_iff.1 hc, by simp [hs]⟩
    rw [isFile, hf]

/-- Where the declarations of an ancestor lie. -/
theorem target_join (t : FileTree) (a : Path) :
    t.target (a.join compilerDeclarations) = declarationsAt (t.target a) := by
  have hrelative : compilerDeclarations.isAbsolute = false := by decide
  rw [target, target, Path.names_join hrelative, start, Path.isAbsolute_join hrelative,
    List.foldl_append, foldl_advance_compilerDeclarations]
  rfl

/-- The ancestors of a directory have the compiler if the places that they lead to have it. -/
theorem isFile_join (hroot : t.isDirectory root = true) (ha : a ∈ root.ancestors) :
    t.isFile (a.join compilerDeclarations) = t.hasCompiler (t.target a) := by
  have hrelative : compilerDeclarations.isAbsolute = false := by decide
  have hdeclared : compilerDeclarations.hasNul = false := by decide
  have hslash : compilerDeclarations.endsInSlash = false := by decide
  have hnonempty : compilerDeclarations.text ≠ "" := by decide
  obtain ⟨habsolute, ns, hns⟩ := Path.of_mem_ancestors ha
  obtain ⟨-, hwalks, -⟩ := isDirectory_iff.1 hroot
  have hstart : t.start a = t.start root := by rw [start, start, habsolute]
  -- one gets to an ancestor on the way to the root
  rw [hns, walks_append, ← hstart] at hwalks
  have hnul : (a.join compilerDeclarations).hasNul = false := by
    rw [Path.hasNul_join hrelative, hdeclared,
      Path.hasNul_of_mem_ancestors ha (hasNul_of_isDirectory hroot)]
    rfl
  have hnames := Path.names_join (p := a) hrelative
  have htext : (a.join compilerDeclarations).text ≠ "" := by
    intro he
    rw [Path.names, he, names_compilerDeclarations] at hnames
    simp [Text.parts] at hnames
  have hjoin : t.start (a.join compilerDeclarations) = t.start a := by
    rw [start, start, Path.isAbsolute_join hrelative]
  rw [Bool.eq_iff_iff, isFile_iff, hasCompiler_iff, target_join, hjoin, hnames, walks_append,
    Path.endsInSlash_join hrelative hnonempty]
  have hrefusal : refusal? (a.join compilerDeclarations) = none := by
    rw [refusal?, hnul, if_neg (by simp), if_neg htext]
  exact ⟨fun h => ⟨h.2.1.2, h.2.2.1⟩, fun h => ⟨hrefusal, ⟨hwalks.1, h.1⟩, h.2, hslash⟩⟩

/-! ## The first ancestor with a compiler -/

/-- The first ancestor of a root that leads to a directory with a compiler. -/
def compilerAncestor? (t : FileTree) (root : Path) : Option Path :=
  root.ancestors.find? fun a => t.hasCompiler (t.target a)

/-- The ancestors of a path lead where the fronts of its components lead. -/
theorem targets_ancestors (t : FileTree) (p : Path) :
    p.ancestors.map t.target =
      p.components.inits.reverse.map fun cs => (cs.map String.ofList).foldl advance (t.start p) := by
  rw [← Path.components_ancestors, List.map_map]
  refine List.map_congr_left fun a ha => ?_
  rw [target_eq, Function.comp_apply, start, start, (Path.of_mem_ancestors ha).1]

/-- Whether a location is the nearest one with a compiler from a location up to another one. -/
structure Nearest (t : FileTree) (top base l : Location) : Prop where
  top_le : top <+: l
  le_base : l <+: base
  hasCompiler : t.hasCompiler l = true
  above : ∀ k, top <+: k → k <+: base → t.hasCompiler k = true → k <+: l

/-- A path without two dots leads to the directory where its parent leads, or to one in it. -/
theorem target_parent_of_not_mem (h : p.parent? = some q) (hdots : ".." ∉ p.names) :
    t.target q <+: t.target p ∧ ∀ k, k <+: t.target p → k = t.target p ∨ k <+: t.target q := by
  obtain ⟨-, n, hn, htarget⟩ := target_parent (t := t) h
  have hne : n ≠ ".." := fun he => hdots (he ▸ hn)
  rw [htarget, advance, if_neg hne]
  by_cases hdot : n = "."
  · rw [if_pos hdot]
    exact ⟨List.prefix_refl _, fun k hk => .inr hk⟩
  · rw [if_neg hdot]
    exact ⟨List.prefix_append _ _, fun k hk => List.prefix_concat_iff.1 hk⟩

/-- A path without components leads to where it starts. -/
theorem target_of_parent?_none (h : p.parent? = none) : t.target p = t.start p := by
  have hcomponents := p.components_parent?
  rw [h] at hcomponents
  rw [target_eq, hcomponents]
  rfl

theorem not_mem_names_parent (h : p.parent? = some q) (hdots : ".." ∉ p.names) :
    ".." ∉ q.names := by
  obtain ⟨ns, -, hnames⟩ := Path.names_parent h
  rw [hnames] at hdots
  exact fun hmem => hdots (List.mem_append_left ns hmem)

theorem start_le_target (hdots : ".." ∉ p.names) : t.start p <+: t.target p := by
  induction p using Path.induction_parents with
  | root p h => rw [target_of_parent?_none h]
  | step p q h ih =>
    rw [← (target_parent (t := t) h).1]
    exact (ih (not_mem_names_parent h hdots)).trans (target_parent_of_not_mem h hdots).1

/-- What the search from a path comes to, by the path and its parent. -/
theorem compilerAncestor?_eq (t : FileTree) (p : Path) :
    t.compilerAncestor? p =
      if t.hasCompiler (t.target p) then some p else p.parent? >>= t.compilerAncestor? := by
  rw [compilerAncestor?]
  cases h : p.parent? with
  | none =>
    rw [Path.ancestors_of_none h, List.find?_singleton]
    rfl
  | some q =>
    rw [Path.ancestors_of_some h, List.find?_cons]
    cases t.hasCompiler (t.target p) <;> rfl

/-- **The first ancestor with a compiler is the nearest one.** The induction is on the ancestors: a
location on the way down to where the path leads is that one, or it is on the way down to where the
parent leads. -/
theorem compilerAncestor?_nearest (hdots : ".." ∉ p.names) :
    match t.compilerAncestor? p with
    | some a => t.Nearest (t.start p) (t.target p) (t.target a)
    | none => ∀ k, t.start p <+: k → k <+: t.target p → t.hasCompiler k = false := by
  induction p using Path.induction_parents with
  | root p h =>
    rw [compilerAncestor?_eq, h, ← target_of_parent?_none h]
    by_cases hp : t.hasCompiler (t.target p) = true
    · rw [if_pos hp]
      exact ⟨List.prefix_refl _, List.prefix_refl _, hp, fun k _ hk _ => hk⟩
    · rw [if_neg hp]
      intro k hstart hbase
      rw [← hstart.eq_of_length_le hbase.length_le]
      simpa using hp
  | step p q h ih =>
    have hstart := start_le_target (t := t) hdots
    obtain ⟨hbase, hcases⟩ := target_parent_of_not_mem (t := t) h hdots
    have ih := ih (not_mem_names_parent h hdots)
    rw [compilerAncestor?_eq, h]
    by_cases hp : t.hasCompiler (t.target p) = true
    · rw [if_pos hp]
      exact ⟨hstart, List.prefix_refl _, hp, fun k _ hk _ => hk⟩
    · rw [if_neg hp]
      rw [(target_parent (t := t) h).1] at ih
      -- a compiler is not where the path leads, and so it is on the way to the parent
      have hparent (k : Location) (hk : k <+: t.target p) (hcompiler : t.hasCompiler k = true) :
          k <+: t.target q := by
        rcases hcases k hk with rfl | hk
        · exact absurd hcompiler hp
        · exact hk
      show match t.compilerAncestor? q with
        | some a => t.Nearest (t.start p) (t.target p) (t.target a)
        | none => ∀ k, t.start p <+: k → k <+: t.target p → t.hasCompiler k = false
      cases hq : t.compilerAncestor? q with
      | some a =>
        rw [hq] at ih
        exact ⟨ih.top_le, ih.le_base.trans hbase, ih.hasCompiler,
          fun k htop hk hcompiler => ih.above k htop (hparent k hk hcompiler) hcompiler⟩
      | none =>
        rw [hq] at ih
        intro k htop hk
        cases hcompiler : t.hasCompiler k with
        | false => rfl
        | true => exact hcompiler ▸ ih k htop (hparent k hk hcompiler)

end FileTree

/-! ## Projects -/

open FileTree (advance)

theorem firstFile_apply (ps : List Path) (t : FileTree) :
    (Files.firstFile ps : Guarded _) Refusals.none t = (ps.find? t.isFile, t) := by
  induction ps with
  | nil => rfl
  | cons p ps ih =>
    have hlook : (Files.isFile p : Guarded _) Refusals.none t = (t.isFile p, t) := rfl
    rw [Files.firstFile, Guarded.bind_apply, hlook, List.find?_cons]
    cases t.isFile p with
    | false => exact ih
    | true => rfl

/-- A project without a configured input is that of the first ancestor with a compiler. -/
theorem ends_withConfig {t : FileTree} {root : Path} {config : Config}
    (hroot : t.isDirectory root = true) (hinput : config.input = none) :
    (Project.withConfig root config : ProjectRun Guarded _).ends Refusals.none t =
      (match t.compilerAncestor? root with
        | some a => .ok { root, config, compiler := a.join compilerDeclarations }
        | none => .error (.noCompiler root), t) := by
  have hfind : (findCompiler root : Guarded _) Refusals.none t =
      ((t.compilerAncestor? root).map (·.join compilerDeclarations), t) := by
    have hjoin : root.ancestors.find? (t.isFile ∘ (·.join compilerDeclarations)) =
        t.compilerAncestor? root :=
      List.find?_congr fun a ha => FileTree.isFile_join hroot ha
    rw [findCompiler, firstFile_apply, List.find?_map, hjoin]
  rw [Project.withConfig, hinput]
  dsimp only
  rw [LoggedT.ends_bind, LoggedT.ends_lift, hfind]
  cases t.compilerAncestor? root with
  | none => rfl
  | some a => rfl

/-- **A project without a configured input has the compiler of the first of the directories that
the fronts of its root lead to.** If no component of the root is two dots, these are the directories
from the root up to where it starts, and the compiler is that of the nearest one: for an absolute
root, of all directories above. -/
theorem Project.withConfig_discovers {t : FileTree} {root : Path} {config : Config}
    (hroot : t.isDirectory root = true) (hinput : config.input = none) :
    ∃ outcome,
      (withConfig root config : ProjectRun Guarded _).ends Refusals.none t = (outcome, t) ∧
      (root.ancestors.map t.target = root.components.inits.reverse.map fun cs =>
        (cs.map String.ofList).foldl advance (t.start root)) ∧
      (match outcome with
        | .ok p => p.root = root ∧ p.config = config ∧ t.isFile p.compiler = true ∧
            ∃ l, (root.ancestors.map t.target).find? t.hasCompiler = some l ∧
              t.target p.compiler = FileTree.declarationsAt l ∧
              (".." ∉ root.names → t.Nearest (t.start root) (t.target root) l)
        | .error e => e = .noCompiler root ∧
            (root.ancestors.map t.target).find? t.hasCompiler = none ∧
            (".." ∉ root.names →
              ∀ l, t.start root <+: l → l <+: t.target root → t.hasCompiler l = false)) := by
  have hfirst : (root.ancestors.map t.target).find? t.hasCompiler =
      (t.compilerAncestor? root).map t.target := List.find?_map
  have hnearest (hdots : ".." ∉ root.names) :=
    FileTree.compilerAncestor?_nearest (t := t) hdots
  refine ⟨_, ends_withConfig hroot hinput, t.targets_ancestors root, ?_⟩
  cases ha : t.compilerAncestor? root with
  | none =>
    rw [ha] at hfirst hnearest
    exact ⟨rfl, hfirst, hnearest⟩
  | some a =>
    rw [ha] at hfirst hnearest
    have hmem : a ∈ root.ancestors := List.mem_of_find?_eq_some ha
    have hcompiler : t.hasCompiler (t.target a) = true :=
      List.find?_some (p := fun a => t.hasCompiler (t.target a)) ha
    refine ⟨rfl, rfl, ?_, t.target a, hfirst, t.target_join a, hnearest⟩
    rw [FileTree.isFile_join hroot hmem, hcompiler]

/-- A tree with a compiler in its working directory and one further down. -/
def FileTree.twoCompilers : FileTree :=
  ((empty ["w"]).install (declarationsAt ["w"]) (.file (.text ""))).install
    (declarationsAt ["w", "x", "y"]) (.file (.text ""))

/-- From the directory `x` up the compiler is the one in the working directory, but if the root goes
down and back, it is the one below. -/
theorem Project.withConfig_discovers_twoCompilers :
    (∃ p, (withConfig ⟨"/w/x"⟩ {} : ProjectRun Guarded _).ends Refusals.none FileTree.twoCompilers =
        (.ok p, FileTree.twoCompilers) ∧
      FileTree.twoCompilers.target p.compiler = FileTree.declarationsAt ["w"]) ∧
    ∃ p, (withConfig ⟨"x/y/.."⟩ {} : ProjectRun Guarded _).ends Refusals.none
        FileTree.twoCompilers = (.ok p, FileTree.twoCompilers) ∧
      FileTree.twoCompilers.target p.compiler = FileTree.declarationsAt ["w", "x", "y"] := by
  have hfound (root : Path) (l : Location)
      (hroot : FileTree.twoCompilers.isDirectory root = true)
      (hfirst : (root.ancestors.map FileTree.twoCompilers.target).find?
        FileTree.twoCompilers.hasCompiler = some l) :
      ∃ p, (withConfig root {} : ProjectRun Guarded _).ends Refusals.none FileTree.twoCompilers =
          (.ok p, FileTree.twoCompilers) ∧
        FileTree.twoCompilers.target p.compiler = FileTree.declarationsAt l := by
    obtain ⟨outcome, hends, -, houtcome⟩ :=
      @withConfig_discovers FileTree.twoCompilers root {} hroot rfl
    cases outcome with
    | error e => simp [hfirst] at houtcome
    | ok p =>
      obtain ⟨-, -, -, l', hl', htarget, -⟩ := houtcome
      obtain rfl : l = l' := Option.some.inj (hfirst.symm.trans hl')
      exact ⟨p, hends, htarget⟩
  constructor
  · exact hfound ⟨"/w/x"⟩ ["w"] (by decide) (by decide)
  · exact hfound ⟨"x/y/.."⟩ ["w", "x", "y"] (by decide) (by decide)

end Ambient
