import Ambient.Project.Basic
import Ambient.Proofs.Files.Replace
import Ambient.Proofs.Project.LineEndings
import Ambient.Proofs.Text.Terminators

/-!
# Regeneration and the file tree

A project reads two files, its compiler declarations and the manifest of the package that they come
from, and writes one. `Project.regenerate_allOrNothing` says what a run does to the tree, whatever
the system refuses on the way: all files stay, or one file is replaced by the text for the
declarations. Then the project can be generated anew, to the same text, since neither of the files
that it reads has changed.

`LoggedT.ends` forgets what is reported on the way, as `Logged.outcome` does.
-/

namespace Ambient

open FileTree (Keeps)

variable {r r' : Refusals} {t u : FileTree}

namespace LoggedT

variable {ε α β : Type}

/-- The outcome of a run, and the tree that it leaves. -/
def ends (x : LoggedT ε Guarded α) (r : Refusals) (t : FileTree) : Except ε α × FileTree :=
  let y := (x : Guarded (Logged ε α)) r t
  (y.1.outcome, y.2)

@[simp] theorem ends_pure (a : α) : (pure a : LoggedT ε Guarded α).ends r t = (.ok a, t) :=
  rfl

@[simp] theorem ends_ofLogged (x : Logged ε α) :
    (ofLogged x : LoggedT ε Guarded α).ends r t = (x.outcome, t) :=
  rfl

@[simp] theorem ends_note (e : Event) : (note e : LoggedT ε Guarded Unit).ends r t = (.ok (), t) :=
  rfl

@[simp] theorem ends_lift (x : Guarded α) :
    (lift x : LoggedT ε Guarded α).ends r t = (.ok (x r t).1, (x r t).2) :=
  rfl

theorem ends_ofEffects_mapError {ε' : Type} (f : ε' → ε) (x : Guarded (Except ε' α)) :
    (ofEffects (Except.mapError f <$> x) : LoggedT ε Guarded α).ends r t =
      ((x r t).1.mapError f, (x r t).2) :=
  rfl

theorem ends_bind (x : LoggedT ε Guarded α) (f : α → LoggedT ε Guarded β) :
    (x >>= f).ends r t =
      match x.ends r t with
      | (.ok a, u) => (f a).ends r u
      | (.error e, u) => (.error e, u) := by
  rcases hx : (x : Guarded (Logged ε α)) r t with ⟨⟨events, outcome⟩, u⟩
  have hends : x.ends r t = (outcome, u) := by rw [ends, hx]
  have hbind : ((x >>= f : LoggedT ε Guarded β) : Guarded (Logged ε β)) r t = _ :=
    Guarded.bind_apply (x : Guarded (Logged ε α)) _ r t
  rw [hx] at hbind
  rw [hends, ends, hbind]
  cases outcome <;> rfl

/-- Runs step by step, where nothing is refused, are runs on the tree. -/
theorem bind_unrefused {x : LoggedT ε Guarded α} {y : LoggedT ε (StateM FileTree) α}
    {f : α → LoggedT ε Guarded β} {g : α → LoggedT ε (StateM FileTree) β}
    (hx : (x : Guarded _) Refusals.none = y) (hf : ∀ a, (f a : Guarded _) Refusals.none = g a) :
    ((x >>= f : LoggedT ε Guarded β) : Guarded _) Refusals.none =
      (y >>= g : LoggedT ε (StateM FileTree) β) := by
  refine Files.bind_unrefused hx fun z => ?_
  cases z.outcome with
  | error e => rfl
  | ok a => exact Files.bind_unrefused (hf a) fun _ => rfl

theorem ofEffects_unrefused {ε' : Type} (f : ε' → ε) {x : Guarded (Except ε' α)}
    {y : StateM FileTree (Except ε' α)} (h : x Refusals.none = y) :
    (ofEffects (Except.mapError f <$> x) : LoggedT ε Guarded α) Refusals.none =
      (ofEffects (Except.mapError f <$> y) : LoggedT ε (StateM FileTree) α) := by
  rw [← h]
  rfl

end LoggedT

/-! ## What is read -/

theorem toOption_eq_some_iff {ε α : Type} {x : Except ε α} {a : α} :
    x.toOption = some a ↔ x = .ok a := by
  cases x <;> simp [Except.toOption]

/-- The manifest of the package that declarations come from. -/
def Path.manifest? (declarations : Path) : Option Path :=
  (declarations.parent? >>= Path.parent?).map (·.join ⟨"package.json"⟩)

/-- What reading a file comes to. -/
def readAt (r : Refusals) (t : FileTree) (p : Path) : Except FileFault String :=
  match r.fault? t (.read p) with
  | some e => .error e
  | none => t.read p

theorem read_apply (r : Refusals) (t : FileTree) (p : Path) :
    (Files.read p : Guarded _) r t = (readAt r t p, t) := by
  simp only [Files.read, Guarded.unlessRefused, readAt]
  cases r.fault? t (.read p) <;> rfl

/-- The version that declarations have by the manifest of their package. -/
def versionAt (r : Refusals) (t : FileTree) (declarations : Path) : Option String := do
  let manifest ← declarations.manifest?
  let text ← (readAt r t manifest).toOption
  (manifestVersion? text).join

theorem ends_readText (r : Refusals) (t : FileTree) (p : Path) :
    (readText p : ProjectRun Guarded String).ends r t =
      ((readAt r t p).mapError fun fault => .files ⟨p, fault⟩, t) := by
  rw [readText, LoggedT.ends_ofEffects_mapError, read_apply]

theorem ends_compilerVersion (r : Refusals) (t : FileTree) (declarations : Path) :
    (compilerVersion declarations : ProjectRun Guarded _).ends r t =
      (.ok (versionAt r t declarations), t) := by
  rw [compilerVersion, versionAt, Path.manifest?]
  cases declarations.parent? >>= Path.parent? with
  | none => rfl
  | some package =>
    simp only [LoggedT.ends_bind, LoggedT.ends_lift, read_apply]
    have hmanifest : (some package).map (·.join ⟨"package.json"⟩) =
        some (package.join ⟨"package.json"⟩) := rfl
    rw [hmanifest]
    simp only [Option.bind_eq_bind, Option.bind_some]
    cases readAt r t (package.join ⟨"package.json"⟩) with
    | error e => rfl
    | ok text =>
      simp only [Except.toOption, Option.bind_some]
      cases manifestVersion? text with
      | some version => rfl
      | none => rfl

theorem compilerVersion_unrefused (declarations : Path) :
    (compilerVersion declarations : ProjectRun Guarded _) Refusals.none =
      (compilerVersion declarations : ProjectRun (StateM FileTree) _) := by
  rw [compilerVersion, compilerVersion]
  cases declarations.parent? >>= Path.parent? with
  | none => rfl
  | some package =>
    refine LoggedT.bind_unrefused rfl fun x => ?_
    cases x with
    | error e => rfl
    | ok text =>
      dsimp only
      cases manifestVersion? text <;> rfl

/-- The output of a project is neither of the files that it reads. -/
def Project.OutputApart (p : Project) (t : FileTree) : Prop :=
  t.target p.output ≠ t.target p.compiler ∧
    ∀ manifest, p.compiler.manifest? = some manifest → t.target p.output ≠ t.target manifest

theorem readAt_eq_ok_iff {p : Path} {s : String} :
    readAt r t p = .ok s ↔ r.fault? t (.read p) = none ∧ t.read p = .ok s := by
  rw [readAt]
  cases r.fault? t (.read p) <;> simp

/-- The directory of a package is on the way to its declarations. -/
theorem walks_manifest {declarations manifest : Path} (h : declarations.manifest? = some manifest)
    (hw : t.Walks (t.start declarations) declarations.names) :
    t.Walks (t.start manifest) manifest.names := by
  have hrelative : (⟨"package.json"⟩ : Path).isAbsolute = false := by decide
  have hnames : (⟨"package.json"⟩ : Path).names = ["package.json"] := by decide
  have hfits : FileTree.nameFits "package.json" = true := by decide
  rw [Path.manifest?] at h
  obtain ⟨package, hpackage, rfl⟩ := Option.map_eq_some_iff.1 h
  obtain ⟨dir, hdir, hup⟩ := Option.bind_eq_some_iff.1 hpackage
  obtain ⟨ns, -, hns⟩ := Path.names_parent hdir
  obtain ⟨ms, hms, hnames'⟩ := Path.names_parent hup
  have hstart : t.start (package.join ⟨"package.json"⟩) = t.start declarations := by
    rw [FileTree.start, FileTree.start, Path.isAbsolute_join hrelative,
      Path.isAbsolute_parent hup, Path.isAbsolute_parent hdir]
  rw [hns, hnames', List.append_assoc, FileTree.walks_append] at hw
  rw [hstart, Path.names_join hrelative, hnames, FileTree.walks_append]
  obtain ⟨m, ms', rfl⟩ := List.exists_cons_of_ne_nil hms
  exact ⟨hw.1, hw.2.1, hfits, trivial⟩

/-- What a project reads is the same in a tree that keeps all files but its output, if the same
files can be read. -/
theorem Project.reads_kept {p : Project} {source : String} (h : Keeps [t.target p.output] t u)
    (hapart : p.OutputApart t) (hr : ∀ q, r'.fault? u (.read q) = r.fault? t (.read q))
    (hsource : readAt r t p.compiler = .ok source) :
    readAt r' u p.compiler = .ok source ∧
      versionAt r' u p.compiler = versionAt r t p.compiler := by
  rw [readAt_eq_ok_iff] at hsource ⊢
  obtain ⟨hallowed, hread⟩ := hsource
  have hw := (FileTree.read_eq_ok_iff.1 hread).2.2.1
  refine ⟨⟨(hr _).trans hallowed, h.read (by simpa using Ne.symm hapart.1) hread⟩, ?_⟩
  rw [versionAt, versionAt]
  cases hm : p.compiler.manifest? with
  | none => rfl
  | some manifest =>
    have htarget : t.target manifest ∉ [t.target p.output] := by
      simpa using Ne.symm (hapart.2 manifest hm)
    have hsame : (readAt r' u manifest).toOption = (readAt r t manifest).toOption := by
      refine Option.ext fun s => ?_
      rw [toOption_eq_some_iff, toOption_eq_some_iff, readAt_eq_ok_iff, readAt_eq_ok_iff, hr]
      refine and_congr_right fun _ => ⟨?_, h.read htarget⟩
      exact h.read_inDirectory htarget (walks_manifest hm hw)
    simp only [Option.bind_eq_bind, Option.bind_some, hsame]

/-! ## The run -/

theorem ends_finish (r : Refusals) (t : FileTree) (p : Path) (text : String) :
    (finish p text : ProjectRun Guarded String).ends r t =
      match (Files.replace p (Text.LineEnding.normalize text) : Guarded _) r t with
      | (.error e, u) => (.error (.files e), u)
      | (.ok (), u) => (.ok (Text.LineEnding.normalize text), u) := by
  rw [finish, LoggedT.ends_bind, LoggedT.ends_ofEffects_mapError]
  obtain ⟨x, u⟩ := (Files.replace p (Text.LineEnding.normalize text) : Guarded _) r t
  cases x <;> rfl

/-- What is generated is what the configuration and its policy assemble. -/
theorem Project.generate_eq_ok_iff {p : Project} {version : Option String} {file : File}
    {generated : OutputModule} :
    (p.generate version file).outcome = .ok generated ↔ ∃ policy, p.config.policy = .ok policy ∧
      (assemble p.config policy version file p.output).outcome = .ok generated := by
  simp only [generate, Logged.outcome_bind, Logged.outcome_ofExcept, Logged.outcome_mapError]
  cases p.config.policy with
  | error e => simp [Except.mapError, bind, Except.bind]
  | ok policy =>
    simp only [Except.mapError, bind, Except.bind, Except.ok.injEq, exists_eq_left']
    cases (assemble p.config policy version file p.output).outcome <;> simp

theorem Project.textFor?_eq_some_iff {p : Project} {version : Option String}
    {source text : String} :
    p.textFor? version source = some text ↔
      ∃ file policy generated, parse source = .ok file ∧ p.config.policy = .ok policy ∧
        (assemble p.config policy version file p.output).outcome = .ok generated ∧
        text = Text.LineEnding.normalize generated.print := by
  simp only [textFor?, Option.bind_eq_bind, Option.bind_eq_some_iff, toOption_eq_some_iff,
    Option.pure_def, Option.some.injEq]
  constructor
  · rintro ⟨file, hfile, policy, hpolicy, generated, hassemble, rfl⟩
    exact ⟨file, policy, generated, hfile, hpolicy, hassemble, rfl⟩
  · rintro ⟨file, policy, generated, hfile, hpolicy, hassemble, rfl⟩
    exact ⟨file, hfile, policy, hpolicy, generated, hassemble, rfl⟩

/-- A run step by step: what is read, what is generated, what is written. -/
theorem Project.ends_regenerate (p : Project) (r : Refusals) (t : FileTree) :
    (p.regenerate : ProjectRun Guarded Path).ends r t =
      match readAt r t p.compiler with
      | .error fault => (.error (.files ⟨p.compiler, fault⟩), t)
      | .ok source =>
        match parse source with
        | .error e => (.error (.notDeclarations p.compiler source e), t)
        | .ok file =>
          match (p.generate (versionAt r t p.compiler) file).outcome with
          | .error e => (.error e, t)
          | .ok generated =>
            match (Files.replace p.output (Text.LineEnding.normalize generated.print) :
              Guarded _) r t with
            | (.error e, u) => (.error (.files e), u)
            | (.ok (), u) => (.ok p.output, u) := by
  rw [regenerate, LoggedT.ends_bind, ends_readText]
  cases readAt r t p.compiler with
  | error fault => rfl
  | ok source =>
    simp only [Except.mapError, LoggedT.ends_bind, LoggedT.ends_ofLogged, Logged.outcome_ofExcept]
    cases parse source with
    | error e => rfl
    | ok file =>
      simp only [ends_compilerVersion, LoggedT.ends_note]
      cases (p.generate (versionAt r t p.compiler) file).outcome with
      | error e => rfl
      | ok generated =>
        simp only [ends_finish]
        obtain ⟨x, u⟩ := (Files.replace p.output (Text.LineEnding.normalize generated.print) :
          Guarded _) r t
        cases x <;> rfl

/-- A run that ends well has written the text for what it has read. -/
theorem Project.ends_regenerate_cases (p : Project) (r : Refusals) (t : FileTree) :
    (∃ e u, (p.regenerate : ProjectRun Guarded Path).ends r t = (.error e, u) ∧ Keeps [] t u) ∨
      ∃ source text u, (p.regenerate : ProjectRun Guarded Path).ends r t = (.ok p.output, u) ∧
        readAt r t p.compiler = .ok source ∧
        p.textFor? (versionAt r t p.compiler) source = some text ∧
        Keeps [t.target p.output] t u ∧ u.file? (t.target p.output) = some (.text text) ∧
        u.Admits p.output := by
  rw [p.ends_regenerate]
  cases hread : readAt r t p.compiler with
  | error fault => exact .inl ⟨_, _, rfl, .refl _ _⟩
  | ok source =>
    dsimp only
    cases hparse : parse source with
    | error e => exact .inl ⟨_, _, rfl, .refl _ _⟩
    | ok file =>
      dsimp only
      cases hgenerate : (p.generate (versionAt r t p.compiler) file).outcome with
      | error e => exact .inl ⟨_, _, rfl, .refl _ _⟩
      | ok generated =>
        dsimp only
        have htext : p.textFor? (versionAt r t p.compiler) source =
            some (Text.LineEnding.normalize generated.print) := by
          obtain ⟨policy, hpolicy, hassemble⟩ := generate_eq_ok_iff.1 hgenerate
          exact textFor?_eq_some_iff.2 ⟨file, policy, generated, hparse, hpolicy, hassemble, rfl⟩
        obtain ⟨e, u, hreplace, hkeeps⟩ | ⟨u, hreplace, hkeeps, hfile, hadmits⟩ :=
          Files.replace_cases r t p.output (Text.LineEnding.normalize generated.print)
        · rw [hreplace]
          exact .inl ⟨_, _, rfl, hkeeps⟩
        · rw [hreplace]
          exact .inr ⟨source, _, u, rfl, rfl, htext, hkeeps, hfile, hadmits⟩

/-- A run ends well if what it reads has a text and the output can be replaced. -/
theorem Project.ends_regenerate_of_admits {p : Project} {source text : String}
    (hread : readAt r t p.compiler = .ok source)
    (htext : p.textFor? (versionAt r t p.compiler) source = some text)
    (hadmits : t.Admits p.output) (hr : r.AllowReplace) :
    ∃ u, (p.regenerate : ProjectRun Guarded Path).ends r t = (.ok p.output, u) := by
  obtain ⟨file, policy, generated, hfile, hpolicy, hassemble, rfl⟩ :=
    textFor?_eq_some_iff.1 htext
  have hgenerated := generate_eq_ok_iff.2 ⟨policy, hpolicy, hassemble⟩
  obtain ⟨u, hu⟩ := Files.replace_of_admits hadmits hr (Text.LineEnding.normalize generated.print)
  rw [p.ends_regenerate]
  simp only [hread, hfile, hgenerated, hu]
  exact ⟨u, rfl⟩

/-- A run on the tree alone is one where nothing is refused. -/
theorem Project.regenerate_unrefused (p : Project) :
    (p.regenerate : ProjectRun Guarded Path) Refusals.none =
      (p.regenerate : ProjectRun (StateM FileTree) Path) := by
  refine LoggedT.bind_unrefused rfl fun source => ?_
  refine LoggedT.bind_unrefused rfl fun file => ?_
  refine LoggedT.bind_unrefused (compilerVersion_unrefused _) fun version => ?_
  refine LoggedT.bind_unrefused rfl fun _ => ?_
  refine LoggedT.bind_unrefused rfl fun generated => ?_
  refine LoggedT.bind_unrefused ?_ fun _ => rfl
  exact LoggedT.bind_unrefused
    (LoggedT.ofEffects_unrefused _ (Files.replace_unrefused _ _)) fun _ => rfl

/-- **Regeneration is all or nothing, and can be repeated.** Whatever the system refuses, a run that
ends with an error leaves all files as they were, so that the output is as it was and nothing else
is left. A run that ends well has replaced the output, whatever was there, by the text of the module
that is assembled from the declarations under the policy of the configuration and for the version in
the manifest, with normal line endings, and keeps all other files. If the output is none of the
files that are read, it ends well again on the tree that it leaves, where the same can be read and
the output can be replaced, and changes no file. -/
theorem Project.regenerate_allOrNothing (p : Project) (r : Refusals) (t : FileTree) :
    match (p.regenerate : ProjectRun Guarded Path).ends r t with
    | (.error _, u) => Keeps [] t u
    | (.ok path, u) =>
      path = p.output ∧
      (∃ source file policy assembled, t.read p.compiler = .ok source ∧ parse source = .ok file ∧
        p.config.policy = .ok policy ∧
        (assemble p.config policy (versionAt r t p.compiler) file p.output).outcome =
          .ok assembled ∧
        u.file? (t.target p.output) =
          some (.text (Text.LineEnding.normalize assembled.print)) ∧
        u.read p.output = .ok (Text.LineEnding.normalize assembled.print)) ∧
      Keeps [t.target p.output] t u ∧
      (p.OutputApart t → ∀ r' : Refusals, r'.AllowReplace →
        (∀ q, r'.fault? u (.read q) = r.fault? t (.read q)) →
        ∃ v, (p.regenerate : ProjectRun Guarded Path).ends r' u = (.ok p.output, v) ∧
          Keeps [] u v) := by
  obtain ⟨e, u, hends, hkeeps⟩ | ⟨source, text, u, hends, hread, htext, hkeeps, hfile, hadmits⟩ :=
    p.ends_regenerate_cases r t
  · rw [hends]
    exact hkeeps
  · rw [hends]
    have hfile' : u.file? (u.target p.output) = some (.text text) := by
      rw [hkeeps.target, hfile]
    obtain ⟨file, policy, generated, hparse, hpolicy, hassemble, hgenerated⟩ :=
      textFor?_eq_some_iff.1 htext
    refine ⟨rfl, ⟨source, file, policy, generated, (readAt_eq_ok_iff.1 hread).2, hparse, hpolicy,
      hassemble, hgenerated ▸ hfile, hgenerated ▸ hadmits.read hfile'⟩, hkeeps,
      fun hapart r' hr' hsame => ?_⟩
    obtain ⟨hread', hversion⟩ := reads_kept hkeeps hapart hsame hread
    have htext' : p.textFor? (versionAt r' u p.compiler) source = some text := by
      rw [hversion, htext]
    obtain ⟨v, hv⟩ := ends_regenerate_of_admits hread' htext' hadmits hr'
    refine ⟨v, hv, ?_⟩
    -- The second run writes what is there already.
    obtain ⟨e, w, hw, -⟩ | ⟨source', again, w, hw, hsource', hagain, hkeeps', hfile'', -⟩ :=
      p.ends_regenerate_cases r' u
    · rw [hv] at hw
      cases hw
    · rw [hv] at hw
      obtain rfl : v = w := (Prod.mk.inj hw).2
      obtain rfl : source = source' := Except.ok.inj (hread'.symm.trans hsource')
      obtain rfl : text = again := Option.some.inj (htext'.symm.trans hagain)
      exact hkeeps'.unspare (hfile''.trans hfile'.symm)

/-- A directory with an installed package, which holds `nodesSource` and a manifest. -/
def nodesTree : FileTree where
  entries :=
    [(["home"], .directory), (["home", "node_modules"], .directory),
     (["home", "node_modules", "typescript"], .directory),
     (["home", "node_modules", "typescript", "lib"], .directory),
     (["home", "node_modules", "typescript", "lib", "typescript.d.ts"], .file (.text nodesSource)),
     (["home", "node_modules", "typescript", "package.json"],
      .file (.text "\x7b\"version\": \"5.0.2\"\x7d"))]
  workingDirectory := ["home"]

/-- The project in this directory. -/
def nodesProject : Project where
  root := ⟨"."⟩
  config :=
    { output := ⟨"out.ts"⟩, qualify := some [], brand := { doc := "Keeps nodes apart." } }
  compiler := ⟨"./node_modules/typescript/lib/typescript.d.ts"⟩

theorem nodesProject_outputApart : nodesProject.OutputApart nodesTree := by
  have hmanifest : nodesProject.compiler.manifest? =
      some ⟨"./node_modules/typescript/package.json"⟩ := by decide +kernel
  refine ⟨by decide +kernel, fun manifest h => ?_⟩
  rw [hmanifest] at h
  cases h
  decide +kernel

/-- The lines that are written for it. -/
def nodesLines : List String :=
  ["/* eslint-disable */", "/*", " * TypeScript compiler declarations, version 5.0.2.", " *",
   " * Generated by dts-rewrap from typescript.d.ts. Do not edit; every run",
   " * replaces this file.", " *",
   " * The declarations are Copyright (c) Microsoft Corporation and licensed",
   " * under the Apache License, Version 2.0.", " */",
   "import * as tsCompiler from \"typescript\";",
   "import \x7b ObjectUtils \x7d from \"../utils\";", "", "export namespace ts \x7b",
   "    export interface Node \x7b", "        /** Keeps nodes apart. */",
   "        _compilerBrand: undefined;", "    \x7d", "    export type Text = \x60a", "\x60;",
   "    ObjectUtils.assign(ts, tsCompiler);", "\x7d"]

/-- The text that is written for it. -/
def nodesText : String :=
  String.join (nodesLines.map (· ++ "\r\n"))

theorem nodesLines_plain :
    ∀ l ∈ nodesLines, ∀ c ∈ l.toList, Text.LineEnding.isTerminator c = false := by
  rw [nodesLines]
  repeat refine List.forall_mem_cons.2 ⟨Text.LineEnding.isTerminator_ofList (by decide), ?_⟩
  exact List.forall_mem_nil _

theorem nodesProject_text :
    nodesProject.textFor? (some "5.0.2") nodesSource = some nodesText := by
  have hparse : parse nodesSource = .ok nodesFile := rfl
  -- The text is compared before its line endings are normalized, which takes less time.
  have hprint : ∃ assembled, (assemble nodesProject.config Policy.builtin (some "5.0.2") nodesFile
      nodesProject.output).outcome = .ok assembled ∧
      assembled.print = String.join (nodesLines.map (· ++ "\n")) := by
    refine ⟨_, rfl, ?_⟩
    decide +kernel
  obtain ⟨assembled, hassemble, hprint⟩ := hprint
  refine Project.textFor?_eq_some_iff.2 ⟨nodesFile, _, assembled, hparse, rfl, hassemble, ?_⟩
  rw [hprint, Text.LineEnding.normalize_join nodesLines_plain, nodesText]

theorem nodesProject_reads :
    readAt Refusals.none nodesTree nodesProject.compiler = .ok nodesSource ∧
      versionAt Refusals.none nodesTree nodesProject.compiler = some "5.0.2" := by
  constructor
  · decide +kernel
  · decide +kernel

theorem nodesProject_ends :
    ∃ u, (nodesProject.regenerate : ProjectRun Guarded Path).ends Refusals.none nodesTree =
      (.ok nodesProject.output, u) := by
  have hadmits : nodesTree.Admits nodesProject.output :=
    ⟨by decide, by decide, by decide, by decide, by decide, by decide⟩
  obtain ⟨hread, hversion⟩ := nodesProject_reads
  have htext := nodesProject_text
  rw [← hversion] at htext
  exact Project.ends_regenerate_of_admits hread htext hadmits Refusals.allowReplace_none

theorem Project.regenerate_allOrNothing_nodes :
    nodesProject.OutputApart nodesTree ∧
      ∃ u, (nodesProject.regenerate : ProjectRun Guarded Path).ends Refusals.none nodesTree =
          (.ok nodesProject.output, u) ∧
        u.read nodesProject.output = .ok nodesText ∧
        ∃ v, (nodesProject.regenerate : ProjectRun Guarded Path).ends Refusals.none u =
            (.ok nodesProject.output, v) ∧ Keeps [] u v := by
  -- With names for the project and its tree there is nothing to evaluate on the way.
  have hagain (p : Project) (t u : FileTree) (source text : String) (hapart : p.OutputApart t)
      (hread : readAt Refusals.none t p.compiler = .ok source)
      (htext : p.textFor? (versionAt Refusals.none t p.compiler) source = some text)
      (hu : (p.regenerate : ProjectRun Guarded Path).ends Refusals.none t = (.ok p.output, u)) :
      u.read p.output = .ok text ∧
        ∃ v, (p.regenerate : ProjectRun Guarded Path).ends Refusals.none u = (.ok p.output, v) ∧
          Keeps [] u v := by
    have hall := p.regenerate_allOrNothing Refusals.none t
    rw [hu] at hall
    obtain ⟨-, ⟨source', file, policy, assembled, hread', hparse, hpolicy, hassemble, -, hwritten⟩,
      -, hagain⟩ := hall
    obtain rfl : source = source' := Except.ok.inj ((readAt_eq_ok_iff.1 hread).2.symm.trans hread')
    have htext' := textFor?_eq_some_iff.2
      ⟨file, policy, assembled, hparse, hpolicy, hassemble, rfl⟩
    rw [Option.some.inj (htext.symm.trans htext')]
    exact ⟨hwritten, hagain hapart Refusals.none Refusals.allowReplace_none fun _ => rfl⟩
  obtain ⟨hread, hversion⟩ := nodesProject_reads
  have htext := nodesProject_text
  rw [← hversion] at htext
  obtain ⟨u, hu⟩ := nodesProject_ends
  exact ⟨nodesProject_outputApart, u, hu,
    hagain _ _ u nodesSource nodesText nodesProject_outputApart hread htext hu⟩

end Ambient
