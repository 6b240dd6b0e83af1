import Ambient.Files.Basic
import Ambient.Proofs.Files.Trees

/-!
# Files that are replaced as a whole

A system can refuse any operation on files for reasons that no tree shows: rights, a full disk, a
broken one. `Guarded` runs act on a file tree under `Refusals`, which may depend on the operation
and on all that has been done to the tree before. A write that fails on its way leaves whatever it
has got to. Without refusals they are the runs on the tree (`replace_unrefused`).

Whatever is refused, and when, `Files.replace` writes the whole text or leaves all files as they
were (`replace_cases`). A file that has been written can be written again (`Admits`,
`replace_of_admits`).
-/

namespace Ambient

/-- An operation that the system can refuse. -/
inductive FileOperation where
  | look (p : Path)
  | read (p : Path)
  | makeDirectory (p : Path)
  | createNew (dir : Path)
  | write (p : Path)
  | rename (source dest : Path)
  deriving DecidableEq, Repr

/-- What the system refuses to do to a tree, and what a file holds when writing a text to it is
refused. That a file which has been made can be removed again, and that a file gets another path in
one step or not at all, is assumed. -/
structure Refusals where
  fault? : FileTree → FileOperation → Option FileFault
  remains : FileTree → Path → String → FileContent

/-- A run on a file tree where operations may be refused. -/
abbrev Guarded : Type → Type :=
  ReaderT Refusals (StateM FileTree)

namespace Guarded

variable {α : Type}

/-- An operation that happens unless it is refused. -/
def unlessRefused (o : FileOperation) (x : StateM FileTree (Except FileFault α)) :
    Guarded (Except FileFault α) :=
  fun r t =>
    match r.fault? t o with
    | some e => (.error e, t)
    | none => x t

/-- A question that is answered in the negative if it is refused. -/
def ifSeen (p : Path) (x : StateM FileTree Bool) : Guarded Bool :=
  fun r t =>
    match r.fault? t (.look p) with
    | some _ => (false, t)
    | none => x t

/-- A write that leaves something else in the file if it is refused. -/
def writeUnlessRefused (p : Path) (text : String) : Guarded (Except FileFault Unit) :=
  fun r t =>
    match r.fault? t (.write p) with
    | some e => (.error e, (FileTree.change (·.overwrite p (r.remains t p text)) t).2)
    | none => (Files.write p text : StateM FileTree _) t

instance : Files Guarded where
  isFile p := ifSeen p (Files.isFile p)
  isDirectory p := ifSeen p (Files.isDirectory p)
  read p := unlessRefused (.read p) (Files.read p)
  makeDirectory p := unlessRefused (.makeDirectory p) (Files.makeDirectory p)
  createNew dir := unlessRefused (.createNew dir) (Files.createNew dir)
  write p text := writeUnlessRefused p text
  rename source dest := unlessRefused (.rename source dest) (Files.rename source dest)
  remove p := fun _ => Files.remove p

theorem bind_apply {β : Type} (x : Guarded α) (f : α → Guarded β) (r : Refusals) (t : FileTree) :
    (x >>= f) r t = f (x r t).1 r (x r t).2 :=
  rfl

end Guarded

namespace Refusals

/-- Nothing is refused. -/
def none : Refusals where
  fault? _ _ := Option.none
  remains _ _ text := .text text

/-- Whether nothing that is needed to replace a file is refused, where its directory is there. -/
structure AllowReplace (r : Refusals) : Prop where
  look : ∀ t p, r.fault? t (.look p) = Option.none
  createNew : ∀ t p, r.fault? t (.createNew p) = Option.none
  write : ∀ t p, r.fault? t (.write p) = Option.none
  rename : ∀ t p q, r.fault? t (.rename p q) = Option.none

theorem allowReplace_none : none.AllowReplace :=
  ⟨fun _ _ => rfl, fun _ _ => rfl, fun _ _ => rfl, fun _ _ _ => rfl⟩

end Refusals

namespace Files

open FileTree (Keeps)

variable {r : Refusals} {t u : FileTree} {p : Path} {content : FileContent}

/-! ## Runs without refusals -/

/-- Steps that agree with those on the tree if nothing is refused do so one after the other. -/
theorem bind_unrefused {α β : Type} {x : Guarded α} {y : StateM FileTree α} {f : α → Guarded β}
    {g : α → StateM FileTree β} (hx : x Refusals.none = y) (hf : ∀ a, f a Refusals.none = g a) :
    (x >>= f) Refusals.none = y >>= g := by
  funext t
  rw [Guarded.bind_apply, hx, hf]
  rfl

theorem ensureDirectory_unrefused (p : Path) :
    (ensureDirectory p : Guarded _) Refusals.none = ensureDirectory p := by
  refine bind_unrefused rfl fun x => ?_
  cases x with
  | ok => rfl
  | error e =>
    refine bind_unrefused rfl fun b => ?_
    cases b <;> rfl

theorem makeNested_unrefused (ps : List Path) :
    (makeNested ps : Guarded _) Refusals.none = makeNested ps := by
  induction ps with
  | nil => rfl
  | cons p ps ih =>
    rw [makeNested, makeNested]
    split
    · rfl
    · refine bind_unrefused (ensureDirectory_unrefused p) fun x => ?_
      split
      · refine bind_unrefused ih fun y => ?_
        cases y with
        | ok => exact ensureDirectory_unrefused p
        | error e => rfl
      · rfl

/-- A file is replaced as on the tree alone if nothing is refused. -/
theorem replace_unrefused (p : Path) (text : String) :
    (replace p text : Guarded _) Refusals.none = replace p text := by
  refine bind_unrefused (makeNested_unrefused _) fun x => ?_
  cases x with
  | error e => rfl
  | ok =>
    refine bind_unrefused rfl fun y => ?_
    cases y with
    | error e => rfl
    | ok new =>
      refine bind_unrefused rfl fun z => ?_
      cases z with
      | error e => rfl
      | ok =>
        refine bind_unrefused rfl fun w => ?_
        cases w <;> rfl

/-! ## Steps -/

theorem makeDirectory_keeps (r : Refusals) (t : FileTree) (p : Path) :
    Keeps [] t ((makeDirectory p : Guarded _) r t).2 := by
  simp only [makeDirectory, Guarded.unlessRefused]
  cases r.fault? t (.makeDirectory p) with
  | some e => exact .refl _ _
  | none =>
    simp only [FileTree.change]
    cases h : t.makeDirectory p with
    | error e => exact .refl _ _
    | ok u =>
      obtain ⟨hnone, rfl⟩ := FileTree.makeDirectory_ok h
      exact .put_directory hnone

theorem isDirectory_tree (r : Refusals) (t : FileTree) (p : Path) :
    ((isDirectory p : Guarded _) r t).2 = t := by
  simp only [isDirectory, Guarded.ifSeen]
  cases r.fault? t (.look p) <;> rfl

/-- An attempt to make a directory keeps all files. -/
theorem ensureDirectory_keeps (r : Refusals) (t : FileTree) (p : Path) :
    Keeps [] t ((ensureDirectory p : Guarded _) r t).2 := by
  have hkeeps := makeDirectory_keeps r t p
  rw [ensureDirectory, Guarded.bind_apply]
  generalize (makeDirectory p : Guarded _) r t = made at hkeeps
  obtain ⟨x, u⟩ := made
  cases x with
  | ok => exact hkeeps
  | error e =>
    have htree := isDirectory_tree r u p
    simp only [Guarded.bind_apply]
    generalize (isDirectory p : Guarded _) r u = seen at htree
    obtain ⟨b, v⟩ := seen
    obtain rfl : v = u := htree
    cases b <;> exact hkeeps

/-- Attempts to make directories keep all files, however far they get. -/
theorem makeNested_keeps (r : Refusals) (t : FileTree) (ps : List Path) :
    Keeps [] t ((makeNested ps : Guarded _) r t).2 := by
  induction ps generalizing t with
  | nil => exact .refl _ _
  | cons p ps ih =>
    rw [makeNested]
    split
    · exact .refl _ _
    · have hfirst := ensureDirectory_keeps r t p
      rw [Guarded.bind_apply]
      generalize (ensureDirectory p : Guarded _) r t = first at hfirst
      obtain ⟨x, u⟩ := first
      dsimp only at hfirst ⊢
      split
      · have habove := ih u
        rw [Guarded.bind_apply]
        generalize (makeNested ps : Guarded _) r u = above at habove
        obtain ⟨y, v⟩ := above
        cases y with
        | error e => exact hfirst.trans habove
        | ok => exact (hfirst.trans habove).trans (ensureDirectory_keeps r v p)
      · exact hfirst

/-- A directory that is there need not be made. -/
theorem ensureDirectory_of_isDirectory (h : t.isDirectory p = true)
    (hr : r.fault? t (.look p) = none) :
    (ensureDirectory p : Guarded _) r t = (.ok (), t) := by
  have hseen : (isDirectory p : Guarded _) r t = (true, t) := by
    simp only [isDirectory, Guarded.ifSeen, hr, h]
  have hmade : ∃ e, (makeDirectory p : Guarded _) r t = (.error e, t) := by
    simp only [makeDirectory, Guarded.unlessRefused]
    cases r.fault? t (.makeDirectory p) with
    | some e => exact ⟨e, rfl⟩
    | none =>
      simp only [FileTree.change]
      cases hm : t.makeDirectory p with
      | error e => exact ⟨e, rfl⟩
      | ok u =>
        have hnone := (FileTree.makeDirectory_ok hm).1
        rw [(FileTree.isDirectory_iff.1 h).2.2] at hnone
        cases hnone
  obtain ⟨e, hmade⟩ := hmade
  rw [ensureDirectory, Guarded.bind_apply, hmade]
  simp only [Guarded.bind_apply, hseen]
  rfl

theorem makeDirectories_of_isDirectory (h : t.isDirectory p = true)
    (hr : r.fault? t (.look p) = none) :
    (makeDirectories p : Guarded _) r t = (.ok (), t) := by
  obtain ⟨ps, hps⟩ : ∃ ps, p.ancestors = p :: ps := by
    rw [Path.ancestors]
    cases p.text.length with
    | zero => exact ⟨_, rfl⟩
    | succ n =>
      rw [Path.ancestorsUpTo]
      split <;> exact ⟨_, rfl⟩
  rw [makeDirectories, hps, makeNested]
  split
  · rfl
  · rw [Guarded.bind_apply, ensureDirectory_of_isDirectory h hr]
    rfl

/-- The tree with a new file in the directory of a path. -/
def withFresh (t : FileTree) (p : Path) (content : FileContent) : FileTree :=
  t.put (t.target p.directory ++ [t.freshName]) (.file content)

/-- A new file in a directory, or nothing. -/
theorem createNew_cases (r : Refusals) (t : FileTree) (p : Path) :
    (∃ e, (createNew p.directory : Guarded _) r t = (.error e, t)) ∨
      t.isDirectory p.directory = true ∧ (createNew p.directory : Guarded _) r t =
        (.ok (p.directory.join ⟨t.freshName⟩), withFresh t p (.text "")) := by
  simp only [createNew, Guarded.unlessRefused]
  cases r.fault? t (.createNew p.directory) with
  | some e => exact .inl ⟨e, rfl⟩
  | none =>
    simp only [FileTree.createNew]
    cases hd : t.findDirectory p.directory with
    | error e => exact .inl ⟨e, rfl⟩
    | ok l =>
      obtain ⟨hdir, rfl⟩ := FileTree.findDirectory_eq_ok_iff.1 hd
      exact .inr ⟨hdir, rfl⟩

theorem createNew_of_isDirectory (h : t.isDirectory p.directory = true)
    (hr : r.fault? t (.createNew p.directory) = none) :
    (createNew p.directory : Guarded _) r t =
      (.ok (p.directory.join ⟨t.freshName⟩), withFresh t p (.text "")) := by
  simp only [createNew, Guarded.unlessRefused, hr, FileTree.createNew,
    FileTree.findDirectory_eq_ok_iff.2 ⟨h, rfl⟩]
  rfl

theorem rename_cases (r : Refusals) (t : FileTree) (source dest : Path) :
    (∃ e, (rename source dest : Guarded _) r t = (.error e, t)) ∨
      ∃ u, t.rename source dest = .ok u ∧ (rename source dest : Guarded _) r t = (.ok (), u) := by
  simp only [rename, Guarded.unlessRefused]
  cases r.fault? t (.rename source dest) with
  | some e => exact .inl ⟨e, rfl⟩
  | none =>
    simp only [FileTree.change]
    cases t.rename source dest with
    | error e => exact .inl ⟨e, rfl⟩
    | ok u => exact .inr ⟨u, rfl, rfl⟩

/-! ## All or nothing -/

theorem withFresh_keeps (t : FileTree) (p : Path) (content : FileContent) :
    Keeps [t.target p.directory ++ [t.freshName]] t (withFresh t p content) :=
  .put_file _ (by simp [t.lookup_freshName])

theorem place?_withFresh (h : t.isDirectory p.directory = true) :
    (withFresh t p content).place? (p.directory.join ⟨t.freshName⟩) =
      .ok (some (t.target p.directory ++ [t.freshName])) := by
  have hkeeps := withFresh_keeps t p content
  rw [← hkeeps.target p.directory]
  exact FileTree.place?_fresh (hkeeps.isDirectory h) t

theorem erase_withFresh_keeps (t : FileTree) (p : Path) (content : FileContent) :
    Keeps [] t ((withFresh t p content).erase (t.target p.directory ++ [t.freshName])) :=
  .put_erase (t.lookup_freshName _)

theorem lookup_withFresh (t : FileTree) (p : Path) (content : FileContent) :
    (withFresh t p content).lookup (t.target p.directory ++ [t.freshName]) =
      some (.file content) := by
  rw [withFresh, FileTree.lookup_put _ _ _ _ (by simp), if_pos rfl]

/-- What is written to the new file takes the place of what it held. -/
theorem overwrite_withFresh (h : t.isDirectory p.directory = true) (content' : FileContent) :
    (withFresh t p content).overwrite (p.directory.join ⟨t.freshName⟩) content' =
      .ok (withFresh t p content') := by
  rw [FileTree.overwrite, place?_withFresh h]
  simp only [Except.bind, bind, lookup_withFresh]
  rw [withFresh, FileTree.put_put]
  rfl

/-- Writing to the new file leaves it with the text, or with something else if it is refused. -/
theorem write_withFresh_cases (r : Refusals) (h : t.isDirectory p.directory = true)
    (content : FileContent) (text : String) :
    (∃ e remains, (write (p.directory.join ⟨t.freshName⟩) text : Guarded _) r
        (withFresh t p content) = (.error e, withFresh t p remains)) ∨
      (write (p.directory.join ⟨t.freshName⟩) text : Guarded _) r (withFresh t p content) =
        (.ok (), withFresh t p (.text text)) := by
  simp only [write, Guarded.writeUnlessRefused, FileTree.change, overwrite_withFresh h]
  cases r.fault? (withFresh t p content) (.write (p.directory.join ⟨t.freshName⟩)) with
  | some e => exact .inl ⟨e, _, rfl⟩
  | none => exact .inr rfl

/-- The new file takes the place of the old one as a whole. -/
theorem rename_withFresh (h : t.isDirectory p.directory = true)
    (hu : (withFresh t p content).rename (p.directory.join ⟨t.freshName⟩) p = .ok u) :
    Keeps [t.target p] t u ∧ u.file? (t.target p) = some content ∧ u.Admits p := by
  have hkeeps := withFresh_keeps t p content
  obtain ⟨-, hnul, a, b, content', ha, hb, hcontent, hfits, -, hslash, hfree, rfl⟩ :=
    FileTree.rename_eq_ok_iff.1 hu
  rw [place?_withFresh h] at ha
  obtain rfl := Option.some.inj (Except.ok.inj ha)
  rw [lookup_withFresh] at hcontent
  obtain rfl := Entry.file.inj (Option.some.inj hcontent)
  obtain rfl : b = t.target p :=
    (FileTree.place?_eq_some_iff.1 hb).2.1.trans (hkeeps.target p)
  have hfile : (withFresh t p content).lookup (t.target p.directory ++ [t.freshName]) ≠
      some .directory := by
    rw [lookup_withFresh]
    simp
  have hfree' : ((withFresh t p content).erase (t.target p.directory ++ [t.freshName])).lookup
      (t.target p) ≠ some .directory := by
    rw [FileTree.lookup_erase _ _ _ (by simp)]
    split
    · simp
    · exact hfree
  have hlast := Keeps.put_file content hfree'
  have hall : Keeps [t.target p] t _ :=
    ((erase_withFresh_keeps t p content).spare (by simp)).trans hlast
  -- The old paths stay good in the last tree, to which both changes lead.
  have hafter :
      Keeps [t.target p.directory ++ [t.freshName], t.target p] (withFresh t p content) _ :=
    ((Keeps.erase hfile).spare (by simp)).trans (hlast.spare (by simp))
  refine ⟨hall, ?_, hall.isDirectory h, ?_, ?_, hnul, hslash, ?_⟩
  · rw [FileTree.file?_put (FileTree.ne_nil_of_lookup hfree'), if_pos rfl]
  · rw [hall.target]
    exact hafter.place? hb
  · rw [hall.target]
    exact hfits
  · rw [hall.target, FileTree.lookup_put _ _ _ _ (FileTree.ne_nil_of_lookup hfree'), if_pos rfl]
    simp

/-- A new file that is not needed is removed. -/
theorem remove_withFresh (h : t.isDirectory p.directory = true) :
    Keeps [] t ((withFresh t p content).remove (p.directory.join ⟨t.freshName⟩)) := by
  rw [FileTree.remove, place?_withFresh h]
  simp only [lookup_withFresh]
  exact erase_withFresh_keeps t p content

/-- **A file is replaced as a whole or not at all.** Whatever the system refuses, either all files
stay as they were, or the file at the path holds the text and all others stay. Nothing else is new
but directories. -/
theorem replace_cases (r : Refusals) (t : FileTree) (p : Path) (text : String) :
    (∃ e u, (replace p text : Guarded _) r t = (.error e, u) ∧ Keeps [] t u) ∨
      ∃ u, (replace p text : Guarded _) r t = (.ok (), u) ∧ Keeps [t.target p] t u ∧
        u.file? (t.target p) = some (.text text) ∧ u.Admits p := by
  have hdirs := makeNested_keeps r t p.directory.ancestors
  rw [replace, Guarded.bind_apply, makeDirectories]
  generalize (makeNested p.directory.ancestors : Guarded _) r t = made at hdirs
  obtain ⟨x, t₁⟩ := made
  cases x with
  | error e => exact .inl ⟨_, _, rfl, hdirs⟩
  | ok =>
    dsimp only at hdirs ⊢
    rw [Guarded.bind_apply]
    obtain ⟨e, hnew⟩ | ⟨hdir, hnew⟩ := createNew_cases r t₁ p
    · rw [hnew]
      exact .inl ⟨_, _, rfl, hdirs⟩
    · rw [hnew]
      dsimp only
      rw [Guarded.bind_apply]
      -- From here on a refusal removes the new file, whatever has got into it by then.
      obtain ⟨e, remains, hwrite⟩ | hwrite := write_withFresh_cases r hdir (.text "") text
      · rw [hwrite]
        exact .inl ⟨_, _, rfl, hdirs.trans (remove_withFresh hdir)⟩
      · rw [hwrite]
        dsimp only
        rw [Guarded.bind_apply]
        obtain ⟨e, hrename⟩ | ⟨u, hu, hrename⟩ :=
          rename_cases r (withFresh t₁ p (.text text)) (p.directory.join ⟨t₁.freshName⟩) p
        · rw [hrename]
          exact .inl ⟨_, _, rfl, hdirs.trans (remove_withFresh hdir)⟩
        · rw [hrename]
          obtain ⟨hkeeps, hfile, hadmits⟩ := rename_withFresh hdir hu
          rw [hdirs.target] at hkeeps hfile
          exact .inr ⟨_, rfl, (hdirs.spare (by simp)).trans hkeeps, hfile, hadmits⟩

/-- A file can be replaced if nothing stands in its way. -/
theorem replace_of_admits (h : t.Admits p) (hr : r.AllowReplace) (text : String) :
    ∃ u, (replace p text : Guarded _) r t = (.ok (), u) := by
  have hkeeps := withFresh_keeps t p (.text text)
  obtain ⟨u, hu⟩ :
      ∃ u, (withFresh t p (.text text)).rename (p.directory.join ⟨t.freshName⟩) p = .ok u := by
    refine ⟨_, FileTree.rename_eq_ok_iff.2 ⟨FileTree.hasNul_fresh h.directory t, h.hasNul, _, _, _,
      place?_withFresh h.directory, hkeeps.place? h.place, lookup_withFresh t p _, h.fits,
      FileTree.endsInSlash_fresh t _, h.endsInSlash, ?_, rfl⟩⟩
    rw [withFresh, FileTree.lookup_put _ _ _ _ (by simp)]
    split
    · simp
    · exact h.free
  have hwrite : (write (p.directory.join ⟨t.freshName⟩) text : Guarded _) r
      (withFresh t p (.text "")) = (.ok (), withFresh t p (.text text)) := by
    simp only [write, Guarded.writeUnlessRefused, hr.write, FileTree.change,
      overwrite_withFresh h.directory]
  have hrename : (rename (p.directory.join ⟨t.freshName⟩) p : Guarded _) r
      (withFresh t p (.text text)) = (.ok (), u) := by
    simp only [rename, Guarded.unlessRefused, hr.rename, FileTree.change, hu]
  rw [replace, Guarded.bind_apply,
    makeDirectories_of_isDirectory h.directory (hr.look t p.directory)]
  dsimp only
  rw [Guarded.bind_apply, createNew_of_isDirectory h.directory (hr.createNew t p.directory)]
  dsimp only
  rw [Guarded.bind_apply, hwrite]
  dsimp only
  rw [Guarded.bind_apply, hrename]
  exact ⟨u, rfl⟩

end Files

end Ambient
