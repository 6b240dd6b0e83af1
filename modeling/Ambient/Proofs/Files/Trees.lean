import Ambient.Files.Tree
import Ambient.Proofs.Files.Paths

/-!
# What operations do to a file tree

Where a path leads can be said without the tree (`target`); the tree decides whether one gets there
(`Walks`). Each operation has one lemma that says when it succeeds and what it leaves
(`read_eq_ok_iff`, `findDirectory_eq_ok_iff`, `place?_eq_some_iff`, `makeDirectory_ok`,
`rename_eq_ok_iff`), in these two notions.

A tree `Keeps` another one if its files are the same and no directory is lost. That relation is
closed under runs, and what can be read stays readable along it (`Keeps.read`).
-/

namespace Ambient

namespace FileTree

variable {t u v : FileTree} {p q : Path} {l k : Location} {ns ms : List String}

/-- The file at a location. -/
def file? (t : FileTree) (l : Location) : Option FileContent :=
  match t.lookup l with
  | some (.file c) => some c
  | _ => none

theorem file?_eq_some_iff {c : FileContent} : t.file? l = some c ↔ t.lookup l = some (.file c) := by
  rw [file?]
  split
  · next c' h => simp [h]
  · next h => exact ⟨fun he => (nomatch he), fun he => (h c he).elim⟩

theorem file?_of_none (h : t.lookup l = none) : t.file? l = none := by
  rw [file?, h]

theorem file?_put {e : Entry} (h : l ≠ []) :
    (t.put l e).file? k =
      if k = l then (match e with | .file c => some c | .directory => none) else t.file? k := by
  simp only [file?, lookup_put t l k e h]
  by_cases hk : k = l
  · rw [if_pos hk, if_pos hk]
    cases e <;> rfl
  · rw [if_neg hk, if_neg hk]

theorem file?_erase (h : l ≠ []) : (t.erase l).file? k = if k = l then none else t.file? k := by
  simp only [file?, lookup_erase t l k h]
  by_cases hk : k = l
  · rw [if_pos hk, if_pos hk]
  · rw [if_neg hk, if_neg hk]

theorem ne_nil_of_lookup (h : t.lookup l ≠ some .directory) : l ≠ [] := by
  rintro rfl
  exact h rfl

/-! ## Where paths lead -/

/-- Where a name leads to from a location. -/
def advance (l : Location) (name : String) : Location :=
  if name = "." then l else if name = ".." then l.dropLast else l ++ [name]

/-- Whether names can be followed from a location: each leads on from a directory. -/
def Walks (t : FileTree) : Location → List String → Prop
  | _, [] => True
  | l, n :: ns => t.lookup l = some .directory ∧ nameFits n = true ∧ t.Walks (advance l n) ns

/-- Where a path leads to, in whatever tree one gets there. -/
def target (t : FileTree) (p : Path) : Location :=
  p.names.foldl advance (t.start p)

theorem walk_eq_ok_iff : t.walk l ns = .ok k ↔ t.Walks l ns ∧ k = ns.foldl advance l := by
  induction ns generalizing l with
  | nil =>
    rw [walk, Walks, List.foldl_nil]
    exact ⟨fun h => ⟨trivial, (Except.ok.inj h).symm⟩, fun h => by rw [h.2]⟩
  | cons n ns ih =>
    rw [walk, Walks, List.foldl_cons]
    cases hl : t.lookup l with
    | none => simp
    | some e =>
      cases e with
      | file c => simp
      | directory =>
        by_cases hn : nameFits n = true
        · simp only [hn, if_true, true_and]
          exact ih
        · simp [hn]

theorem walks_append : t.Walks l (ns ++ ms) ↔ t.Walks l ns ∧ t.Walks (ns.foldl advance l) ms := by
  induction ns generalizing l with
  | nil => simp [Walks]
  | cons n ns ih => simp [Walks, ih, and_assoc]

theorem walks_dot : t.Walks l ["."] ↔ t.lookup l = some .directory := by
  have hdot : nameFits "." = true := by decide
  simp [Walks, hdot]

theorem foldl_advance_dot : (ns ++ ["."]).foldl advance l = ns.foldl advance l := by
  simp [advance]

theorem walk_dot_eq_ok_iff :
    t.walk l (ns ++ ["."]) = .ok k ↔
      t.Walks l ns ∧ t.lookup k = some .directory ∧ k = ns.foldl advance l := by
  rw [walk_eq_ok_iff, walks_append, walks_dot, foldl_advance_dot]
  constructor
  · rintro ⟨⟨hw, hd⟩, rfl⟩
    exact ⟨hw, hd, rfl⟩
  · rintro ⟨hw, hd, rfl⟩
    exact ⟨⟨hw, hd⟩, rfl⟩

/-- The last name leads on from where the others lead. -/
theorem foldl_advance_getLast {n : String} (h : ns.getLast? = some n) :
    ns.foldl advance l = advance (ns.dropLast.foldl advance l) n := by
  obtain ⟨init, rfl⟩ := List.getLast?_eq_some_iff.1 h
  simp

/-! ## Operations -/

theorem find_eq_ok_iff {e : Entry} :
    t.find p = .ok (l, e) ↔
      refusal? p = none ∧ t.Walks (t.start p) p.names ∧ l = t.target p ∧ t.lookup l = some e ∧
        (p.endsInSlash = true → e = .directory) := by
  rw [find, target]
  cases hr : refusal? p with
  | some f => simp
  | none =>
    simp only [true_and]
    cases hs : p.endsInSlash with
    | true =>
      rw [if_pos rfl]
      cases hw : t.walk (t.start p) (p.names ++ ["."]) with
      | error f =>
        simp only [Except.bind, bind]
        refine ⟨fun h => (nomatch h), ?_⟩
        rintro ⟨hwalks, rfl, hl, hd⟩
        rw [hd trivial] at hl
        rw [walk_dot_eq_ok_iff.2 ⟨hwalks, hl, rfl⟩] at hw
        cases hw
      | ok k =>
        obtain ⟨hwalks, hk, rfl⟩ := walk_dot_eq_ok_iff.1 hw
        simp only [Except.bind, bind, hk]
        constructor
        · rintro h
          obtain ⟨rfl, rfl⟩ := Prod.mk.inj (Except.ok.inj h)
          exact ⟨hwalks, rfl, hk, fun _ => rfl⟩
        · rintro ⟨-, rfl, -, hd⟩
          rw [hd trivial]
    | false =>
      rw [if_neg (by simp)]
      cases hw : t.walk (t.start p) p.names with
      | error f =>
        simp only [Except.bind, bind]
        refine ⟨fun h => (nomatch h), ?_⟩
        rintro ⟨hwalks, -⟩
        rw [walk_eq_ok_iff.2 ⟨hwalks, rfl⟩] at hw
        cases hw
      | ok k =>
        obtain ⟨hwalks, rfl⟩ := walk_eq_ok_iff.1 hw
        simp only [Except.bind, bind]
        constructor
        · intro h
          cases hl : t.lookup (p.names.foldl advance (t.start p)) with
          | none => simp [hl] at h
          | some e' =>
            simp only [hl] at h
            obtain ⟨rfl, rfl⟩ := Prod.mk.inj (Except.ok.inj h)
            exact ⟨hwalks, rfl, hl, by simp⟩
        · rintro ⟨-, rfl, hl, -⟩
          rw [hl]

/-- When a text can be read. -/
theorem read_eq_ok_iff {s : String} :
    t.read p = .ok s ↔
      refusal? p = none ∧ p.endsInSlash = false ∧ t.Walks (t.start p) p.names ∧
        t.file? (t.target p) = some (.text s) := by
  rw [file?_eq_some_iff]
  constructor
  · intro h
    rw [read] at h
    cases hf : t.find p with
    | error e =>
      rw [hf] at h
      cases h
    | ok x =>
      obtain ⟨l, e⟩ := x
      rw [hf] at h
      match e with
      | .directory => cases h
      | .file (.binary b) => cases h
      | .file (.text s') =>
        obtain rfl : s' = s := Except.ok.inj h
        obtain ⟨hr, hw, rfl, hl, hd⟩ := find_eq_ok_iff.1 hf
        have hs : p.endsInSlash = false := by
          cases hs : p.endsInSlash with
          | false => rfl
          | true => cases hd hs
        exact ⟨hr, hs, hw, hl⟩
  · rintro ⟨hr, hs, hw, hl⟩
    have hf : t.find p = .ok (t.target p, .file (.text s)) :=
      find_eq_ok_iff.2 ⟨hr, hw, rfl, hl, by simp [hs]⟩
    rw [read, hf]
    rfl

theorem isDirectory_iff :
    t.isDirectory p = true ↔
      refusal? p = none ∧ t.Walks (t.start p) p.names ∧
        t.lookup (t.target p) = some .directory := by
  constructor
  · intro h
    rw [isDirectory] at h
    split at h
    · next l hf =>
      obtain ⟨hr, hw, rfl, hl, -⟩ := find_eq_ok_iff.1 hf
      exact ⟨hr, hw, hl⟩
    · cases h
  · rintro ⟨hr, hw, hl⟩
    rw [isDirectory, find_eq_ok_iff.2 ⟨hr, hw, rfl, hl, fun _ => rfl⟩]

theorem findDirectory_eq_ok_iff :
    t.findDirectory p = .ok l ↔ t.isDirectory p = true ∧ l = t.target p := by
  rw [isDirectory_iff, findDirectory]
  cases hr : refusal? p with
  | some f => simp
  | none =>
    simp only [true_and, walk_dot_eq_ok_iff]
    constructor
    · rintro ⟨hw, hd, rfl⟩
      exact ⟨⟨hw, hd⟩, rfl⟩
    · rintro ⟨⟨hw, hd⟩, rfl⟩
      exact ⟨hw, hd, rfl⟩

/-- A path that something can be given: what it leads to is there or can be made. -/
theorem place?_eq_some_iff :
    t.place? p = .ok (some l) ↔
      refusal? p = none ∧ l = t.target p ∧ ∃ n, p.names.getLast? = some n ∧ n ≠ "." ∧ n ≠ ".." ∧
        t.Walks (t.start p) p.names.dropLast ∧
        t.lookup (p.names.dropLast.foldl advance (t.start p)) = some .directory := by
  rw [place?]
  cases hr : refusal? p with
  | some f => simp
  | none =>
    simp only [true_and]
    cases hw : t.walk (t.start p) (p.names.dropLast ++ ["."]) with
    | error f =>
      simp only [Except.bind, bind]
      refine ⟨fun h => (nomatch h), ?_⟩
      rintro ⟨-, n, -, -, -, hwalks, hd⟩
      rw [walk_dot_eq_ok_iff.2 ⟨hwalks, hd, rfl⟩] at hw
      cases hw
    | ok k =>
      obtain ⟨hwalks, hk, rfl⟩ := walk_dot_eq_ok_iff.1 hw
      simp only [Except.bind, bind]
      cases hn : p.names.getLast? with
      | none => simp
      | some n =>
        rw [target, foldl_advance_getLast hn, advance]
        by_cases h₁ : n = "."
        · simp [h₁]
        · by_cases h₂ : n = ".."
          · simp [h₂]
          · simp [h₁, h₂, hwalks, hk, eq_comm]

/-- A directory that is made lies where the path leads, and nothing was there. -/
theorem makeDirectory_ok (h : t.makeDirectory p = .ok u) :
    t.lookup (t.target p) = none ∧ u = t.put (t.target p) .directory := by
  rw [makeDirectory] at h
  cases hp : t.place? p with
  | error e =>
    rw [hp] at h
    cases h
  | ok x =>
    cases x with
    | none =>
      rw [hp] at h
      cases h
    | some l =>
      obtain ⟨-, rfl, -⟩ := place?_eq_some_iff.1 hp
      simp only [hp, Except.bind, bind] at h
      split at h
      · cases h
      · split at h
        · cases h
        · next hl => exact ⟨by simpa using hl, (Except.ok.inj h).symm⟩

/-- When a file can be given another path, and what the tree is then. -/
theorem rename_eq_ok_iff {source dest : Path} :
    t.rename source dest = .ok u ↔
      source.hasNul = false ∧ dest.hasNul = false ∧
        ∃ a b content, t.place? source = .ok (some a) ∧ t.place? dest = .ok (some b) ∧
          t.lookup a = some (.file content) ∧ b.all nameFits = true ∧
          source.endsInSlash = false ∧ dest.endsInSlash = false ∧
          t.lookup b ≠ some .directory ∧ u = (t.erase a).put b (.file content) := by
  rw [rename]
  by_cases hnul : source.hasNul = true ∨ dest.hasNul = true
  · rw [if_pos hnul]
    refine ⟨fun h => (nomatch h), ?_⟩
    rintro ⟨h₁, h₂, -⟩
    simp [h₁, h₂] at hnul
  · rw [if_neg hnul]
    simp only [not_or, Bool.not_eq_true] at hnul
    simp only [hnul.1, hnul.2, true_and]
    cases ha : t.place? source with
    | error e => simp [Except.bind, bind]
    | ok a =>
      cases hb : t.place? dest with
      | error e => simp [Except.bind, bind]
      | ok b =>
        simp only [Except.bind, bind]
        match a, b with
        | none, _ => simp
        | some a, none => simp
        | some a, some b =>
          simp only [Except.ok.injEq, Option.some.injEq]
          constructor
          · intro h
            split at h
            · cases h
            · cases h
            · next content hl =>
              split at h
              · cases h
              · next hfits =>
                split at h
                · cases h
                · next hslash =>
                  split at h
                  · cases h
                  · next hdir =>
                    rw [not_or, Bool.not_eq_true, Bool.not_eq_true] at hslash
                    exact ⟨a, b, content, rfl, rfl, hl, by simpa using hfits, hslash.1, hslash.2,
                      hdir, (Except.ok.inj h).symm⟩
          · rintro ⟨_, _, content, rfl, rfl, hl, hfits, hs, hd, hdir, rfl⟩
            simp [hl, hfits, hs, hd, hdir]

/-! ## Fresh names -/

theorem le_foldl_max {α : Type} (f : α → Nat) (xs : List α) (n : Nat) :
    n ≤ xs.foldl (fun n x => max n (f x)) n ∧
      ∀ x ∈ xs, f x ≤ xs.foldl (fun n x => max n (f x)) n := by
  induction xs generalizing n with
  | nil => simp
  | cons x xs ih =>
    obtain ⟨h₁, h₂⟩ := ih (max n (f x))
    rw [List.foldl_cons]
    refine ⟨by omega, fun y hy => ?_⟩
    rcases List.mem_cons.1 hy with rfl | hy
    · omega
    · exact h₂ y hy

/-- The longest name in a list of locations, or a bound that is given. -/
theorem length_le_longest (es : List (Location × Entry)) (n : Nat) :
    n ≤ es.foldl (fun n e => e.1.foldl (fun n name => max n name.length) n) n ∧
      ∀ e ∈ es, ∀ name ∈ e.1,
        name.length ≤ es.foldl (fun n e => e.1.foldl (fun n name => max n name.length) n) n := by
  induction es generalizing n with
  | nil => simp
  | cons e es ih =>
    obtain ⟨h₁, h₂⟩ := le_foldl_max String.length e.1 n
    obtain ⟨h₃, h₄⟩ := ih (e.1.foldl (fun n name => max n name.length) n)
    rw [List.foldl_cons]
    refine ⟨Nat.le_trans h₁ h₃, fun d hd name hname => ?_⟩
    rcases List.mem_cons.1 hd with rfl | hd
    · exact Nat.le_trans (h₂ name hname) h₃
    · exact h₄ d hd name hname

/-- Nothing in a tree has the fresh name. -/
theorem lookup_freshName (t : FileTree) (l : Location) : t.lookup (l ++ [t.freshName]) = none := by
  rw [lookup, if_neg (by simp), Option.map_eq_none_iff, List.find?_eq_none]
  intro e he heq
  have hmem : t.freshName ∈ e.1 := by
    rw [of_decide_eq_true heq]
    simp
  have hle := (length_le_longest t.entries 0).2 e he _ hmem
  have hlen : t.freshName.length =
      4 + t.entries.foldl (fun n e => e.1.foldl (fun n name => max n name.length) n) 0 := by
    simp only [freshName, String.length_append, String.length_ofList, List.length_replicate]
    rfl
  omega

theorem toList_freshName (t : FileTree) :
    ∃ n, t.freshName.toList = ['.', 't', 'm', 'p'] ++ List.replicate n '0' := by
  simp only [freshName, String.toList_append, String.toList_ofList]
  exact ⟨_, rfl⟩

/-- A fresh name is a path of one name. -/
theorem names_freshName (t : FileTree) :
    (⟨t.freshName⟩ : Path).names = [t.freshName] ∧ (⟨t.freshName⟩ : Path).isAbsolute = false ∧
      (⟨t.freshName⟩ : Path).hasNul = false ∧ (⟨t.freshName⟩ : Path).endsInSlash = false ∧
      t.freshName ≠ "" ∧ t.freshName ≠ "." ∧ t.freshName ≠ ".." := by
  obtain ⟨n, hn⟩ := t.toList_freshName
  have hne (s : String) (hs : s.toList.length < 4) : t.freshName ≠ s := by
    rintro rfl
    rw [hn] at hs
    simp at hs
    omega
  refine ⟨?_, ?_, ?_, ?_, hne "" (by decide), hne "." (by decide), hne ".." (by decide)⟩
  · have hparts : Text.parts '/' t.freshName.toList = [t.freshName.toList] :=
      Text.parts_of_not_mem (by simp [hn])
    simp [Path.names_eq, Path.namesOf, hparts, hne "" (by decide)]
  · simp [Path.isAbsolute, hn]
  · simp [Path.hasNul, hn]
  · rw [Path.endsInSlash, hn, decide_eq_false_iff_not, List.getLast?_append]
    cases n <;> simp [List.getLast?_replicate]

theorem hasNul_of_isDirectory (h : t.isDirectory p = true) : p.hasNul = false := by
  have hr := (isDirectory_iff.1 h).1
  cases hp : p.hasNul with
  | false => rfl
  | true => simp [refusal?, hp] at hr

theorem hasNul_fresh (h : t.isDirectory p = true) (u : FileTree) :
    (p.join ⟨u.freshName⟩).hasNul = false := by
  obtain ⟨-, habs, hnul, -⟩ := u.names_freshName
  rw [Path.hasNul_join habs, hasNul_of_isDirectory h, hnul]
  rfl

theorem endsInSlash_fresh (t : FileTree) (p : Path) :
    (p.join ⟨t.freshName⟩).endsInSlash = false := by
  obtain ⟨-, habs, -, hslash, hne, -⟩ := t.names_freshName
  rw [Path.endsInSlash_join habs hne, hslash]

/-- The path of a new file in a directory leads to the fresh name there. -/
theorem place?_fresh (h : u.isDirectory p = true) (t : FileTree) :
    u.place? (p.join ⟨t.freshName⟩) = .ok (some (u.target p ++ [t.freshName])) := by
  obtain ⟨hnames, habs, -, -, -, hdot, hdots⟩ := t.names_freshName
  obtain ⟨-, hw, hl⟩ := isDirectory_iff.1 h
  have hjoin := Path.names_join (p := p) habs
  have hstart : u.start (p.join ⟨t.freshName⟩) = u.start p := by
    rw [start, start, Path.isAbsolute_join habs]
  have hlast : (p.join ⟨t.freshName⟩).names.getLast? = some t.freshName := by
    rw [hjoin, hnames]
    simp
  have hinit : (p.join ⟨t.freshName⟩).names.dropLast = p.names := by
    rw [hjoin, hnames]
    simp
  rw [place?_eq_some_iff, hstart, hinit]
  refine ⟨?_, ?_, _, hlast, hdot, hdots, hw, hl⟩
  · have htext : (p.join ⟨t.freshName⟩).text ≠ "" := by
      intro he
      rw [Path.names, he] at hlast
      cases hlast
    simp [refusal?, hasNul_fresh h, htext]
  · rw [target, target, foldl_advance_getLast hlast, hinit, hstart, advance, if_neg hdot,
      if_neg hdots]

/-! ## Trees with the same files -/

/-- Whether a tree has the files of another one, but for those at the spared locations, and all its
directories. Nothing but directories can be new elsewhere. -/
structure Keeps (spared : List Location) (t u : FileTree) : Prop where
  workingDirectory : u.workingDirectory = t.workingDirectory
  directories : ∀ l, t.lookup l = some .directory → u.lookup l = some .directory
  files : ∀ l, l ∉ spared → u.file? l = t.file? l

namespace Keeps

variable {spared : List Location}

theorem refl (spared : List Location) (t : FileTree) : Keeps spared t t :=
  ⟨rfl, fun _ h => h, fun _ _ => rfl⟩

theorem trans (h : Keeps spared t u) (h' : Keeps spared u v) : Keeps spared t v where
  workingDirectory := h'.workingDirectory.trans h.workingDirectory
  directories l hl := h'.directories l (h.directories l hl)
  files l hl := (h'.files l hl).trans (h.files l hl)

theorem spare {spared' : List Location} (h : Keeps spared t u) (hs : spared ⊆ spared') :
    Keeps spared' t u :=
  ⟨h.workingDirectory, h.directories, fun l hl => h.files l fun hmem => hl (hs hmem)⟩

/-- The spared file is kept as well if it is the same at the end. -/
theorem unspare (h : Keeps [k] t u) (hk : u.file? k = t.file? k) : Keeps [] t u where
  workingDirectory := h.workingDirectory
  directories := h.directories
  files l _ := by
    by_cases hl : l = k
    · rw [hl, hk]
    · exact h.files l (by simpa using hl)

theorem start (h : Keeps spared t u) (p : Path) : u.start p = t.start p := by
  rw [FileTree.start, FileTree.start, h.workingDirectory]

theorem target (h : Keeps spared t u) (p : Path) : u.target p = t.target p := by
  rw [FileTree.target, FileTree.target, h.start]

theorem walks (h : Keeps spared t u) (hw : t.Walks l ns) : u.Walks l ns := by
  induction ns generalizing l with
  | nil => trivial
  | cons n ns ih => exact ⟨h.directories l hw.1, hw.2.1, ih hw.2.2⟩

theorem isDirectory (h : Keeps spared t u) (hp : t.isDirectory p = true) :
    u.isDirectory p = true := by
  rw [isDirectory_iff] at hp ⊢
  rw [h.start, h.target]
  exact ⟨hp.1, h.walks hp.2.1, h.directories _ hp.2.2⟩

theorem place? (h : Keeps spared t u) (hp : t.place? p = .ok (some l)) :
    u.place? p = .ok (some l) := by
  rw [place?_eq_some_iff] at hp ⊢
  obtain ⟨hr, rfl, n, hn, hdot, hdots, hw, hd⟩ := hp
  rw [h.start, h.target]
  exact ⟨hr, rfl, n, hn, hdot, hdots, h.walks hw, h.directories _ hd⟩

/-- A text that is not spared can still be read. -/
theorem read {s : String} (h : Keeps spared t u) (hp : t.target p ∉ spared)
    (hs : t.read p = .ok s) : u.read p = .ok s := by
  rw [read_eq_ok_iff] at hs ⊢
  rw [h.start, h.target, h.files _ hp]
  exact ⟨hs.1, hs.2.1, h.walks hs.2.2.1, hs.2.2.2⟩

/-- Nor can a text be read that could not be read before, in a directory that was there. -/
theorem read_inDirectory {s : String} (h : Keeps spared t u) (hp : t.target p ∉ spared)
    (hw : t.Walks (t.start p) p.names) (hs : u.read p = .ok s) : t.read p = .ok s := by
  rw [read_eq_ok_iff] at hs ⊢
  rw [h.target, h.files _ hp] at hs
  exact ⟨hs.1, hs.2.1, hw, hs.2.2.2⟩

/-! ### What keeps a tree -/

theorem put_directory (h : t.lookup l = none) : Keeps [] t (t.put l .directory) where
  workingDirectory := rfl
  directories k hk := by
    have hne : l ≠ [] := ne_nil_of_lookup (t := t) (by simp [h])
    rw [lookup_put _ _ _ _ hne]
    split <;> simp [hk]
  files k _ := by
    have hne : l ≠ [] := ne_nil_of_lookup (t := t) (by simp [h])
    rw [file?_put hne]
    split
    · next hkl => rw [hkl, file?_of_none h]
    · rfl

theorem put_file (content : FileContent) (h : t.lookup l ≠ some .directory) :
    Keeps [l] t (t.put l (.file content)) where
  workingDirectory := rfl
  directories k hk := by
    have hkl : k ≠ l := fun he => h (he ▸ hk)
    rw [lookup_put _ _ _ _ (ne_nil_of_lookup h), if_neg hkl, hk]
  files k hk := by
    rw [file?_put (ne_nil_of_lookup h), if_neg (by simpa using hk)]

theorem erase (h : t.lookup l ≠ some .directory) : Keeps [l] t (t.erase l) where
  workingDirectory := rfl
  directories k hk := by
    have hkl : k ≠ l := fun he => h (he ▸ hk)
    rw [lookup_erase _ _ _ (ne_nil_of_lookup h), if_neg hkl, hk]
  files k hk := by
    rw [file?_erase (ne_nil_of_lookup h), if_neg (by simpa using hk)]

/-- A file that is new and then gone leaves no trace. -/
theorem put_erase {content : FileContent} (h : t.lookup l = none) :
    Keeps [] t ((t.put l (.file content)).erase l) := by
  have hput : t.lookup l ≠ some .directory := by simp [h]
  have hnew : (t.put l (.file content)).lookup l ≠ some .directory := by
    rw [lookup_put _ _ _ _ (ne_nil_of_lookup hput)]
    simp
  refine ((put_file _ hput).trans (erase hnew)).unspare ?_
  rw [file?_erase (ne_nil_of_lookup hput), if_pos rfl, file?_of_none h]

end Keeps

/-! ## Paths that a file can be given -/

/-- Whether a file can be written anew at a path, which has a directory already and does not lead
to one. -/
structure Admits (t : FileTree) (p : Path) : Prop where
  directory : t.isDirectory p.directory = true
  place : t.place? p = .ok (some (t.target p))
  fits : (t.target p).all nameFits = true
  hasNul : p.hasNul = false
  endsInSlash : p.endsInSlash = false
  free : t.lookup (t.target p) ≠ some .directory

/-- What is written at a path can be read there. -/
theorem Admits.read {s : String} (h : t.Admits p) (hs : t.file? (t.target p) = some (.text s)) :
    t.read p = .ok s := by
  obtain ⟨hr, -, n, hn, hdot, hdots, hw, hd⟩ := place?_eq_some_iff.1 h.place
  have hfits : nameFits n = true := by
    have hall := h.fits
    rw [target, foldl_advance_getLast hn, advance, if_neg hdot, if_neg hdots] at hall
    exact List.all_eq_true.1 hall n (by simp)
  have hnames : p.names = p.names.dropLast ++ [n] := by
    obtain ⟨init, hinit⟩ := List.getLast?_eq_some_iff.1 hn
    rw [hinit]
    simp
  refine read_eq_ok_iff.2 ⟨hr, h.endsInSlash, ?_, hs⟩
  rw [hnames, walks_append]
  exact ⟨hw, hd, hfits, trivial⟩

end FileTree

end Ambient
