import Ambient.Files.Basic

/-!
# File trees

A `FileTree` says what is at each location and where paths start that do not start at the root. A
path leads to a location name by name, where every name but the last has to be a directory's, a
dot stays where it is, and two dots go back.

The operations of `Files` act on trees. What a tree holds after a change is told by `lookup_put`
and `lookup_erase`.
-/

namespace Ambient

/-- The names that lead from the root of a tree to a place in it. -/
abbrev Location := List String

/-- What a file holds: a text, or bytes that are none. -/
inductive FileContent where
  | text (s : String)
  | binary (bytes : List UInt8)
  deriving DecidableEq, Repr

/-- What can be at a location. -/
inductive Entry where
  | directory
  | file (content : FileContent)
  deriving DecidableEq, Repr

/-- Files and directories. The root needs no entry. -/
structure FileTree where
  entries : List (Location × Entry)
  /-- Where relative paths start. -/
  workingDirectory : Location
  deriving DecidableEq, Repr

namespace FileTree

/-! ## Entries -/

/-- What is at a location. The root is a directory. -/
def lookup (t : FileTree) (l : Location) : Option Entry :=
  if l = [] then some .directory else (t.entries.find? (·.1 = l)).map (·.2)

/-- The tree without what is at a location. -/
def erase (t : FileTree) (l : Location) : FileTree :=
  { t with entries := t.entries.filter (·.1 ≠ l) }

/-- The tree with an entry at a location. -/
def put (t : FileTree) (l : Location) (e : Entry) : FileTree :=
  { t with entries := (l, e) :: (t.erase l).entries }

theorem lookup_erase (t : FileTree) (l k : Location) (h : l ≠ []) :
    (t.erase l).lookup k = if k = l then none else t.lookup k := by
  unfold lookup erase
  by_cases hk : k = l
  · subst hk
    simp [h, List.find?_eq_none]
  · have : ∀ es : List (Location × Entry),
        (es.filter (·.1 ≠ l)).find? (·.1 = k) = es.find? (·.1 = k) := by
      intro es
      induction es with
      | nil => rfl
      | cons e es ih =>
        by_cases he : e.1 = l
        · have : e.1 ≠ k := fun h => hk (h.symm.trans he)
          simpa [he, this, List.find?_cons, Ne.symm hk] using ih
        · by_cases hek : e.1 = k
          · simp [hek, hk]
          · simpa [he, hek, List.find?_cons] using ih
    simp only [this, if_neg hk]

theorem lookup_put (t : FileTree) (l k : Location) (e : Entry) (h : l ≠ []) :
    (t.put l e).lookup k = if k = l then some e else t.lookup k := by
  have := t.lookup_erase l k h
  unfold lookup at this ⊢
  by_cases hk : k = l
  · subst hk
    simp [put, h]
  · simpa [put, List.find?_cons, Ne.symm hk, hk] using this

theorem put_put (t : FileTree) (l : Location) (e e' : Entry) :
    (t.put l e).put l e' = t.put l e' := by
  simp [put, erase]

/-! ## Paths -/

/-- Whether a name is short enough to be looked up. -/
def nameFits (name : String) : Bool :=
  name.utf8ByteSize ≤ 255

/-- Why no path can be written like this, if none can. -/
def refusal? (p : Path) : Option FileFault :=
  if p.hasNul then some .nulInPath
  else if p.text = "" then some .notFound
  else none

/-- Where names lead to from a location. What is there is not looked at. -/
def walk (t : FileTree) : Location → List String → Except FileFault Location
  | l, [] => .ok l
  | l, n :: ns =>
    match t.lookup l with
    | none => .error .notFound
    | some (.file _) => .error .notADirectory
    | some .directory =>
      if nameFits n then
        walk t (if n = "." then l else if n = ".." then l.dropLast else l ++ [n]) ns
      else .error .tooLong

/-- Where a path starts. -/
def start (t : FileTree) (p : Path) : Location :=
  if p.isAbsolute then [] else t.workingDirectory

/-- The location of a path and what is there. A path with a slash at its end leads to a directory
only. -/
def find (t : FileTree) (p : Path) : Except FileFault (Location × Entry) := do
  match refusal? p with
  | some e => .error e
  | none =>
    let l ← t.walk (t.start p) (if p.endsInSlash then p.names ++ ["."] else p.names)
    match t.lookup l with
    | none => .error .notFound
    | some e => .ok (l, e)

/-- The location of a directory. -/
def findDirectory (t : FileTree) (p : Path) : Except FileFault Location :=
  match refusal? p with
  | some e => .error e
  | none => t.walk (t.start p) (p.names ++ ["."])

/-- The location for something with a path, where the directory it lies in has to be there. There
is none for a path whose last name is made of dots, or that has no name. -/
def place? (t : FileTree) (p : Path) : Except FileFault (Option Location) := do
  match refusal? p with
  | some e => .error e
  | none =>
    let l ← t.walk (t.start p) (p.names.dropLast ++ ["."])
    match p.names.getLast? with
    | none => .ok none
    | some n => .ok (if n = "." ∨ n = ".." then none else some (l ++ [n]))

/-! ## Operations -/

/-- Whether a path leads to a file. -/
def isFile (t : FileTree) (p : Path) : Bool :=
  match t.find p with
  | .ok (_, .file _) => true
  | _ => false

/-- Whether a path leads to a directory. -/
def isDirectory (t : FileTree) (p : Path) : Bool :=
  match t.find p with
  | .ok (_, .directory) => true
  | _ => false

/-- The text of a file. -/
def read (t : FileTree) (p : Path) : Except FileFault String := do
  match ← t.find p with
  | (_, .directory) => .error .isADirectory
  | (_, .file (.text s)) => .ok s
  | (_, .file (.binary _)) => .error .notUtf8

/-- The tree with a new directory. -/
def makeDirectory (t : FileTree) (p : Path) : Except FileFault FileTree := do
  match ← t.place? p with
  | none => .error .alreadyThere
  | some l =>
    if !(l.all nameFits) then .error .tooLong
    else if (t.lookup l).isSome then .error .alreadyThere
    else .ok (t.put l .directory)

/-- A name that is longer than all names in the tree. -/
def freshName (t : FileTree) : String :=
  let longest := t.entries.foldl (fun n e => e.1.foldl (fun n name => max n name.length) n) 0
  ".tmp" ++ String.ofList (List.replicate longest '0')

/-- The tree with a new file in a directory, and the path of the file. -/
def createNew (t : FileTree) (dir : Path) : Except FileFault (Path × FileTree) := do
  let l ← t.findDirectory dir
  .ok (dir.join ⟨t.freshName⟩, t.put (l ++ [t.freshName]) (.file (.text "")))

/-- The tree where a file has another content. -/
def overwrite (t : FileTree) (p : Path) (content : FileContent) : Except FileFault FileTree := do
  match ← t.place? p with
  | none => .error .isADirectory
  | some l =>
    match t.lookup l with
    | none => .error .notFound
    | some .directory => .error .isADirectory
    | some (.file _) => .ok (t.put l (.file content))

/-- The tree where a file has another path. -/
def rename (t : FileTree) (source dest : Path) : Except FileFault FileTree := do
  if source.hasNul ∨ dest.hasNul then .error .invalidArgument
  else
    match ← t.place? source, ← t.place? dest with
    | some a, some b =>
      match t.lookup a with
      | none => .error .notFound
      | some .directory => .error .isADirectory
      | some (.file content) =>
        if !(b.all nameFits) then .error .tooLong
        else if source.endsInSlash ∨ dest.endsInSlash then .error .notADirectory
        else if t.lookup b = some .directory then .error .isADirectory
        else .ok ((t.erase a).put b (.file content))
    | _, _ => .error .busy

/-- The tree without the file at a path. -/
def remove (t : FileTree) (p : Path) : FileTree :=
  match t.place? p with
  | .ok (some l) => if t.lookup l = some .directory then t else t.erase l
  | _ => t

/-- A change of the state that can be refused. -/
def change (f : FileTree → Except FileFault FileTree) : StateM FileTree (Except FileFault Unit) :=
  fun t =>
    match f t with
    | .ok u => (.ok (), u)
    | .error e => (.error e, t)

instance : Files (StateM FileTree) where
  isFile p := fun t => (t.isFile p, t)
  isDirectory p := fun t => (t.isDirectory p, t)
  read p := fun t => (t.read p, t)
  makeDirectory p := change (·.makeDirectory p)
  createNew dir := fun t =>
    match t.createNew dir with
    | .ok (p, u) => (.ok p, u)
    | .error e => (.error e, t)
  write p text := change (·.overwrite p (.text text))
  rename source dest := change (·.rename source dest)
  remove p := fun t => ((), t.remove p)

/-! ## Building trees -/

/-- The tree with an entry at a location and directories above it. -/
def install (t : FileTree) (l : Location) (e : Entry) : FileTree :=
  let above := (List.range l.length).map (l.take ·)
  let t := above.foldl (fun t d =>
    if d = [] ∨ (t.lookup d).isSome then t else t.put d .directory) t
  t.put l e

/-- A tree with nothing but a working directory and those above it. -/
def empty (workingDirectory : Location) : FileTree :=
  install ⟨[], workingDirectory⟩ workingDirectory .directory

/-- The files below a location, with the names that lead to them from there. -/
def filesBelow (t : FileTree) (l : Location) : List (Location × FileContent) :=
  t.entries.filterMap fun e =>
    match e.2 with
    | .file c => if l <+: e.1 then some (e.1.drop l.length, c) else none
    | .directory => none

end FileTree

end Ambient
