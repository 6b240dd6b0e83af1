import Ambient.Files.Path

/-!
# Files

`Files m` is what a run needs from the files around it: to look at them, to make directories and
files, to write to them and to give them a new path. `Files.replace` writes a file as a whole: the
text goes to a new file first, which then takes the place of the old one, so that nobody sees half
of it.
-/

namespace Ambient

/-- Why the system refuses an operation on files. -/
inductive FileFault where
  | notFound
  | alreadyThere
  | notADirectory
  | isADirectory
  | busy
  /-- A name is longer than the system takes. -/
  | tooLong
  | nulInPath
  | invalidArgument
  | notUtf8
  | noDirectories
  | other (text : String)
  deriving DecidableEq, Repr

/-- The fault in the words of the system. -/
def FileFault.message : FileFault → String
  | notFound => "No such file or directory (os error 2)"
  | alreadyThere => "File exists (os error 17)"
  | notADirectory => "Not a directory (os error 20)"
  | isADirectory => "Is a directory (os error 21)"
  | busy => "Device or resource busy (os error 16)"
  | tooLong => "File name too long (os error 36)"
  | nulInPath => "file name contained an unexpected NUL byte"
  | invalidArgument => "Invalid argument (os error 22)"
  | notUtf8 => "stream did not contain valid UTF-8"
  | noDirectories => "failed to create whole tree"
  | other text => text

/-- An operation on a path that was refused. -/
structure FileError where
  path : Path
  fault : FileFault
  deriving DecidableEq, Repr

/-- The error in words: the path as it was written, and the fault. -/
def FileError.message (e : FileError) : String :=
  "I/O error on " ++ e.path.text ++ ": " ++ e.fault.message

/-- Operations on files. -/
class Files (m : Type → Type) where
  isFile : Path → m Bool
  isDirectory : Path → m Bool
  /-- The text of a file. -/
  read : Path → m (Except FileFault String)
  /-- Makes one directory. -/
  makeDirectory : Path → m (Except FileFault Unit)
  /-- Makes an empty file in a directory, and gives its path, which led nowhere before. -/
  createNew : Path → m (Except FileFault Path)
  /-- Writes a text to a file that has been made. It is stored when this is done. -/
  write : Path → String → m (Except FileFault Unit)
  /-- Gives a file another path. A file that had this path is gone. -/
  rename : Path → Path → m (Except FileFault Unit)
  remove : Path → m Unit

namespace Files

variable {m : Type → Type} [Monad m] [Files m]

/-- The first of some paths that is a file's. -/
def firstFile : List Path → m (Option Path)
  | [] => pure none
  | p :: ps => do
    if ← isFile p then pure (some p) else firstFile ps

/-- Makes a directory. That it is there already is no fault. -/
def ensureDirectory (p : Path) : m (Except FileFault Unit) := do
  match ← makeDirectory p with
  | .ok () => pure (.ok ())
  | .error e => if ← isDirectory p then pure (.ok ()) else pure (.error e)

/-- Makes the first of some directories, each of which lies in the next one, after making those
that it lies in where they are missing. -/
def makeNested : List Path → m (Except FileFault Unit)
  | [] => pure (.error .noDirectories)
  | p :: ps => do
    if p.text = "" then pure (.ok ())
    else
      match ← ensureDirectory p with
      | .error .notFound =>
        match ← makeNested ps with
        | .error e => pure (.error e)
        | .ok () => ensureDirectory p
      | r => pure r

/-- Makes a directory and all directories that it lies in. -/
def makeDirectories (p : Path) : m (Except FileFault Unit) :=
  makeNested p.ancestors

/-- Writes a file, which holds the text as a whole or is left as it was. Directories are made as
needed. -/
def replace (p : Path) (text : String) : m (Except FileError Unit) := do
  let dir := p.directory
  match ← makeDirectories dir with
  | .error e => pure (.error ⟨dir, e⟩)
  | .ok () =>
    match ← createNew dir with
    | .error e => pure (.error ⟨dir, e⟩)
    | .ok new =>
      match ← write new text with
      | .error e => do
        remove new
        pure (.error ⟨new, e⟩)
      | .ok () =>
        match ← rename new p with
        | .ok () => pure (.ok ())
        | .error e => do
          remove new
          pure (.error ⟨p, e⟩)

end Files

end Ambient
