import Ambient.CommandLine.Run

/-!
# The program

Runs the command line on the files of the system.
-/

namespace Ambient

/-- The fault that an error of the system stands for. -/
def FileFault.ofError (e : IO.Error) : FileFault :=
  match e with
  | .noFileOrDirectory .. => .notFound
  | .alreadyExists .. => .alreadyThere
  | .resourceBusy .. => .busy
  | .inappropriateType _ code details | .illegalOperation code details =>
    if code = 20 ∨ 0 - code = 20 then .notADirectory
    else if code = 21 ∨ 0 - code = 21 then .isADirectory
    else .other details
  | .invalidArgument _ code details =>
    if code = 36 ∨ 0 - code = 36 then .tooLong
    else if code = 22 ∨ 0 - code = 22 then .invalidArgument
    else .other details
  | .userError _ => .notUtf8
  | e => .other (toString e)

/-- An action on files with its error as a value. -/
def attempt {α : Type} (action : IO α) : IO (Except FileFault α) := do
  match ← action.toBaseIO with
  | .ok a => pure (.ok a)
  | .error e => pure (.error (.ofError e))

/-- Reads the first byte of a file, which fails for a directory. -/
def touch (p : Path) : IO (Except FileFault Unit) :=
  attempt do
    let h ← IO.FS.Handle.mk p.text .read
    let _ ← h.read 1

/-- Makes an empty file whose name was free, with some tries to find one. -/
def createFresh (dir : Path) : Nat → IO (Except FileFault Path)
  | 0 => pure (.error .alreadyThere)
  | n + 1 => do
    let p := dir.join ⟨".tmp" ++ toString (← IO.rand 100000 999999)⟩
    match ← attempt (IO.FS.Handle.mk p.text .writeNew) with
    | .ok _ => pure (.ok p)
    | .error .alreadyThere => createFresh dir n
    | .error e => pure (.error e)

/-- Writes a text to a file that is there. -/
def writeText (p : Path) (text : String) : IO (Except FileFault Unit) :=
  attempt do
    let h ← IO.FS.Handle.mk p.text .write
    h.putStr text
    h.flush

instance : Files IO where
  isFile p := do
    match ← touch p with
    | .ok () => pure true
    | .error _ => pure false
  isDirectory p := do
    match ← touch p with
    | .error .isADirectory => pure true
    | _ => pure false
  read p := attempt (IO.FS.readFile p.text)
  makeDirectory p := attempt (IO.FS.createDir p.text)
  createNew dir := createFresh dir 100
  write := writeText
  rename source dest := attempt (IO.FS.rename source.text dest.text)
  remove p := do
    let _ ← attempt (IO.FS.removeFile p.text)

end Ambient

/-- Runs the program with its arguments and ends with its exit code. -/
def main (args : List String) : IO UInt32 := do
  let outcome ← Ambient.runCommand args (← IO.getEnv "DTS_REWRAP_LOG")
  IO.print outcome.output
  IO.eprint outcome.errors
  pure outcome.code.toUInt32
