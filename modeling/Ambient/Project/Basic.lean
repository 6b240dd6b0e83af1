import Ambient.Assembly
import Ambient.Log
import Ambient.Manifest
import Ambient.Parser.Decl
import Ambient.Project.Error
import Ambient.Text.LineEnding

/-!
# Projects

A project is a directory with a configuration, which may be the default one, and the compiler
declarations that its module is generated from. `Project.regenerate` reads the declarations,
assembles the module and writes it. Nothing is written unless the module is complete, and then the
file is replaced as a whole.
-/

namespace Ambient

/-- The name of the configuration file in the root of a project. -/
def configName : Path :=
  ⟨"dts-rewrap.toml"⟩

/-- Where the compiler declarations lie in a directory that the compiler is installed in. -/
def compilerDeclarations : Path :=
  ⟨"node_modules/typescript/lib/typescript.d.ts"⟩

/-- A directory with a configuration and compiler declarations. -/
structure Project where
  root : Path
  config : Config
  compiler : Path
  deriving DecidableEq, Repr

/-- A run on the files of a project. -/
abbrev ProjectRun (m : Type → Type) (α : Type) := LoggedT ProjectError m α

section

variable {m : Type → Type} [Monad m] [Files m]

/-! ## Looking at files -/

/-- The text of a file. -/
def readText (p : Path) : ProjectRun m String :=
  .ofEffects ((Except.mapError fun fault => .files ⟨p, fault⟩) <$> Files.read p)

/-- The compiler declarations in a directory or else in the nearest one that it lies in. -/
def findCompiler (start : Path) : m (Option Path) :=
  Files.firstFile (start.ancestors.map (·.join compilerDeclarations))

/-- The version of the package whose declarations are given. A manifest that cannot be read counts
as one without a version; if it can be read but not used, that is reported. -/
def compilerVersion (declarations : Path) : ProjectRun m (Option String) := do
  match declarations.parent? >>= Path.parent? with
  | none => pure none
  | some package =>
    let manifest := package.join ⟨"package.json"⟩
    match ← .lift (Files.read manifest) with
    | .error _ => pure none
    | .ok text =>
      match manifestVersion? text with
      | some version => pure version
      | none =>
        .note
          { level := .warn, topic := .project, message := "ignoring unreadable package.json"
            fields := [("path", manifest.text)] }
        pure none

/-- The configuration in a file. -/
def Config.load (p : Path) : ProjectRun m Config := do
  let text ← readText p
  .ofLogged (.ofExcept ((Config.parse text).mapError (.badConfig p ·)))

/-- The configuration in a directory, the default one if it has none. -/
def Config.loadFrom (root : Path) : ProjectRun m Config := do
  let p := root.join configName
  if ← .lift (Files.isFile p) then Config.load p else pure {}

/-- Writes a text with its line endings normalized, and gives what was written. -/
def finish (p : Path) (text : String) : ProjectRun m String := do
  let normalized := Text.LineEnding.normalize text
  .ofEffects (Except.mapError .files <$> Files.replace p normalized)
  .note
    { level := .info, topic := .finishing, message := "wrote output module"
      fields := [("path", p.text), ("bytes", toString normalized.utf8ByteSize)] }
  pure normalized

/-! ## Projects -/

namespace Project

/-- The project in a directory with a configuration. Declarations that the configuration names need
not be there yet. -/
def withConfig (root : Path) (config : Config) : ProjectRun m Project := do
  let compiler ←
    match config.input with
    | some input => pure (root.join input)
    | none =>
      match ← .lift (findCompiler root) with
      | some p => pure p
      | none => .ofLogged (.ofExcept (.error (.noCompiler root)))
  .note
    { level := .debug, topic := .project, message := "resolved compiler declarations"
      fields := [("compiler", compiler.text)] }
  pure { root, config, compiler }

/-- The project in a directory with the configuration that is found there. -/
def load (root : Path) : ProjectRun m Project := do
  let config ← Config.loadFrom root
  withConfig root config

/-- Where the generated module goes. -/
def output (p : Project) : Path :=
  p.root.join p.config.output

/-- The module of a project for its compiler declarations. -/
def generate (p : Project) (version : Option String) (file : File) :
    Logged ProjectError OutputModule := do
  let policy ← .ofExcept (p.config.policy.mapError .overlap)
  (assemble p.config policy version file p.output).mapError .assembly

/-- Generates the module of a project anew and writes it. Gives the path written. -/
def regenerate (p : Project) : ProjectRun m Path := do
  let source ← readText p.compiler
  let file ← .ofLogged
    (.ofExcept ((parse source).mapError (.notDeclarations p.compiler source ·)))
  let version ← compilerVersion p.compiler
  .note
    { level := .info, topic := .project, message := "regenerating"
      fields :=
        [("compiler", p.compiler.text),
         ("version", Text.debugQuote (version.getD "unknown"))] }
  let generated ← .ofLogged (p.generate version file)
  let _ ← finish p.output generated.print
  pure p.output

end Project

end

end Ambient
