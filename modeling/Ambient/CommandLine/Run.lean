import Ambient.CommandLine.Arguments
import Ambient.Log.Filter
import Ambient.Project.Basic
import Ambient.Report

/-!
# The command line

`runCommand` does what the arguments of the program ask for and tells what it prints and which exit
code it ends with. What it reports on its way goes to the error stream as far as the filter shows
it, in front of the error that ends it.
-/

namespace Ambient

/-- What a run of the program prints, and its exit code. -/
structure Outcome where
  code : UInt8
  output : String := ""
  errors : String := ""
  deriving DecidableEq, Repr

/-- An error with what was being done when it arose. -/
structure Failure where
  doing : Option String
  error : ProjectError

namespace Failure

/-- What was being done, the error and what it comes from, on one line. -/
def line (f : Failure) : String :=
  String.intercalate ": " (f.doing.toList ++ f.error.message :: f.error.cause?.toList)

/-- What is printed for a failure. A parse error is shown in its source first. -/
def text (f : Failure) : String :=
  let shown :=
    match f.error with
    | .notDeclarations path source e => report path.text source e
    | _ => ""
  shown ++ "error: " ++ f.line ++ "\n"

end Failure

/-- What is printed on request. -/
def helpText : String :=
  "Regenerate the wrapped TypeScript compiler declaration module

Usage: dts-rewrap [OPTIONS]

Options:
      --root <ROOT>      Project root [default: .]
  -c, --config <CONFIG>  Configuration file (defaults to <root>/dts-rewrap.toml)
  -i, --input <INPUT>    Compiler declaration file, overriding discovery
  -o, --output <OUTPUT>  Output module path, relative to the root
      --debug            Enable debug logging
  -h, --help             Print help
  -V, --version          Print version
"

/-- The name of the program and its version. -/
def versionText : String :=
  "dts-rewrap 0.1.0\n"

/-- What is printed for arguments that make no sense. -/
def usageText : String :=
  "error: the arguments make no sense

Usage: dts-rewrap [OPTIONS]

For more information, try '--help'.
"

namespace Options

/-- A configuration with what is chosen instead of it. -/
def override (o : Options) (c : Config) : Config :=
  { c with input := o.input? <|> c.input, output := o.output?.getD c.output }

/-- Which events are shown: what `--debug` says, else what the setting says if it can be read. -/
def filter (o : Options) (setting : Option String) : LogFilter :=
  if o.debug then .upTo .debug else (setting >>= LogFilter.parse?).getD (.upTo .info)

variable {m : Type → Type} [Monad m] [Files m]

/-- The configuration that options choose. -/
def loadConfig (o : Options) : LoggedT Failure m Config := do
  match o.config? with
  | some p => (Config.load p).mapError (⟨some ("loading " ++ p.text), ·⟩)
  | none => (Config.loadFrom o.root).mapError (⟨none, ·⟩)

/-- Generates the module of the project that options choose. Gives the path written. -/
def regenerate (o : Options) : LoggedT Failure m Path := do
  let config ← o.loadConfig
  let project ← (Project.withConfig o.root (o.override config)).mapError (⟨none, ·⟩)
  let written ← project.regenerate.mapError
    (⟨some ("regenerating from " ++ project.compiler.text), ·⟩)
  .note { level := .info, topic := .commandLine, message := "done: " ++ written.text }
  pure written

end Options

/-- What is printed for a run. -/
def Outcome.ofLogged (filter : LogFilter) (r : Logged Failure Path) : Outcome :=
  let events := String.join ((r.events.filter filter.shows).map (·.line ++ "\n"))
  match r.outcome with
  | .ok _ => { code := 0, errors := events }
  | .error f => { code := 1, errors := events ++ f.text }

/-- Runs the program with arguments and a setting for its log. -/
def runCommand {m : Type → Type} [Monad m] [Files m] (args : List String)
    (setting : Option String) : m Outcome :=
  match Request.ofArguments? args with
  | none => pure { code := 2, errors := usageText }
  | some .help => pure { code := 0, output := helpText }
  | some .version => pure { code := 0, output := versionText }
  | some (.regenerate o) => Outcome.ofLogged (o.filter setting) <$> o.regenerate

end Ambient
