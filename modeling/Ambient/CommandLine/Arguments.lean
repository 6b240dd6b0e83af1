import Ambient.Files.Path

/-!
# Arguments

`Request.ofArguments?` reads the arguments of the program from left to right. A request for help or
for the version counts as soon as it is met. An option is given once at most, and its value stands
behind an equals sign, directly behind a short name, or in the next argument.
-/

namespace Ambient

/-- Options that have a value. -/
inductive OptionName where
  | root | config | input | output
  deriving DecidableEq, Repr

/-- What the arguments choose. -/
structure Options where
  root? : Option Path := none
  config? : Option Path := none
  input? : Option Path := none
  output? : Option Path := none
  debug : Bool := false
  deriving DecidableEq, Repr

namespace Options

/-- The root of the project: the working directory unless another one is given. -/
def root (o : Options) : Path :=
  o.root?.getD ⟨"."⟩

/-- The value given for a name. -/
def get? (o : Options) : OptionName → Option Path
  | .root => o.root?
  | .config => o.config?
  | .input => o.input?
  | .output => o.output?

/-- The options with a value for one that has none yet. No value is empty. -/
def set? (o : Options) (name : OptionName) (value : List Char) : Option Options :=
  if value = [] ∨ (o.get? name).isSome then none
  else
    let path : Path := ⟨String.ofList value⟩
    match name with
    | .root => some { o with root? := some path }
    | .config => some { o with config? := some path }
    | .input => some { o with input? := some path }
    | .output => some { o with output? := some path }

end Options

/-- What an argument is, as far as it can be told without those in front of it. -/
inductive Argument where
  | value (text : List Char)
  | option (name : OptionName) (value? : Option (List Char))
  | debug | help | version
  /-- Two hyphens: all that follows are values. -/
  | endOfOptions
  deriving DecidableEq, Repr

namespace Argument

/-- An argument that starts with two hyphens, from the name on. -/
def ofLong? (text : List Char) : Option Argument :=
  let name := text.takeWhile (· ≠ '=')
  let value? := match text.drop name.length with
    | [] => none
    | _ :: v => some v
  match String.ofList name, value? with
  | "root", v => some (.option .root v)
  | "config", v => some (.option .config v)
  | "input", v => some (.option .input v)
  | "output", v => some (.option .output v)
  | "debug", none => some .debug
  | "help", none => some .help
  | "version", none => some .version
  | _, _ => none

/-- The value directly behind the short name of an option. -/
def attached? : List Char → Option (List Char)
  | [] => none
  | '=' :: v => some v
  | v => some v

/-- An argument that starts with one hyphen, from the name on. -/
def ofShort? (name : Char) (rest : List Char) : Option Argument :=
  match name with
  | 'c' => some (.option .config (attached? rest))
  | 'i' => some (.option .input (attached? rest))
  | 'o' => some (.option .output (attached? rest))
  | 'h' => some .help
  | 'V' => some .version
  | _ => none

/-- An argument of the program. A hyphen alone is a value. -/
def ofChars? : List Char → Option Argument
  | ['-', '-'] => some .endOfOptions
  | '-' :: '-' :: rest => ofLong? rest
  | '-' :: name :: rest => ofShort? name rest
  | text => some (.value text)

end Argument

/-- What the program is asked for. -/
inductive Request where
  | help
  | version
  | regenerate (o : Options)
  deriving DecidableEq, Repr

namespace Request

/-- Reads arguments behind others: what those chose is given, and the option among them whose value
has to follow. -/
def ofArgumentsFrom? (o : Options) : (pending : Option OptionName) → List String → Option Request
  | none, [] => some (.regenerate o)
  | some _, [] => none
  | pending, a :: as =>
    match pending, Argument.ofChars? a.toList with
    | some name, some (.value text) => do
      let o ← o.set? name text
      ofArgumentsFrom? o none as
    | some _, _ => none
    | none, some .help => some .help
    | none, some .version => some .version
    | none, some .debug =>
      if o.debug then none else ofArgumentsFrom? { o with debug := true } none as
    | none, some (.option name none) => ofArgumentsFrom? o (some name) as
    | none, some (.option name (some text)) => do
      let o ← o.set? name text
      ofArgumentsFrom? o none as
    | none, some .endOfOptions => if as = [] then some (.regenerate o) else none
    | none, some (.value _) => none
    | none, none => none

/-- What the program is asked for, if its arguments make sense. -/
def ofArguments? (args : List String) : Option Request :=
  ofArgumentsFrom? {} none args

end Request

end Ambient
