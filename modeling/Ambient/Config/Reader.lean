import Ambient.Config.Basic
import Ambient.Text.Quoted
import Ambient.Text.Shortest
import Ambient.Toml.Reader

/-!
# Reading a configuration

`Config.parse` reads a configuration from a TOML document. Every key is optional; a key that means
nothing, a value of another type and a qualify rule that lacks a part are errors, of which the
first one in the order of the document counts. A group of keys can also be given as an array of
its values in the order of its keys.
-/

namespace Ambient

open Toml (Value readToml)

/-- Why a text is no configuration. -/
inductive ConfigFault where
  | notToml
  | unknownField (field : String) (known : List String)
  | invalidType (found : Value) (expected : String)
  | missingField (field : String)
  | tooShort (length : Nat) (group : String) (fields : Nat)

/-- The words that tell what a value is. -/
def Toml.Value.describe : Value → String
  | .string s => "string " ++ Text.debugQuote s
  | .integer n => "integer `" ++ toString n ++ "`"
  | .float x => "floating point `" ++ Text.floatText x ++ "`"
  | .boolean b => "boolean `" ++ (if b then "true" else "false") ++ "`"
  | .array _ => "sequence"
  | .table _ | .datetime => "map"

/-- The names that are possible, as the end of a sentence. -/
def oneOf : List String → String
  | [] => "there are no fields"
  | [a] => "expected `" ++ a ++ "`"
  | [a, b] => "expected `" ++ a ++ "` or `" ++ b ++ "`"
  | names => "expected one of " ++ String.intercalate ", " (names.map fun n => "`" ++ n ++ "`")

namespace ConfigFault

/-- The fault in words. -/
def message : ConfigFault → String
  | notToml => "the text is not a TOML document"
  | unknownField field known => "unknown field `" ++ field ++ "`, " ++ oneOf known
  | invalidType found expected => "invalid type: " ++ found.describe ++ ", expected " ++ expected
  | missingField field => "missing field `" ++ field ++ "`"
  | tooShort length group fields =>
    "invalid length " ++ toString length ++ ", expected struct " ++ group ++ " with " ++
      toString fields ++ " elements"

end ConfigFault

namespace Config

/-! ## Values -/

/-- A string; nothing else is turned into one. -/
def readString : Value → Except ConfigFault String
  | .string s => .ok s
  | v => .error (.invalidType v "a string")

/-- A path, which is written as a string. -/
def readPath : Value → Except ConfigFault Path
  | .string s => .ok ⟨s⟩
  | v => .error (.invalidType v "path string")

/-- An array, each of whose values is read. The first fault counts. -/
def readList {α : Type} (read : Value → Except ConfigFault α) :
    Value → Except ConfigFault (List α)
  | .array vs => vs.mapM read
  | v => .error (.invalidType v "a sequence")

/-- A group of keys with the given name in messages. `set` takes in the value of one key. -/
def readGroup {σ : Type} (name : String) (fields : List String)
    (set : σ → String → Value → Except ConfigFault σ) (init : σ) : Value → Except ConfigFault σ
  | .table fs =>
    fs.foldlM (fun s f =>
      if f.1 ∈ fields then set s f.1 f.2 else .error (.unknownField f.1 fields)) init
  | .array vs => (fields.zip vs).foldlM (fun s f => set s f.1 f.2) init
  | .datetime => .error (.unknownField "$__toml_private_datetime" fields)
  | v => .error (.invalidType v ("struct " ++ name))

/-! ## Groups -/

/-- The lists of names to hoist. Those not given stay open. -/
def readSeparate : Value → Except ConfigFault SeparateConfig :=
  readGroup "SeparateConfig" ["enums", "interfaces", "type_aliases"] (fun c key v => do
    let names ← readList readString v
    match key with
    | "enums" => pure { c with enums := some names }
    | "interfaces" => pure { c with interfaces := some names }
    | _ => pure { c with typeAliases := some names }) {}

/-- The brand, with the built-in choice for each part not given. -/
def readBrand : Value → Except ConfigFault BrandConfig :=
  readGroup "BrandConfig" ["interface", "property", "doc"] (fun c key v => do
    let text ← readString v
    match key with
    | "interface" => pure { c with interface := text }
    | "property" => pure { c with property := text }
    | _ => pure { c with doc := text }) {}

/-- A qualify rule, of which both parts have to be given. -/
def readRule (v : Value) : Except ConfigFault QualifyRule := do
  let absent : Option String × Option (List String) := (none, none)
  let parts ← readGroup "QualifyRule" ["interface", "names"] (fun c key v => do
    match key with
    | "interface" => pure (some (← readString v), c.2)
    | _ => pure (c.1, some (← readList readString v))) absent v
  match parts, v with
  | (some interface, some names), _ => .ok { interface, names }
  | _, .array vs => .error (.tooShort vs.length "QualifyRule" 2)
  | (none, _), _ => .error (.missingField "interface")
  | (_, none), _ => .error (.missingField "names")

/-- The keys of a configuration. -/
def fields : List String :=
  ["input", "output", "source_namespace", "namespace", "compiler_module", "compiler_alias",
   "merge_utility", "merge_utility_module", "separate", "brand", "qualify"]

/-- A configuration with the value of one key. -/
def setField (c : Config) (key : String) (v : Value) : Except ConfigFault Config := do
  match key with
  | "input" => pure { c with input := some (← readPath v) }
  | "output" => pure { c with output := ← readPath v }
  | "source_namespace" => pure { c with sourceNamespace := ← readString v }
  | "namespace" => pure { c with wrapper := ← readString v }
  | "compiler_module" => pure { c with compilerModule := ← readString v }
  | "compiler_alias" => pure { c with compilerAlias := ← readString v }
  | "merge_utility" => pure { c with mergeUtility := ← readString v }
  | "merge_utility_module" => pure { c with mergeUtilityModule := ← readString v }
  | "separate" => pure { c with separate := ← readSeparate v }
  | "brand" => pure { c with brand := ← readBrand v }
  | _ => pure { c with qualify := some (← readList readRule v) }

/-- Reads a configuration. -/
def parse (text : String) : Except ConfigFault Config := do
  match readToml text with
  | none => .error .notToml
  | some v => readGroup "Config" fields setField {} v

end Config

end Ambient
