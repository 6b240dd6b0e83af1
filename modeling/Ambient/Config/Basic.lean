import Ambient.Files.Path
import Ambient.Qualify
import Ambient.Separation

/-!
# Configuration

What a project can choose, with the built-in choices as defaults. A list that is given replaces the
built-in one, also when it is empty.
-/

namespace Ambient

/-- The lists of names to hoist. -/
structure SeparateConfig where
  enums : Option (List String) := none
  interfaces : Option (List String) := none
  typeAliases : Option (List String) := none
  deriving DecidableEq, Repr

/-- The property that tells nodes of the module from others of the same shape. -/
structure BrandConfig where
  /-- The interface in the wrapping namespace that gets the property. -/
  interface : String := "Node"
  property : String := "_compilerBrand"
  doc : String :=
    "Nominal brand. Keeps nodes from this module distinct from structurally identical " ++
      "compiler nodes."
  deriving DecidableEq, Repr

/-- The choices of a project. -/
structure Config where
  /-- The compiler declarations, if they are not to be looked for. -/
  input : Option Path := none
  /-- The generated module, from the root of the project. -/
  output : Path := ⟨"src/typescript/typescript.ts"⟩
  /-- The namespace that is read. -/
  sourceNamespace : String := "ts"
  /-- The name of the wrapping namespace. -/
  wrapper : String := "ts"
  /-- The module that the compiler is imported from at run time. -/
  compilerModule : String := "typescript"
  /-- The name of the imported compiler. -/
  compilerAlias : String := "tsCompiler"
  /-- The object that merges others. -/
  mergeUtility : String := "ObjectUtils"
  mergeUtilityModule : String := "../utils"
  separate : SeparateConfig := {}
  brand : BrandConfig := {}
  /-- The rules for qualifying names. -/
  qualify : Option (List QualifyRule) := none
  deriving DecidableEq, Repr

namespace Config

/-- Whether a configuration makes the built-in choices. Its paths can be written differently. -/
def isDefault (c : Config) : Bool :=
  let builtin : Config := {}
  c.output.agrees builtin.output ∧ { c with output := builtin.output } = builtin

/-- The separation policy, or the first name that two lists have in common. -/
def policy (c : Config) : Except Overlap Policy :=
  Policy.ofLists (c.separate.enums.getD Policy.builtinEnums)
    (c.separate.interfaces.getD Policy.builtinInterfaces)
    (c.separate.typeAliases.getD Policy.builtinTypeAliases)

/-- The rules for qualifying names. -/
def rules (c : Config) : List QualifyRule :=
  c.qualify.getD QualifyRule.builtin

end Config

end Ambient
