import Ambient.Config.Reader
import Ambient.Files.Basic
import Ambient.Module.Error
import Ambient.Parser.Basic

/-!
# Why a project cannot be opened or its module not generated
-/

namespace Ambient

/-- Why a project cannot be opened or its module not generated. -/
inductive ProjectError where
  | files (e : FileError)
  /-- The compiler declarations are no declaration file. -/
  | notDeclarations (path : Path) (source : String) (e : ParseError)
  /-- The file at the path is no configuration. -/
  | badConfig (path : Path) (fault : ConfigFault)
  /-- The configuration hoists one name by two lists. -/
  | overlap (o : Overlap)
  /-- There are no compiler declarations in the directory or in those that it lies in. -/
  | noCompiler (root : Path)
  | assembly (e : AssemblyError)

namespace ProjectError

/-- The error in words. -/
def message : ProjectError → String
  | files e => e.message
  | notDeclarations path _ e => "failed to parse " ++ path.text ++ ": " ++ e.display
  | badConfig path fault => "invalid configuration: " ++ path.text ++ ": " ++ fault.message
  | overlap o => "invalid configuration: " ++ o.message
  | noCompiler root =>
    "could not find node_modules/typescript/lib/typescript.d.ts above " ++ root.text
  | assembly e => e.message

/-- What an error comes from, in words. -/
def cause? : ProjectError → Option String
  | files e => some e.fault.message
  | notDeclarations _ _ e => some e.display
  | _ => none

end ProjectError

end Ambient
