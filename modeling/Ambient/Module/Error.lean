import Ambient.Tree.Decl

/-!
# Why a module cannot be assembled
-/

namespace Ambient

/-- What is missing where a union should be qualified. -/
inductive QualifyFault where
  | notHoisted
  | noIndexSignature
  | notAUnion
  deriving DecidableEq, Repr

/-- The fault in words. -/
def QualifyFault.message : QualifyFault → String
  | notHoisted => "interface is not hoisted to the module top level"
  | noIndexSignature => "interface has no index signature"
  | notAUnion => "index signature value is not a union"

/-- Why a module cannot be assembled. -/
inductive AssemblyError where
  /-- The source has no top-level namespace with the name. -/
  | missingNamespace (name : String)
  /-- A container was asked to hold a kind of declaration that it cannot hold. -/
  | cannotContain (container : String) (kind : DeclKind)
  | cannotQualify (interface : String) (fault : QualifyFault)
  /-- The interface to brand is not in the wrapping namespace. -/
  | missingBrandTarget (interface : String)
  deriving DecidableEq, Repr

/-- The error in words. -/
def AssemblyError.message : AssemblyError → String
  | missingNamespace name => "no namespace named `" ++ name ++ "` in the compiler declarations"
  | cannotContain container kind =>
    container ++ " cannot contain a " ++ kind.label ++ " declaration"
  | cannotQualify interface fault =>
    "cannot qualify union in `" ++ interface ++ "`: " ++ fault.message
  | missingBrandTarget interface =>
    "brand target interface `" ++ interface ++ "` not found in the wrapping namespace"

end Ambient
