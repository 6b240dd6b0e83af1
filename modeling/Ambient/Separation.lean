import Ambient.Tree.Decl

/-!
# Separation

Some enumerations, interfaces and type aliases are hoisted out of the wrapping namespace to the top
level of the module: those whose name is listed for their kind. A `Policy` holds the three lists.
A policy that is built from lists (`Policy.ofLists`) has no name in two of them.
-/

namespace Ambient

/-- Where a declaration goes. -/
inductive Placement where
  /-- To the top level of the module. -/
  | hoisted
  /-- Into the wrapping namespace. -/
  | nested
  deriving DecidableEq, Repr

namespace DeclKind

/-- Whether declarations of the kind can be hoisted at all. -/
def isSeparable : DeclKind → Bool
  | .enum | .interface | .typeAlias => true
  | _ => false

end DeclKind

/-- One of the three lists of a policy. -/
inductive SeparationList where
  | enums | interfaces | typeAliases
  deriving DecidableEq, Repr

/-- The key of the list in a configuration. -/
def SeparationList.key : SeparationList → String
  | enums => "enums"
  | interfaces => "interfaces"
  | typeAliases => "type_aliases"

/-- A name that two lists have in common. -/
structure Overlap where
  name : String
  first : SeparationList
  second : SeparationList
  deriving DecidableEq, Repr

/-- The overlap in words. -/
def Overlap.message (o : Overlap) : String :=
  "`" ++ o.name ++ "` is listed in both separate." ++ o.first.key ++ " and separate." ++
    o.second.key

/-- The names that are hoisted, for each kind without repetitions. -/
structure Policy where
  enums : List String
  interfaces : List String
  typeAliases : List String
  deriving DecidableEq, Repr

namespace Policy

/-- A policy without a look at overlaps. Repetitions in a list are dropped. -/
def ofNames (enums interfaces typeAliases : List String) : Policy :=
  ⟨enums.eraseDups, interfaces.eraseDups, typeAliases.eraseDups⟩

/-- The names of one list. -/
def names (p : Policy) : SeparationList → List String
  | .enums => p.enums
  | .interfaces => p.interfaces
  | .typeAliases => p.typeAliases

/-- The first name of one list that is also in another. -/
def overlapIn (p : Policy) (first second : SeparationList) : Option Overlap :=
  ((p.names first).find? fun name => name ∈ p.names second).map fun name => ⟨name, first, second⟩

/-- The overlap of the first pair of lists that has one. -/
def overlap? (p : Policy) : Option Overlap :=
  p.overlapIn .enums .interfaces <|> p.overlapIn .enums .typeAliases <|>
    p.overlapIn .interfaces .typeAliases

/-- The policy of three lists, or the first name that two of them have in common. -/
def ofLists (enums interfaces typeAliases : List String) : Except Overlap Policy :=
  let p := ofNames enums interfaces typeAliases
  match p.overlap? with
  | some o => .error o
  | none => .ok p

/-- The names that are hoisted for a kind, if declarations of the kind can be. -/
def namesFor? (p : Policy) : DeclKind → Option (List String)
  | .enum => some p.enums
  | .interface => some p.interfaces
  | .typeAlias => some p.typeAliases
  | _ => none

/-- Where a declaration with this kind and name goes. -/
def classify (p : Policy) (k : DeclKind) (name : String) : Placement :=
  match p.namesFor? k with
  | some names => if name ∈ names then .hoisted else .nested
  | none => .nested

/-- Enumerations that are hoisted unless a configuration says otherwise. -/
def builtinEnums : List String :=
  ["SyntaxKind", "ScriptTarget", "ScriptKind", "JsxEmit", "ModuleKind", "ModuleResolutionKind",
   "NewLineKind", "TypeFlags", "ObjectFlags", "SymbolFlags", "TypeFormatFlags",
   "DiagnosticCategory", "IndentStyle"]

/-- Interfaces that are hoisted unless a configuration says otherwise. -/
def builtinInterfaces : List String :=
  ["CompilerOptions", "MapLike", "EditorSettings"]

/-- Type aliases that are hoisted unless a configuration says otherwise. -/
def builtinTypeAliases : List String := []

/-- The policy of the built-in lists. -/
def builtin : Policy :=
  ofNames builtinEnums builtinInterfaces builtinTypeAliases

theorem classify_eq_hoisted_iff (p : Policy) (k : DeclKind) (name : String) :
    p.classify k name = .hoisted ↔ ∃ names, p.namesFor? k = some names ∧ name ∈ names := by
  unfold classify
  split <;> rename_i h <;> simp [h]

end Policy

end Ambient
