import Ambient.Config.Basic
import Ambient.Container

/-!
# Assembling the module

`assemble` builds the generated module from a parsed declaration file. Every declaration of every
block of the source namespace goes either to the top level of the module or into the wrapping
namespace, as the policy says, kind by kind. Then names are qualified in hoisted interfaces, and
one interface in the wrapping namespace gets the brand.
-/

namespace Ambient

/-- The kinds at the top level, in their order there. -/
def hoistedOrder : List DeclKind :=
  [.enum, .interface, .typeAlias]

/-- The declarations of one kind that a policy sends to a place. -/
def Policy.select (p : Policy) (blocks : List Namespace) (place : Placement) (k : DeclKind) :
    List Decl :=
  (flatten blocks k).filter fun d => p.classify k d.name = place

/-- The property that brands an interface. -/
def BrandConfig.member (b : BrandConfig) : Member :=
  { doc := some b.doc, shape := .property b.property (some (.primitive .undefined)) false false }

/-- A wrapping namespace whose first interface with the right name has the brand. -/
def WrappingNamespace.branded (n : WrappingNamespace) (b : BrandConfig) :
    Except AssemblyError WrappingNamespace :=
  match findInterface? b.interface n.items with
  | none => .error (.missingBrandTarget b.interface)
  | some i =>
    let new := { i with members := i.members ++ [b.member] }
    .ok { n with items := replaceInterface b.interface new n.items }

/-- Adds the declarations of some kinds that a policy sends to a place, kind by kind. -/
def addPlaced {α : Type} [Container α] (p : Policy) (blocks : List Namespace) (place : Placement) :
    List DeclKind → α → Logged AssemblyError α
  | [], c => pure c
  | k :: ks, c => do
    let c ← Container.addKind c k (p.select blocks place k)
    addPlaced p blocks place ks c

/-- Brands a wrapping namespace and reports it. -/
def addBrand (b : BrandConfig) (n : WrappingNamespace) :
    Logged AssemblyError WrappingNamespace := do
  let n ← .ofExcept (n.branded b)
  .note
    { level := .debug, topic := .assembly, message := "injected brand"
      fields := [("interface", b.interface), ("property", b.property)] }
  pure n

/-- The generated module of a declaration file. -/
def assemble (config : Config) (policy : Policy) (version : Option String) (file : File)
    (path : Path) : Logged AssemblyError OutputModule := do
  let blocks := file.blocks config.sourceNamespace
  if blocks.isEmpty then
    .ofExcept (.error (.missingNamespace config.sourceNamespace))
  else
    .note
      { level := .info, topic := .assembly, message := "assembling output module"
        fields :=
          [("namespace", config.sourceNamespace), ("blocks", toString blocks.length)] }
    let imports : List Import :=
      [.all config.compilerAlias config.compilerModule,
       .only [config.mergeUtility] config.mergeUtilityModule]
    let hoisted ← addPlaced policy blocks .hoisted hoistedOrder
      ({ path, imports } : OutputModule)
    let qualified := applyRules config.wrapper config.rules hoisted
    qualified.2
    let nested ← addPlaced policy blocks .nested DeclKind.all
      ({ name := config.wrapper } : WrappingNamespace)
    let branded ← addBrand config.brand nested
    let statements : List Merge :=
      [{ utility := config.mergeUtility, target := config.wrapper, source := config.compilerAlias }]
    .note
      { level := .info, topic := .assembly, message := "assembled output module"
        fields :=
          [("hoisted", toString qualified.1.items.length),
           ("nested", toString branded.items.length)] }
    pure
      { qualified.1 with
        header := some (headerComment version)
        wrapping? := some { branded with statements } }

end Ambient
