import Ambient.Blocks
import Ambient.Files.Path
import Ambient.Tree.DeclPrinter

/-!
# The generated module

A module file: a header comment, imports, hoisted declarations, and one exported namespace around
everything else, at whose end statements are run when the module is loaded.
-/

namespace Ambient

open Text (quote)

/-- An import at the top of a module. -/
inductive Import where
  /-- The whole module under a name. -/
  | all (name module : String)
  /-- Some of its members. -/
  | only (names : List String) (module : String)
  deriving DecidableEq, Repr

/-- The import as a line without its end. -/
def Import.print : Import → String
  | all name module => "import * as " ++ name ++ " from " ++ quote module ++ ";"
  | only names module =>
    "import \x7b " ++ String.intercalate ", " names ++ " \x7d from " ++ quote module ++ ";"

/-- A statement that copies the members of one object into another when the module is loaded. -/
structure Merge where
  utility : String
  target : String
  source : String
  deriving DecidableEq, Repr

/-- The statement as a line without its end. -/
def Merge.print (m : Merge) : String :=
  m.utility ++ ".assign(" ++ m.target ++ ", " ++ m.source ++ ");"

/-- The exported namespace around all declarations that are not hoisted. -/
structure WrappingNamespace where
  name : String
  items : List Item := []
  statements : List Merge := []

/-- A module file under construction. -/
structure OutputModule where
  path : Path
  /-- The comment before everything else, without the end of its last line. -/
  header : Option String := none
  imports : List Import := []
  /-- The hoisted declarations. -/
  items : List Item := []
  wrapping? : Option WrappingNamespace := none

/-- The top level of a module, where nothing is ambient. -/
def Place.module : Place := ⟨true, false⟩

/-- The exported namespace as lines. -/
def WrappingNamespace.print (n : WrappingNamespace) : String :=
  "export namespace " ++ n.name ++ " \x7b\n" ++ printItems .module 1 n.items ++
    String.join (n.statements.map fun s => indent 1 ++ s.print ++ "\n") ++ "\x7d\n"

/-- The module as text. An empty line stands before the hoisted declarations and before the
namespace. -/
def OutputModule.print (m : OutputModule) : String :=
  m.header.elim "" (· ++ "\n") ++ String.join (m.imports.map (·.print ++ "\n")) ++
    (if m.items.isEmpty then "" else "\n" ++ printItems .module 0 m.items) ++
    m.wrapping?.elim "" ("\n" ++ ·.print)

/-- The comment that opens a module. -/
def headerComment (version : Option String) : String :=
  "/* eslint-disable */\n/*\n * TypeScript compiler declarations" ++
    version.elim "" (", version " ++ ·) ++
    ".\n *\n * Generated by dts-rewrap from typescript.d.ts. Do not edit; every run\n" ++
    " * replaces this file.\n *\n" ++
    " * The declarations are Copyright (c) Microsoft Corporation and licensed\n" ++
    " * under the Apache License, Version 2.0.\n */"

/-! ## Interfaces by name -/

/-- The first interface with a name. -/
def findInterface? (name : String) (items : List Item) : Option Interface :=
  (interfacesOf items).find? fun i => i.name = name

/-- Some items with the first interface of a name replaced. -/
def replaceInterface (name : String) (new : Interface) : List Item → List Item
  | [] => []
  | .decl (.interface i) :: is =>
    if i.name = name then .decl (.interface new) :: is
    else .decl (.interface i) :: replaceInterface name new is
  | i :: is => i :: replaceInterface name new is

end Ambient
