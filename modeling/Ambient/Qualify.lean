import Ambient.Log
import Ambient.Module.Error
import Ambient.Module.Output

/-!
# Qualifying names

A hoisted interface can refer to types that stay in the wrapping namespace. Such a reference has to
name the namespace. A `QualifyRule` does this for the names that are members of the union in the
first index signature of an interface.
-/

namespace Ambient

/-- The first index signature among some members. -/
def firstIndex? : List Member → Option IndexSignature
  | [] => none
  | ⟨_, .index sig⟩ :: _ => some sig
  | _ :: ms => firstIndex? ms

/-- Some members with the first index signature replaced. -/
def replaceFirstIndex (new : IndexSignature) : List Member → List Member
  | [] => []
  | ⟨doc, .index _⟩ :: ms => ⟨doc, .index new⟩ :: ms
  | m :: ms => m :: replaceFirstIndex new ms

/-- Qualifies some names in the index signature union of an interface. -/
structure QualifyRule where
  interface : String
  names : List String
  deriving DecidableEq, Repr

namespace QualifyRule

/-- The rules that hold unless a configuration says otherwise. -/
def builtin : List QualifyRule :=
  [⟨"CompilerOptions", ["CompilerOptionsValue", "JsonSourceFile"]⟩]

/-- Whether a type is a name that the rule qualifies. -/
def affects (r : QualifyRule) : Ty → Bool
  | .named name _ => name ∈ r.names
  | _ => false

/-- A member of the union, qualified if the rule affects it. -/
def qualify (r : QualifyRule) (ns : String) : Ty → Ty
  | .named name args => if name ∈ r.names then .named (ns ++ "." ++ name) args else .named name args
  | t => t

/-- An interface with the names of the rule qualified, and how many members of the union were. The
name of the interface does not matter. -/
def applyTo (r : QualifyRule) (ns : String) (i : Interface) :
    Except AssemblyError (Interface × Nat) :=
  match firstIndex? i.members with
  | none => .error (.cannotQualify r.interface .noIndexSignature)
  | some sig =>
    match sig.valueType with
    | .union ts =>
      let new := { sig with valueType := .union (ts.map (r.qualify ns)) }
      .ok ({ i with members := replaceFirstIndex new i.members }, ts.countP r.affects)
    | _ => .error (.cannotQualify r.interface .notAUnion)

/-- A module with the rule applied to the hoisted interface that it names, and how many members of
the union were qualified. -/
def apply (r : QualifyRule) (ns : String) (m : OutputModule) :
    Except AssemblyError (OutputModule × Nat) := do
  match findInterface? r.interface m.items with
  | none => .error (.cannotQualify r.interface .notHoisted)
  | some i =>
    let (new, count) ← r.applyTo ns i
    .ok ({ m with items := replaceInterface r.interface new m.items }, count)

end QualifyRule

/-- A module with rules applied one after the other, up to the first one that fails. -/
def applyRules (ns : String) :
    List QualifyRule → OutputModule → OutputModule × Logged AssemblyError Unit
  | [], m => (m, pure ())
  | r :: rs, m =>
    match r.apply ns m with
    | .error e => (m, .ofExcept (.error e))
    | .ok (m', count) =>
      let rest := applyRules ns rs m'
      (rest.1, do
        .note
          { level := .debug, topic := .qualifying, message := "qualified union members"
            fields := [("interface", r.interface), ("rewritten", toString count)] }
        rest.2)

end Ambient
