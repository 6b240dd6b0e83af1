import Ambient.Log
import Ambient.Module.Error
import Ambient.Module.Output
import Ambient.Regroup
import Ambient.Separation

/-!
# Containers

A container takes declarations of some kinds, one by one, each as the copy `Decl.regrouped`. The
top level of a module takes the kinds that can be hoisted; namespaces take every kind. Declarations
in front of the first one that a container refuses stay in it (`addAll`).
-/

namespace Ambient

/-- Something that holds declarations. -/
class Container (α : Type) where
  /-- The container in messages. -/
  label : α → String
  /-- Whether it can hold declarations of a kind. -/
  accepts : α → DeclKind → Bool
  /-- What it holds. -/
  items : α → List Item
  /-- The container with one more item. -/
  push : α → Item → α

instance : Container OutputModule where
  label m := "module file " ++ m.path.text
  accepts _ k := k.isSeparable
  items m := m.items
  push m i := { m with items := m.items ++ [i] }

instance : Container WrappingNamespace where
  label n := "namespace " ++ n.name
  accepts _ _ := true
  items n := n.items
  push n i := { n with items := n.items ++ [i] }

instance : Container Namespace where
  label n := "namespace " ++ n.name
  accepts _ _ := true
  items n := n.items
  push n i := { n with items := n.items ++ [i] }

namespace Container

variable {α : Type} [Container α]

/-- Adds a declaration as it is. -/
def add (c : α) (d : Decl) : Except AssemblyError α :=
  if accepts c d.kind then .ok (push c (.decl d)) else .error (.cannotContain (label c) d.kind)

/-- Adds copies of declarations in order, up to the first one that is refused. Gives the container
and how many were added. -/
def addAll (c : α) : List Decl → α × Except AssemblyError Nat
  | [] => (c, .ok 0)
  | d :: ds =>
    match add c d.regrouped with
    | .error e => (c, .error e)
    | .ok c' =>
      let r := addAll c' ds
      (r.1, r.2.map (· + 1))

/-- Adds copies of declarations of one kind, and reports their number. -/
def addKind (c : α) (k : DeclKind) (ds : List Decl) : Logged AssemblyError α := do
  let r := addAll c ds
  let count ← .ofExcept r.2
  .note
    { level := .debug, topic := .cloning, message := "cloned declarations"
      fields := [("kind", k.label), ("count", toString count), ("container", label r.1)] }
  pure r.1

end Container

end Ambient
