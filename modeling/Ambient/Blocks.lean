import Ambient.Tree.Decl

/-!
# Blocks of a namespace

A namespace may be declared several times at the top level of a file; each declaration is a block.
`File.blocks` finds the blocks with a name, `Namespace.decls` gives the declarations of one kind in
a block, and `flatten` those of all blocks, always in the order of the source.
-/

namespace Ambient

/-- The namespaces among some items. -/
def namespacesOf (items : List Item) : List Namespace :=
  items.filterMap fun
    | .decl (.ns n) => some n
    | _ => none

/-- The interfaces among some items. -/
def interfacesOf (items : List Item) : List Interface :=
  items.filterMap fun
    | .decl (.interface i) => some i
    | _ => none

/-- The enumerations among some items. -/
def enumsOf (items : List Item) : List Enum :=
  items.filterMap fun
    | .decl (.enum e) => some e
    | _ => none

/-- The top-level namespaces with this very name. -/
def File.blocks (f : File) (name : String) : List Namespace :=
  (namespacesOf f.items).filter fun n => n.name = name

/-- The declarations of one kind in a namespace. -/
def Namespace.decls (n : Namespace) (k : DeclKind) : List Decl :=
  (declsOf n.items).filter fun d => d.kind = k

/-- The declarations of one kind in several namespaces. -/
def flatten (blocks : List Namespace) (k : DeclKind) : List Decl :=
  blocks.flatMap fun n => n.decls k

theorem kind_of_mem_decls {n : Namespace} {k : DeclKind} {d : Decl} (h : d ∈ n.decls k) :
    d.kind = k := by
  simpa using (List.mem_filter.1 h).2

theorem kind_of_mem_flatten {bs : List Namespace} {k : DeclKind} {d : Decl}
    (h : d ∈ flatten bs k) : d.kind = k := by
  obtain ⟨n, _, hd⟩ := List.mem_flatMap.1 h
  exact kind_of_mem_decls hd

theorem flatten_append (as bs : List Namespace) (k : DeclKind) :
    flatten (as ++ bs) k = flatten as k ++ flatten bs k := by
  simp [flatten]

end Ambient
