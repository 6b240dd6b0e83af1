import Ambient.Blocks

/-!
# Regrouping by kind

A declaration that moves into another container is copied, and the body of every namespace in the
copy is regrouped: its declarations stand kind by kind in the order `DeclKind.all`, those of one
kind in their old order, and nothing but declarations is kept. `Decl.isRegrouped` says on its own
which declarations already have that form.
-/

namespace Ambient

/-- Declarations kind by kind, those of one kind in their old order. -/
def byKind (ds : List Decl) : List Decl :=
  DeclKind.all.flatMap fun k => ds.filter fun d => d.kind = k

mutual

/-- The copy of a declaration for another container. -/
def Decl.regrouped : Decl → Decl
  | .ns n => .ns n.regrouped
  | .interface i => .interface i
  | .enum e => .enum e
  | .typeAlias t => .typeAlias t
  | .cls c => .cls c
  | .function f => .function f
  | .vars v => .vars v

/-- The copy of a namespace for another container. -/
def Namespace.regrouped : Namespace → Namespace
  | ⟨name, doc, items⟩ => ⟨name, doc, (byKind (regroupedDecls items)).map .decl⟩

/-- The copies of the declarations among some items. -/
def regroupedDecls : List Item → List Decl
  | [] => []
  | .decl d :: is => d.regrouped :: regroupedDecls is
  | .ambientModule .. :: is => regroupedDecls is
  | .exportStatement _ :: is => regroupedDecls is

end

@[simp] theorem Decl.kind_regrouped (d : Decl) : d.regrouped.kind = d.kind := by
  cases d <;> simp [regrouped, kind]

theorem regroupedDecls_eq_map (items : List Item) :
    regroupedDecls items = (declsOf items).map Decl.regrouped := by
  induction items with
  | nil => rfl
  | cons i is ih =>
    cases i <;> simp only [regroupedDecls, ih] <;> simp [declsOf, List.filterMap_cons, Item.decl?]

/-- The body of a copied namespace is the copies of the declarations of each kind in turn. -/
theorem Namespace.regrouped_items (n : Namespace) :
    n.regrouped.items =
      DeclKind.all.flatMap fun k => (n.decls k).map fun d => .decl d.regrouped := by
  obtain ⟨name, doc, items⟩ := n
  simp [regrouped, byKind, regroupedDecls_eq_map, decls, List.map_flatMap, List.filter_map,
    Function.comp_def]

/-! ## The form of a copy -/

/-- Whether kinds stand in the order of copying. -/
def ranksAscend : List Decl → Bool
  | [] => true
  | [_] => true
  | d :: e :: r => d.kind.rank ≤ e.kind.rank && ranksAscend (e :: r)

mutual

/-- Whether the body of every namespace in a declaration holds declarations only, kind by kind. -/
def Decl.isRegrouped : Decl → Bool
  | .ns n => n.isRegrouped
  | .interface _ | .enum _ | .typeAlias _ | .cls _ | .function _ | .vars _ => true

/-- Whether the body of a namespace and of every one inside it has the form of a copy. -/
def Namespace.isRegrouped : Namespace → Bool
  | ⟨_, _, items⟩ => ranksAscend (declsOf items) && allRegrouped items

/-- Whether some items are declarations, each in the form of a copy. -/
def allRegrouped : List Item → Bool
  | [] => true
  | .decl d :: is => d.isRegrouped && allRegrouped is
  | .ambientModule .. :: _ => false
  | .exportStatement _ :: _ => false

end

end Ambient
