import Ambient.Tree.DeclPrinter

/-!
# Variables and members of enumerations

A tree keeps an initializer as written in two places: with a variable and with a member of an
enumeration. `File.bindings` lists both at any depth, in the order of the file. `Prints bs s` says
that the text `s` holds them in this order, one behind the other; the text of a file holds all of
its own (`prints_file`).
-/

namespace Ambient

/-- What keeps an initializer. -/
inductive Binding where
  | declarator (d : Declarator)
  | member (m : EnumMember)

namespace Binding

def initializer : Binding → Option String
  | declarator d => d.initializer
  | member m => m.initializer

/-- The name, and the type of a variable. -/
def front (level : Nat) : Binding → String
  | declarator d => d.name ++ printOpt level ": " d.ty
  | member m => m.name

/-- The binding without the documentation of a member. -/
def print (level : Nat) (b : Binding) : String :=
  b.front level ++ b.initializer.elim "" (" = " ++ ·)

end Binding

/-! ## Bindings of a tree -/

mutual

/-- The variables and members of enumerations in a declaration. -/
def Decl.bindings : Decl → List Binding
  | .ns n => n.bindings
  | .enum e => e.members.map .member
  | .vars v => v.declarators.map .declarator
  | .interface _ | .typeAlias _ | .cls _ | .function _ => []

/-- The variables and members of enumerations in the body of a namespace. -/
def Namespace.bindings : Namespace → List Binding
  | ⟨_, _, items⟩ => bindingsOf items

/-- The variables and members of enumerations in an item. -/
def Item.bindings : Item → List Binding
  | .decl d => d.bindings
  | .ambientModule _ items => bindingsOf items
  | .exportStatement _ => []

/-- The variables and members of enumerations in a body. -/
def bindingsOf : List Item → List Binding
  | [] => []
  | i :: is => i.bindings ++ bindingsOf is

end

/-- The variables and members of enumerations in a file. -/
def File.bindings (f : File) : List Binding :=
  bindingsOf f.items

/-! ## Texts that hold bindings -/

/-- A text in which the bindings are printed one behind the other. -/
inductive Prints : List Binding → String → Prop
  | nil (s : String) : Prints [] s
  | cons (before : String) (level : Nat) (b : Binding) {bs : List Binding} {behind : String}
    (h : Prints bs behind) : Prints (b :: bs) (before ++ b.print level ++ behind)

namespace Prints

variable {b : Binding} {bs cs : List Binding} {s t : String}

theorem behind (a : String) (h : Prints bs s) : Prints bs (a ++ s) := by
  cases h with
  | nil s => exact .nil _
  | cons before level b h =>
    rw [← String.append_assoc, ← String.append_assoc]
    exact .cons _ level b h

theorem append (hb : Prints bs s) (hc : Prints cs t) : Prints (bs ++ cs) (s ++ t) := by
  induction hb with
  | nil s => exact hc.behind s
  | cons before level b _ ih =>
    rw [String.append_assoc]
    exact .cons before level b ih

theorem before (h : Prints bs s) (a : String) : Prints bs (s ++ a) := by
  simpa using h.append (.nil a)

theorem single (level : Nat) (b : Binding) : Prints [b] (b.print level) := by
  have h := Prints.cons "" level b (.nil "")
  rwa [String.append_empty, String.empty_append] at h

theorem intercalate {α : Type} {g : α → List Binding} {text : α → String} (sep : String)
    {xs : List α} (h : ∀ x ∈ xs, Prints (g x) (text x)) :
    Prints (xs.flatMap g) (String.intercalate sep (xs.map text)) := by
  induction xs with
  | nil => exact .nil _
  | cons x xs ih =>
    have hx := h x List.mem_cons_self
    have hxs := ih fun y hy => h y (List.mem_cons_of_mem x hy)
    cases xs with
    | nil => simpa using hx
    | cons y ys =>
      rw [List.flatMap_cons, List.map_cons, List.map_cons, String.intercalate_cons_cons,
        ← List.map_cons, String.append_assoc]
      exact hx.append (hxs.behind sep)

end Prints

/-! ## Printed declarations -/

theorem prints_enumMembers (level : Nat) (ms : List EnumMember) :
    Prints (ms.map .member) (String.join (printEnumMembers level ms)) := by
  induction ms with
  | nil => exact .nil _
  | cons m ms ih =>
    have hm : Prints [.member m] (m.name ++ m.initializer.elim "" (" = " ++ ·)) :=
      .single level (.member m)
    have h := ((hm.behind (printDoc? level m.doc ++ indent level)).before
      (when (!ms.isEmpty) "," ++ "\n")).append ih
    rw [printEnumMembers, String.join_cons]
    simpa only [String.append_assoc, List.map_cons, List.singleton_append] using h

theorem Enum.prints (p : Place) (level : Nat) (e : Enum) :
    Prints (Decl.enum e).bindings (e.print p level) := by
  rw [Enum.print]
  exact (((prints_enumMembers (level + 1) e.members).behind _).before _).before _

theorem Variables.prints (p : Place) (level : Nat) (v : Variables) :
    Prints (Decl.vars v).bindings (v.print p level) := by
  have hds : Prints (v.declarators.flatMap fun d => [.declarator d])
      (String.intercalate ", " (v.declarators.map (·.print level))) :=
    .intercalate ", " fun d _ => .single level (.declarator d)
  rw [← List.map_eq_flatMap] at hds
  rw [Variables.print]
  exact (hds.behind _).before _

mutual

theorem Decl.prints (p : Place) (level : Nat) :
    (d : Decl) → Prints d.bindings (d.print p level)
  | .ns n => by
    rw [Decl.bindings, Decl.print]
    exact n.prints p level
  | .enum e => e.prints p level
  | .vars v => v.prints p level
  | .interface _ | .typeAlias _ | .cls _ | .function _ => .nil _

theorem Namespace.prints (p : Place) (level : Nat) :
    (n : Namespace) → Prints n.bindings (n.print p level)
  | ⟨_, _, items⟩ => by
    rw [Namespace.bindings, Namespace.print]
    exact (((prints_body (level + 1) items).behind _).before _).before _

theorem Item.prints (p : Place) (level : Nat) :
    (i : Item) → Prints i.bindings (i.print p level)
  | .decl d => by
    rw [Item.bindings, Item.print]
    exact d.prints p level
  | .ambientModule _ items => by
    rw [Item.bindings, Item.print]
    exact (((prints_body (level + 1) items).behind _).before _).before _
  | .exportStatement _ => .nil _

theorem prints_body (level : Nat) :
    (is : List Item) → Prints (bindingsOf is) (String.join (printBody level is))
  | [] => .nil _
  | i :: is => by
    rw [bindingsOf, printBody, String.join_cons]
    exact (i.prints Place.body level).append (prints_body level is)

end

/-- **A file is printed with all of its variables and members of enumerations**, in their order. -/
theorem prints_file (f : File) : Prints f.bindings f.print := by
  have h (is : List Item) : Prints (bindingsOf is) (printItems .file 0 is) := by
    induction is with
    | nil => exact .nil _
    | cons i is ih =>
      rw [printItems, List.map_cons, String.join_cons, bindingsOf]
      exact (i.prints .file 0).append ih
  exact h f.items

end Ambient
