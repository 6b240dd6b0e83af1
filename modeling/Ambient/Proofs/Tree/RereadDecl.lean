import Ambient.Proofs.Tree.Erased
import Ambient.Proofs.Tree.Rewrite

/-!
# Declarations as they are read back

What is read of a printed file has the file's types as they are read back (`File.reread`). It is
printed like the file (`File.print_reread`) and is the file up to parentheses around types
(`File.erased_reread`). Whether a file is read back at all depends on its types only
(`File.clear`).
-/

namespace Ambient

namespace Rewrite

/-- Parts as they are read back. -/
def reread : Rewrite where
  doc := Option.map rereadDoc
  ty := Ty.reread
  opt := rereadOpt
  tys := rereadTys
  sig := Signature.reread
  typeParams := rereadTypeParams
  params := rereadParams
  members := rereadMembers
  index := IndexSignature.reread
  accessor := Accessor.reread

/-- Parts without parentheses around types. Documentation has the text that is read back. -/
def erased : Rewrite where
  doc := Option.map rereadDoc
  ty := Ty.erased
  opt := erasedOpt
  tys := erasedTys
  sig := Signature.erased
  typeParams := erasedTypeParams
  params := erasedParams
  members := erasedMembers
  index := IndexSignature.erased
  accessor := Accessor.erased

theorem unseen_reread : reread.Unseen where
  doc := printDoc?_rereadDoc
  ty := Ty.print_reread
  opt := printOpt_reread
  tys := printTys_reread
  sig := Signature.print_reread
  typeParams := printTypeParams_reread
  params := printParams_reread
  members := printMemberLines_reread
  index := IndexSignature.print_reread
  accessor := Accessor.print_reread

theorem erased_after_reread : erased.after reread = erased := by
  have hdoc : erased.doc ∘ reread.doc = erased.doc := funext map_rereadDoc
  have hty : erased.ty ∘ reread.ty = erased.ty := funext Ty.erased_reread
  have hopt : erased.opt ∘ reread.opt = erased.opt := funext erasedOpt_reread
  have htys : erased.tys ∘ reread.tys = erased.tys := funext erasedTys_reread
  have hsig : erased.sig ∘ reread.sig = erased.sig := funext Signature.erased_reread
  have htps : erased.typeParams ∘ reread.typeParams = erased.typeParams :=
    funext erasedTypeParams_reread
  have hps : erased.params ∘ reread.params = erased.params := funext erasedParams_reread
  have hms : erased.members ∘ reread.members = erased.members := funext erasedMembers_reread
  have hindex : erased.index ∘ reread.index = erased.index :=
    funext IndexSignature.erased_reread
  have hacc : erased.accessor ∘ reread.accessor = erased.accessor := funext Accessor.erased_reread
  rw [after, hdoc, hty, hopt, htys, hsig, htps, hps, hms, hindex, hacc]

end Rewrite

/-! ## Files -/

/-- An item as it is read back. -/
def Item.reread : Item → Item :=
  Item.rewritten .reread

/-- An item without parentheses around types. -/
def Item.erased : Item → Item :=
  Item.rewritten .erased

/-- A file as it is read back. -/
def File.reread (f : File) : File :=
  ⟨f.items.map Item.reread⟩

/-- A file without parentheses around types. -/
def File.erased (f : File) : File :=
  ⟨f.items.map Item.erased⟩

theorem Item.erased_reread (i : Item) : i.reread.erased = i.erased := by
  rw [Item.reread, Item.erased, rewritten_rewritten, Rewrite.erased_after_reread]

/-- **What is read back of a file is the file up to parentheses.** -/
theorem File.erased_reread (f : File) : f.reread.erased = f.erased := by
  rw [reread, erased, erased, List.map_map]
  exact congrArg File.mk (List.map_congr_left fun i _ => i.erased_reread)

/-- **What is read back of a file is printed like the file.** -/
theorem File.print_reread (f : File) : f.reread.print = f.print :=
  printItems_rewritten Rewrite.unseen_reread .file 0 f.items

/-! ## Whether it is read back -/

/-- Whether a member of a class is read back. -/
def ClassMemberShape.clear : ClassMemberShape → Bool
  | .property _ ty _ _ _ => clearOpt false ty
  | .method _ _ sig result _ => sig.clear false && clearOpt false result
  | .constructor _ params => clearParams false params
  | .index sig => sig.clear
  | .accessor a => a.clear

/-- A member of a class with its documentation. -/
def ClassMember.clear (m : ClassMember) : Bool :=
  m.shape.clear

/-- A function. -/
def Function.clear (f : Function) : Bool :=
  f.sig.clear false && clearOpt false f.result

/-- An interface. -/
def Interface.clear (i : Interface) : Bool :=
  clearTypeParams false i.typeParams && (clearTys i.supers && clearMembers i.members)

/-- A type alias. -/
def TypeAlias.clear (t : TypeAlias) : Bool :=
  clearTypeParams false t.typeParams && t.ty.clear false

/-- A class. -/
def Class.clear (c : Class) : Bool :=
  clearTypeParams false c.typeParams &&
    (clearOpt false c.super && (clearTys c.interfaces && c.members.all ClassMember.clear))

/-- One variable of a statement. -/
def Declarator.clear (d : Declarator) : Bool :=
  clearOpt false d.ty

mutual

/-- A namespace. -/
def Namespace.clear : Namespace → Bool
  | ⟨_, _, items⟩ => clearItems items

/-- A declaration. -/
def Decl.clear : Decl → Bool
  | .ns n => n.clear
  | .interface i => i.clear
  | .enum _ => true
  | .typeAlias t => t.clear
  | .cls c => c.clear
  | .function f => f.clear
  | .vars v => v.declarators.all Declarator.clear

/-- An item. -/
def Item.clear : Item → Bool
  | .decl d => d.clear
  | .ambientModule _ items => clearItems items
  | .exportStatement _ => true

/-- Each item of a list. -/
def clearItems : List Item → Bool
  | [] => true
  | i :: is => i.clear && clearItems is

end

theorem clearItems_eq_all (is : List Item) : clearItems is = is.all Item.clear := by
  induction is with
  | nil => rfl
  | cons i is ih => rw [clearItems, ih, List.all_cons]

/-- Whether a file is read back. -/
def File.clear (f : File) : Bool :=
  f.items.all Item.clear

end Ambient
