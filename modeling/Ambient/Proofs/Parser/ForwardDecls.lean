import Ambient.Parser.Decl
import Ambient.Proofs.Parser.Faithful

/-!
# Declarations are passed token by token

The parsers for declarations go forward if the reader for the types inside of them does, and so do
the scans over modifiers, statements and export lists. So every item goes forward, and every block
of items (`forward_item`, `forward_readBlock`).
-/

namespace Ambient

/-! ## Names and statements -/

theorem forward_dottedName : Forward Parser.dottedName :=
  fun _ => passes_dottedName.mono fun _ _ _ => trivial

theorem skipStatement_suffix (ts : List Token) : skipStatement ts <:+ ts := by
  fun_induction skipStatement ts with
  | case1 => exact List.suffix_refl _
  | case2 t ts h => exact List.suffix_cons t ts
  | case3 t ts h ih => exact ih.trans (List.suffix_cons t ts)

theorem forward_statement : Forward Parser.statement :=
  forward_skip skipStatement_suffix

theorem forward_sepBy1 {α : Type} {p : Parser α} {sep : Kind} (hsep : sep ≠ .eof) (h : Forward p)
    (n : Nat) : Forward (Parser.sepBy1 sep p n) :=
  fun _ => (passes_sepBy1 hsep h n).mono fun _ _ _ => trivial

theorem forward_exportedNames {n : Nat} : Forward (Parser.exportedNames n) := by
  have hname : Forward Parser.exportedName :=
    (forward_accept _).bind fun _ => forward_propertyName.bind fun _ =>
      (forward_after? _ forward_propertyName).bind fun _ => .pure _
  refine (forward_expect _).bind fun _ => (forward_commaList _ hname n).bind fun names => ?_
  refine (forward_expect _).bind fun _ => (forward_accept _).bind fun b => ?_
  cases b with
  | true =>
    exact forward_advance.bind fun _ => (forward_accept _).bind fun _ => .pure _
  | false => exact (forward_accept _).bind fun _ => .pure _

/-! ## Modifiers -/

theorem itemModifiers_suffix (ts : List Token) : (itemModifiers ts).2 <:+ ts := by
  fun_induction itemModifiers ts with
  | case1 => exact List.suffix_refl _
  | case2 t ts h ih => exact ih.trans (List.suffix_cons t ts)
  | case3 t ts h h' ih => exact ih.trans (List.suffix_cons t ts)
  | case4 => exact List.suffix_refl _

theorem classMemberWords_suffix (w : ClassMemberWords) (ts : List Token) :
    (classMemberWords w ts).2 <:+ ts := by
  fun_induction classMemberWords w ts with
  | case2 w t ts h w' hw ih => exact ih.trans (List.suffix_cons t ts)
  | _ => exact List.suffix_refl _

/-! ## Declarations -/

section

variable {n : Nat} {ty : TyReader} {doc : Option String} (h : ∀ form s, Forward (ty form s))
include h

theorem forward_function : Forward (Parser.function n ty doc) :=
  (forward_expect _).bind fun _ => forward_identifier.bind fun _ =>
    (forward_signature h).bind fun _ => (forward_result? h).bind fun _ =>
      (forward_accept _).bind fun _ => .pure _

theorem forward_tyListAfter (k : Keyword) : Forward (Parser.tyListAfter n ty k) :=
  (forward_after? _ (forward_sepBy1 (by simp) (h _ _) n)).bind fun _ => .pure _

theorem forward_members : Forward (Parser.members n ty) :=
  (forward_expect _).bind fun _ => (forward_itemsUntil _ (forward_member h) n).bind fun _ =>
    (forward_expect _).bind fun _ => .pure _

theorem forward_interface : Forward (Parser.interface n ty doc) :=
  (forward_expect _).bind fun _ => forward_identifier.bind fun _ =>
    (forward_typeParams h).bind fun _ => (forward_tyListAfter h _).bind fun _ =>
      (forward_members h).bind fun _ => .pure _

theorem forward_typeAlias : Forward (Parser.typeAlias n ty doc) :=
  (forward_expect _).bind fun _ => forward_identifier.bind fun _ =>
    (forward_typeParams h).bind fun _ => (forward_expect _).bind fun _ =>
      (h _ _).bind fun _ => (forward_accept _).bind fun _ => .pure _

theorem forward_namedClassMember {w : ClassMemberWords} :
    Forward (Parser.namedClassMember n ty w) := by
  refine forward_memberName?.bind fun name => ?_
  split
  · exact .pure _
  · refine (forward_accept _).bind fun _ => (forward_accept _).bind fun _ =>
      forward_atSignature.bind fun b => ?_
    split
    · exact (forward_signature h).bind fun _ => (forward_result? h).bind fun _ =>
        forward_endMember.bind fun _ => .pure _
    · exact (forward_after? _ (h _ _)).bind fun _ =>
        (forward_after? _ forward_expression).bind fun _ => forward_endMember.bind fun _ => .pure _

theorem forward_classMemberShape : Forward (Parser.classMemberShape n ty) := by
  have hindex : Forward Parser.atIndexSignature :=
    .peek fun _ => .peekAt 1 fun _ => .peekAt 2 fun _ => .pure _
  have haccessor : Forward Parser.atAccessor := .peek fun _ => .peekAt 1 fun _ => .pure _
  refine Forward.bind (fun c => ?_) fun w => .peek fun k₀ => .peekAt 1 fun k₁ => ?_
  · obtain ⟨ts, hts⟩ := classMemberWords_suffix {} c.rest
    exact .scan (F := classMemberWords {}) ⟨ts, hts.symm, fun _ => trivial⟩
  split
  · refine Forward.map _ ?_
    exact forward_advance.bind fun _ => (forward_params h).bind fun _ =>
      forward_endMember.bind fun _ => .pure _
  refine hindex.bind fun b => ?_
  split
  · exact (forward_indexSignature h).bind fun _ => .pure _
  refine haccessor.bind fun b => ?_
  split
  · exact (forward_accessor h).bind fun _ => .pure _
  · exact forward_namedClassMember h

theorem forward_classMember : Forward (Parser.classMember n ty) := by
  refine .peekDoc fun doc => (forward_accept _).bind fun b => ?_
  split
  · exact .pure _
  · exact (forward_classMemberShape h).bind fun _ => .pure _

theorem forward_classDecl {isAbstract : Bool} : Forward (Parser.classDecl n ty doc isAbstract) :=
  (forward_expect _).bind fun _ => forward_identifier.bind fun _ =>
    (forward_typeParams h).bind fun _ => (forward_after? _ (h _ _)).bind fun _ =>
      (forward_tyListAfter h _).bind fun _ => (forward_expect _).bind fun _ =>
        (forward_itemsUntil _ (forward_classMember h) n).bind fun _ =>
          (forward_expect _).bind fun _ => .pure _

omit h in
theorem forward_enum {isConst : Bool} : Forward (Parser.enum n doc isConst) := by
  have hmember : Forward Parser.enumMember :=
    .peekDoc fun _ => forward_propertyName.bind fun _ =>
      (forward_after? _ forward_expression).bind fun _ => .pure _
  exact (forward_expect _).bind fun _ => forward_identifier.bind fun _ =>
    (forward_expect _).bind fun _ => (forward_commaList _ hmember n).bind fun _ =>
      (forward_expect _).bind fun _ => .pure _

theorem forward_variableStatement {kind : VariableKind} :
    Forward (Parser.variableStatement n ty doc kind) := by
  have hdeclarator : Forward (Parser.declarator ty) :=
    forward_propertyName.bind fun _ => (forward_after? _ (h _ _)).bind fun _ =>
      (forward_after? _ forward_expression).bind fun _ => .pure _
  exact forward_advance.bind fun _ => (forward_sepBy1 (by simp) hdeclarator n).bind fun _ =>
    (forward_accept _).bind fun _ => .pure _

/-! ## Items -/

variable {block : Parser (List Item)} (hblock : Forward block)
include hblock

omit h in
theorem forward_namespaceBody : Forward (Parser.namespaceBody block doc) :=
  forward_dottedName.bind fun _ => hblock.bind fun _ => .pure _

omit h in
theorem forward_ambientModule : Forward (Parser.ambientModule block) := by
  refine (forward_expect _).bind fun _ => .peek fun k => ?_
  split
  · refine forward_advance.bind fun _ => (forward_accept _).bind fun b => ?_
    cases b with
    | true => exact .pure _
    | false => exact hblock.bind fun _ => .pure _
  · exact .fail _

theorem forward_keywordItem {k : Keyword} {next : Kind} :
    Forward (Parser.keywordItem n ty block doc k next) := by
  unfold Parser.keywordItem
  split
  · exact (forward_function h).bind fun _ => .pure _
  · exact (forward_interface h).bind fun _ => .pure _
  · exact (forward_classDecl h).bind fun _ => .pure _
  · refine forward_advance.bind fun _ => ?_
    split
    · exact (forward_classDecl h).bind fun _ => .pure _
    · exact .pure _
  · exact forward_enum.bind fun _ => .pure _
  · split
    · exact forward_advance.bind fun _ => forward_enum.bind fun _ => .pure _
    · exact (forward_variableStatement h).bind fun _ => .pure _
  · exact (forward_variableStatement h).bind fun _ => .pure _
  · exact (forward_variableStatement h).bind fun _ => .pure _
  · split
    · exact (forward_typeAlias h).bind fun _ => .pure _
    · exact forward_advance.bind fun _ => .pure _
  · exact forward_advance.bind fun _ => (forward_namespaceBody hblock).bind fun _ => .pure _
  · split
    · exact (forward_ambientModule hblock).bind fun _ => .pure _
    · exact forward_advance.bind fun _ => (forward_namespaceBody hblock).bind fun _ => .pure _
  · exact forward_statement.bind fun _ => .pure _
  · exact forward_advance.bind fun _ => .pure _

theorem forward_plainItem {exported : Bool} :
    Forward (Parser.plainItem n ty block doc exported) := by
  refine .peekAt 1 fun next => .peek fun k => ?_
  split
  · exact forward_keywordItem h hblock
  · refine forward_advance.bind fun _ => ?_
    split
    · exact hblock.bind fun _ => .pure _
    · exact .pure _
  · split
    · exact forward_exportedNames.bind fun _ => .pure _
    · exact forward_advance.bind fun _ => .pure _
  · exact forward_advance.bind fun _ => .pure _

theorem forward_exportedItem : Forward (Parser.exportedItem n ty block doc) := by
  refine (forward_accept _).bind fun b => ?_
  split
  · exact forward_dottedName.bind fun _ => (forward_accept _).bind fun _ => .pure _
  refine .peek fun k => .peekAt 1 fun next => .peekAt 2 fun afterNext => ?_
  split
  · exact forward_advance.bind fun _ => forward_identifier.bind fun _ =>
      (forward_accept _).bind fun _ => .pure _
  refine (forward_accept _).bind fun _ => .peek fun k => ?_
  split
  · exact forward_statement.bind fun _ => .pure _
  · exact forward_plainItem h hblock

omit doc in
theorem forward_item : Forward (Parser.item n ty block) := by
  refine .peekDoc fun doc => Forward.bind (fun c => ?_) fun exported => ?_
  · obtain ⟨ts, hts⟩ := itemModifiers_suffix c.rest
    exact .scan (F := itemModifiers) ⟨ts, hts.symm, fun _ => trivial⟩
  split
  · exact forward_exportedItem h hblock
  · exact forward_plainItem h hblock

end

theorem forward_readBlock (n : Nat) : Forward (Parser.readBlock n) := by
  induction n with
  | zero => exact .fail _
  | succ n ih =>
    have hitem := forward_item (n := n + 1) (faithful_readTy (n + 1)).forward ih
    exact (forward_expect _).bind fun _ => (forward_itemsUntil _ hitem (n + 1)).bind fun _ =>
      (forward_expect _).bind fun _ => .pure _

end Ambient
