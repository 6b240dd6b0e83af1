import Ambient.Proofs.Parser.Items

/-!
# Brackets in the operand of `extends`

Inside the operand of `extends` the word `extends` is not taken up again. Brackets around a type end
that restriction, except those around parameters and around type parameters (`Bracket.keeps`). What
is read between brackets on its own is read in the operand unless the brackets keep the restriction
and the type between them needs the word (`parse_asOperand`).
-/

namespace Ambient

theorem TypeName.of_ident {name : String} (h : Ident name) : TypeName name :=
  ⟨name, [], h, by simp, by simp [trail]⟩

theorem Ty.legible_named {name : String} (h : Ident name) :
    (Ty.named name []).isPredicate = false ∧ (Ty.named name []).Legible :=
  ⟨rfl, by simp [Legible, legibleTys, TypeName.of_ident h]⟩

/-- What can be made of a type by putting it between brackets. -/
inductive Bracket where
  | parens | arguments | tuple | index | member | mapped | param | bound
  deriving DecidableEq, Repr

namespace Bracket

/-- The text of a type with brackets around it. -/
def text : Bracket → String → String
  | parens, x => "(" ++ x ++ ")"
  | arguments, x => "N<" ++ x ++ ">"
  | tuple, x => "[" ++ x ++ "]"
  | index, x => "N[" ++ x ++ "]"
  | member, x => "\x7b p: " ++ x ++ "; \x7d"
  | mapped, x => "\x7b [K in " ++ x ++ "]: " ++ x ++ "; \x7d"
  | param, x => "(p: " ++ x ++ ") => R"
  | bound, x => "<U extends " ++ x ++ ">() => R"

/-- A type with brackets around it. -/
def around (t : Ty) : Bracket → Ty
  | parens => .parenthesized t
  | arguments => .named "N" [t]
  | tuple => .tuple [⟨none, t, false, false⟩]
  | index => .indexAccess (.named "N" []) t
  | member => .object [⟨none, .property "p" (some t) false false⟩]
  | mapped => .mapped "K" t none t none none
  | param => .function ⟨[], none, [⟨"p", some t, false, false⟩]⟩ (.named "R" [])
  | bound => .function ⟨[⟨"U", [], some t, none⟩], none, []⟩ (.named "R" [])

/-- Whether a type between the brackets is still in the operand of `extends` that they stand in. -/
def keeps : Bracket → Bool
  | param | bound => true
  | _ => false

variable {t : Ty}

theorem print_around (t : Ty) (b : Bracket) : (b.around t).print 0 = b.text (t.print 0) := by
  rw [← String.toList_inj]
  cases b <;> simp [around, text, Ty.print, printTys, angled, printElements, Ty.looserThanPostfix,
    Ambient.parens, printMembers, MemberShape.print, printOpt, when, String.join, Signature.print,
    printTypeParams, printReceiver, printParams]

theorem reread_around (t : Ty) (b : Bracket) : (b.around t).reread = b.around t.reread := by
  cases b <;> simp [around, Ty.reread, rereadTys, rereadElements, TupleElement.reread, Ty.wrapped,
    Ty.looserThanPostfix, rereadMembers, Member.reread, MemberShape.reread, rereadOpt,
    Signature.reread, rereadTypeParams, TypeParam.reread, rereadParams, Param.reread]

theorem clear_around (t : Ty) (b : Bracket) (inSuper : Bool) :
    (b.around t).clear inSuper = t.clear (inSuper && b.keeps) := by
  cases b <;> simp [around, keeps, Ty.clear, clearTys, clearElements, TupleElement.clear,
    clearMembers, Member.clear, MemberShape.clear, clearOpt, Signature.clear, clearTypeParams,
    TypeParam.clear, clearParams, Param.clear]

theorem legible_around (h : t.Legible) (hp : t.isPredicate = false) (b : Bracket) :
    (b.around t).Legible := by
  have hn : TypeName "N" := .of_ident ⟨'N', [], rfl, rfl⟩
  have hr : TypeName "R" := .of_ident ⟨'R', [], rfl, rfl⟩
  have hk : Word "K" := .inl ⟨'K', [], rfl, rfl⟩
  have hpi : Ident "p" := ⟨'p', [], rfl, rfl⟩
  have hu : Binder "U" := .inl ⟨'U', [], rfl, rfl⟩
  cases b with
  | parens | tuple => simp [around, Ty.Legible, legibleElements, TupleElement.Legible, h, hp]
  | arguments => simp [around, Ty.Legible, legibleTys, h, hp, hn]
  | index =>
    have hpred : (Ty.named "N" []).isPredicate = false := rfl
    simp [around, Ty.Legible, legibleTys, h, hp, hn, hpred]
  | member =>
    have hname : PropertyName "p" := ⟨.inl (.inl hpi), by decide⟩
    -- A name in front of the colon is not taken for the start of a mapped type.
    have hopens : opensMapped (lexemesMembers [⟨none, .property "p" (some t) false false⟩]).flatten =
        false := by
      have hl : lexemesOf "p" = [_] := Spelled.lexemesOf_eq hpi
      simp [lexemesMembers, Member.lexemes, MemberShape.lexemes, hl, lexemesIf, documented,
        opensMapped, behind]
    simp [around, Ty.Legible, legibleMembers, Member.Legible, MemberShape.Legible, legibleOpt, h,
      hp, hname, hopens]
  | mapped => simp [around, Ty.Legible, legibleOpt, h, hp, hk]
  | param =>
    have hhead : Signature.Headed ⟨[], none, [⟨"p", some t, false, false⟩]⟩ := by
      refine .inr (.inr fun x hx => .inr (.inr ?_))
      obtain rfl : Param.mk "p" (some t) false false = x := by simpa using hx
      exact ⟨.inl hpi, show "p" ≠ "this" by decide⟩
    have hname : ParamName "p" := .inl (.inl hpi)
    simp [around, Ty.Legible, Signature.Legible, legibleTypeParams, legibleOpt, legibleParams,
      Param.Legible, legibleTys, h, hp, hr, hhead, hname]
  | bound =>
    have hhead : Signature.Headed ⟨[⟨"U", [], some t, none⟩], none, []⟩ := .inl (by simp)
    simp [around, Ty.Legible, Signature.Legible, legibleTypeParams, TypeParam.Legible, legibleOpt,
      legibleParams, legibleTys, h, hp, hu, hr, hhead]

end Bracket

/-! ## Aliases -/

/-- A file that is one type alias. -/
def File.alias (name : String) (t : Ty) : File :=
  ⟨[.decl (.typeAlias { name, doc := none, typeParams := [], ty := t })]⟩

namespace File

variable (name : String) (t : Ty)

theorem lexemes_alias : (File.alias name t).lexemes =
    [.kw .typeKw] ++ lexemesOf name ++ [.sym .eq] ++ t.lexemes ++ [.sym .semicolon] := by
  simp [File.alias, lexemes, Item.lexemes, Decl.lexemes, Decl.doc, Decl.isRuntime, Place.lexemes,
    Place.file, lexemesIf, documented, TypeAlias.lexemes, angledLexemes, lexemesTypeParams]
  rfl

theorem clear_alias : (File.alias name t).clear = t.clear false := by
  simp [File.alias, clear, Item.clear, Decl.clear, TypeAlias.clear, clearTypeParams]

theorem reread_alias : (File.alias name t).reread = .alias name t.reread := by
  simp [File.alias, reread, Item.reread, Item.rewritten, Decl.rewritten, TypeAlias.rewritten,
    Rewrite.reread, rereadTypeParams]

variable {name t}

theorem legible_alias (hname : Binder name) (h : t.Legible) (hp : t.isPredicate = false) :
    (File.alias name t).Legible := by
  simp only [File.alias, File.Legible, List.mem_singleton, forall_eq, Item.Legible, Decl.Legible]
  exact ⟨hname, by simp [legibleDoc?], by simp [legibleTypeParams], hp, h⟩

/-- The text of an alias without the line break behind it. -/
theorem spells_alias (hname : Binder name) (h : t.Legible) :
    Spells ("type " ++ name ++ " = " ++ t.print 0 ++ ";") (File.alias name t).lexemes [] := by
  rw [lexemes_alias]
  refine Spells.append (Spells.append (Spells.append (Spells.append (.fixed rfl) ?_) (.fixed rfl))
    ?_) (.fixed rfl)
  · exact hname.atom.spells _ (.fixed ⟨' ', rfl, by decide⟩)
  · exact Ty.spells 0 (.fixed ⟨';', rfl, by decide⟩) t h

end File

/-- **An alias of a legible type is read back if the type is clear and refused if it is not.** -/
theorem parse_alias_print {name : String} (hname : Binder name) {t : Ty} (h : t.Legible)
    (hp : t.isPredicate = false) (f : File) :
    parse ("type " ++ name ++ " = " ++ t.print 0 ++ ";") = .ok f ↔
      t.clear false = true ∧ f = .alias name t.reread := by
  rw [← File.clear_alias name t, ← File.reread_alias name t]
  exact (File.spells_alias hname h).shows.parse_eq_ok
    (File.reads (File.legible_alias hname h hp) (Nat.lt_succ_self _)) f

/-! ## Operands -/

/-- A conditional type with the given operand of `extends`. -/
def Ty.asOperand (t : Ty) : Ty :=
  .conditional (.named "C" []) t (.named "T" []) (.named "F" [])

section

variable {t : Ty} (hc : t.isConditional = false)

include hc

theorem Ty.print_asOperand : t.asOperand.print 0 = "C extends " ++ t.print 0 ++ " ? T : F" := by
  rw [← String.toList_inj]
  simp [asOperand, Ty.print, printTys, angled, parens, hc, looserThanUnion]

theorem Ty.clear_asOperand : t.asOperand.clear false = t.clear true := by
  simp [asOperand, Ty.clear, clearTys, hc]

theorem Ty.reread_asOperand : t.asOperand.reread = t.reread.asOperand := by
  simp [asOperand, Ty.reread, rereadTys, Ty.wrapped, hc, looserThanUnion]

end

theorem Ty.legible_asOperand {t : Ty} (h : t.Legible) (hp : t.isPredicate = false) :
    t.asOperand.Legible := by
  rw [asOperand, Ty.Legible]
  exact ⟨legible_named ⟨'C', [], rfl, rfl⟩, ⟨hp, h⟩,
    legible_named ⟨'T', [], rfl, rfl⟩,
    legible_named ⟨'F', [], rfl, rfl⟩⟩

/-- **Brackets in the operand of `extends`.** A type between brackets that is read on its own is read
in the operand as well, as the same type, unless the brackets are those of parameters or type
parameters. Between these it is read there if it is read in an operand without brackets. -/
theorem parse_asOperand {t : Ty} (h : t.Legible) (hp : t.isPredicate = false) (b : Bracket)
    (f : File) :
    (parse ("type A = " ++ b.text (t.print 0) ++ ";") = .ok f ↔
      t.clear false = true ∧ f = .alias "A" (b.around t.reread)) ∧
    (parse ("type A = C extends " ++ b.text (t.print 0) ++ " ? T : F;") = .ok f ↔
      t.clear b.keeps = true ∧ f = .alias "A" (b.around t.reread).asOperand) := by
  have ha : Binder "A" := .inl ⟨'A', [], rfl, rfl⟩
  have hlegible := Bracket.legible_around h hp b
  have hpred : (b.around t).isPredicate = false := by cases b <;> rfl
  have hcond : (b.around t).isConditional = false := by cases b <;> rfl
  have halone := parse_alias_print ha hlegible hpred f
  have hoperand := parse_alias_print ha (Ty.legible_asOperand hlegible hpred) rfl f
  have htext : "type A = C extends " ++ b.text (t.print 0) ++ " ? T : F;" =
      "type " ++ "A" ++ " = " ++ ("C extends " ++ b.text (t.print 0) ++ " ? T : F") ++ ";" := by
    rw [← String.toList_inj]
    simp
  rw [Bracket.print_around, Bracket.clear_around, Bracket.reread_around, Bool.false_and] at halone
  rw [Ty.print_asOperand hcond, Ty.clear_asOperand hcond, Ty.reread_asOperand hcond,
    Bracket.print_around, Bracket.clear_around, Bracket.reread_around, Bool.true_and,
    ← htext] at hoperand
  exact ⟨halone, hoperand⟩

/-- A conditional type is no type of a parameter in the operand. -/
theorem parse_asOperand_param :
    (∃ f, parse "type A = (p: A1 extends B1 ? D1 : E1) => R;" = .ok f) ∧
      ∀ f, parse "type A = C extends (p: A1 extends B1 ? D1 : E1) => R ? T : F;" ≠ .ok f := by
  have hlegible : (Ty.conditional (.named "A1" []) (.named "B1" []) (.named "D1" [])
      (.named "E1" [])).Legible := by
    rw [Ty.Legible]
    exact ⟨Ty.legible_named ⟨'A', ['1'], rfl, rfl⟩,
      Ty.legible_named ⟨'B', ['1'], rfl, rfl⟩,
      Ty.legible_named ⟨'D', ['1'], rfl, rfl⟩,
      Ty.legible_named ⟨'E', ['1'], rfl, rfl⟩⟩
  refine ⟨⟨_, (parse_asOperand hlegible rfl .param _).1.2 ⟨by decide, rfl⟩⟩, fun f hf => ?_⟩
  obtain ⟨hclear, -⟩ := (parse_asOperand hlegible rfl .param f).2.1 hf
  exact absurd hclear (by decide)

end Ambient
