import Ambient.Proofs.Parser.AliasFront
import Ambient.Proofs.Parser.Operand
import Ambient.Proofs.Token.Template

/-!
# Aliases of template literal types

A type that is a template literal is the first token that it was read from (`readTy_template`). So
an alias of a template literal is read as such if the literal is one token, that is, if no backtick
in a substitution ends it, and otherwise as something else (`parse_template`).
-/

namespace Ambient

namespace Parser

variable {n : Nat} {ty : TyReader} {inSuper : Bool} {s s' : String} {c c' : Cursor}

/-! ## A template literal type is one token -/

theorem primary_template (hk : c.kindAt 0 = .template s) :
    primary n ty inSuper c = .ok (.template s, c.advance) := by
  rw [primary, peek, peekAt_bind, hk]
  rfl

/-- What stands in front of brackets is no template literal any more. -/
theorem brackets_template {k : Nat} {t : Ty} (h : brackets ty k t c = .ok (.template s, c')) :
    t = .template s := by
  induction k generalizing t c with
  | zero => cases h
  | succ k ih =>
    rw [brackets] at h
    obtain ⟨b, c₁, -, h⟩ := bind_eq_ok h
    cases b with
    | false =>
      rw [if_neg Bool.false_ne_true] at h
      cases h
      rfl
    | true =>
      rw [if_pos rfl] at h
      obtain ⟨b, c₂, -, h⟩ := bind_eq_ok h
      cases b with
      | true =>
        rw [if_pos rfl] at h
        cases ih h
      | false =>
        rw [if_neg Bool.false_ne_true] at h
        obtain ⟨index, c₃, -, h⟩ := bind_eq_ok h
        obtain ⟨-, c₄, -, h⟩ := bind_eq_ok h
        cases ih h

theorem postfixed_template (hk : c.kindAt 0 = .template s)
    (h : postfixed n ty inSuper c = .ok (.template s', c')) : s' = s := by
  rw [postfixed, bind_apply, primary_template hk] at h
  cases brackets_template h
  rfl

theorem sepBy1_singleton {α : Type} {sep : Kind} {element : Parser α} {x : α}
    (h : sepBy1 sep element n c = .ok ([x], c')) : ∃ c₁, element c = .ok (x, c₁) := by
  cases n with
  | zero => cases h
  | succ n =>
    rw [sepBy1] at h
    obtain ⟨y, c₁, hy, h⟩ := bind_eq_ok h
    obtain ⟨b, c₂, -, h⟩ := bind_eq_ok h
    cases b with
    | false =>
      rw [if_neg Bool.false_ne_true] at h
      cases h
      exact ⟨c₁, hy⟩
    | true =>
      rw [if_pos rfl] at h
      obtain ⟨ys, c₃, hys, h⟩ := bind_eq_ok h
      cases h
      -- behind a separator at least one more element stands
      cases n with
      | zero => cases hys
      | succ n =>
        rw [sepBy1] at hys
        obtain ⟨z, c₄, -, hys⟩ := bind_eq_ok hys
        obtain ⟨b, c₅, -, hys⟩ := bind_eq_ok hys
        cases b with
        | false => cases hys
        | true =>
          obtain ⟨zs, c₆, -, hys⟩ := bind_eq_ok hys
          cases hys

/-- An operator with several operands is no template literal. -/
theorem combined_template {operator : List Ty → Ty} (hop : ∀ ts, operator ts ≠ .template s)
    {sep lead : Kind} {element : Parser Ty} (hlead : c.kindAt 0 ≠ lead)
    (h : (do
      let _ ← accept lead
      let ts ← sepBy1 sep element n
      pure (combined operator ts) : Parser Ty) c = .ok (.template s, c')) :
    ∃ c₁, element c = .ok (.template s, c₁) := by
  have haccept : accept lead c = .ok (false, c) := if_neg hlead
  rw [bind_apply, haccept] at h
  obtain ⟨ts, c₁, hts, h⟩ := bind_eq_ok h
  have heq : combined operator ts = .template s := congrArg Prod.fst (Except.ok.inj h)
  match ts with
  | [] => exact absurd heq (hop [])
  | [t] =>
    obtain rfl : t = .template s := heq
    exact sepBy1_singleton hts
  | t :: u :: ts => exact absurd heq (hop (t :: u :: ts))

theorem united_template (hk : c.kindAt 0 = .template s)
    (h : united n ty inSuper c = .ok (.template s', c')) : s' = s := by
  have hpipe : c.kindAt 0 ≠ .symbol .pipe := by simp [hk]
  have hamp : c.kindAt 0 ≠ .symbol .amp := by simp [hk]
  have hunion (ts : List Ty) : Ty.union ts ≠ .template s' := by simp
  have hintersection (ts : List Ty) : Ty.intersection ts ≠ .template s' := by simp
  obtain ⟨c₁, h₁⟩ := combined_template hunion hpipe h
  obtain ⟨c₂, h₂⟩ := combined_template hintersection hamp h₁
  exact postfixed_template hk h₂

/-- **A template literal type that starts at a template literal is that literal.** -/
theorem readTy_template (hk : c.kindAt 0 = .template s)
    (h : readTy n .full inSuper c = .ok (.template s', c')) : s' = s := by
  cases n with
  | zero => cases h
  | succ n =>
    rw [readTy, full] at h
    obtain ⟨t, c₁, ht, h⟩ := bind_eq_ok h
    cases inSuper with
    | true =>
      rw [if_pos rfl] at h
      cases h
      exact united_template hk ht
    | false =>
      rw [if_neg Bool.false_ne_true] at h
      obtain ⟨b, c₂, -, h⟩ := bind_eq_ok h
      cases b with
      | false =>
        rw [if_neg Bool.false_ne_true] at h
        cases h
        exact united_template hk ht
      | true =>
        -- a conditional type is none
        rw [if_pos rfl, conditional] at h
        obtain ⟨super, c₃, -, h⟩ := bind_eq_ok h
        obtain ⟨-, c₄, -, h⟩ := bind_eq_ok h
        obtain ⟨yes, c₅, -, h⟩ := bind_eq_ok h
        obtain ⟨-, c₆, -, h⟩ := bind_eq_ok h
        obtain ⟨no, c₇, -, h⟩ := bind_eq_ok h
        cases h

end Parser

/-! ## Aliases -/

/-- An alias that is read as a template literal has that literal as the first token of its type. -/
theorem kind_of_parse_alias {name text s : String} (hname : Binder name)
    (h : parse ("type " ++ name ++ " = " ++ text) = .ok (.alias name (.template s))) :
    ∀ u ∈ (lex text).tokens.head?, ∀ s', u.kind = .template s' → s = s' := by
  intro u hu s' hs'
  obtain ⟨t₁, t₂, t₃, ts, htokens, h₁, -, h₂, h₃, hts⟩ := tokens_alias hname text
  generalize "type " ++ name ++ " = " ++ text = source at h htokens
  have hcursor : (lex source).cursor = ⟨t₁ :: t₂ :: t₃ :: ts, (lex source).eof⟩ := by
    rw [Lexed.cursor, htokens]
  -- the alias is the first item of the file
  obtain ⟨c₀, hrun⟩ := Lexed.parse_eq_ok.1 h
  have hkind : (lex source).cursor.kindAt 0 = .keyword .typeKw := by
    rw [hcursor]
    exact h₁
  rw [Parser.fileItems, itemsUntil_round (by simp [hkind])] at hrun
  obtain ⟨x, c₁, hx, hrun⟩ := Parser.bind_eq_ok hrun
  obtain ⟨items, c₂, -, hrun⟩ := Parser.bind_eq_ok hrun
  rw [hcursor] at hx
  obtain ⟨type, c', htype, rfl, -⟩ := alias_eq_ok h₁ h₂ h₃ hx
  obtain ⟨halias, -⟩ := List.cons.inj (congrArg Prod.fst (Except.ok.inj hrun))
  obtain rfl : type = .template s :=
    (TypeAlias.mk.inj (Decl.typeAlias.inj (Item.decl.inj halias))).2.2.2
  -- its type starts at the first token of the text
  obtain ⟨us, hus⟩ := List.head?_eq_some_iff.1 hu
  rw [hus, List.map_cons] at hts
  obtain ⟨v, vs, rfl, hv, -⟩ := List.map_eq_cons_iff.1 hts
  have hfirst : (Cursor.mk (v :: vs) (lex source).eof).kindAt 0 = .template s' := hv.trans hs'
  exact Parser.readTy_template hfirst htype

/-- The text of a flat literal is one token of its own. -/
theorem TemplateText.spelled {t : TemplateText} (h : t.flat = true) :
    Spelled t.literal (.template t.literal) := by
  obtain ⟨front, back, hliteral, hback, hfront⟩ := t.literal_split
  obtain rfl : back = [] := hback.2 h
  rw [List.append_nil] at hliteral
  refine ⟨'\x60', front, hliteral, ?_⟩
  show Piece.ofKind ('\x60' :: templateRest (front ++ [' '])) _ = _
  rw [show templateRest (front ++ [' ']) = front from hfront [' '], ← hliteral,
    String.ofList_toList]
  rfl

/-- **An alias of a template literal is read as one if the literal is flat, and only then.** A
literal is one token under the same condition, and otherwise the token is a proper front of the
literal. The alias is printed as it was written. -/
theorem parse_template {name : String} (hname : Binder name) (t : TemplateText) :
    (∃ front back : String, t.literal = front ++ back ∧ (back = "" ↔ t.flat = true) ∧
      ∀ rest : String,
        lex (t.literal ++ rest) = (lex (back ++ rest)).cons (templateToken front)) ∧
    (parse ("type " ++ name ++ " = " ++ t.literal ++ ";") =
        .ok (.alias name (.template t.literal)) ↔
      t.flat = true) ∧
    (File.alias name (.template t.literal)).print =
      "type " ++ name ++ " = " ++ t.literal ++ ";\n" := by
  refine ⟨lex_template t, ⟨fun h => ?_, fun h => ?_⟩, ?_⟩
  · obtain ⟨front, back, hliteral, hback, hlex⟩ := lex_template t
    rw [String.append_assoc] at h
    have hhead : templateToken front ∈ (lex (t.literal ++ ";")).tokens.head? := by
      rw [hlex]
      rfl
    have hfront : t.literal = front := kind_of_parse_alias hname h _ hhead front rfl
    refine hback.1 ?_
    rw [hliteral] at hfront
    simpa using hfront
  · have hlegible : (Ty.template t.literal).Legible := by
      rw [Ty.Legible]
      exact TemplateText.spelled h
    have hparse := parse_alias_print hname hlegible rfl (.alias name (.template t.literal))
    rw [Ty.print] at hparse
    exact hparse.2 ⟨rfl, rfl⟩
  · simp [File.alias, File.print, printItems, Item.print, Decl.print, TypeAlias.print, printDoc?,
      indent, Place.words, Place.file, when, printTypeParams, angled, Ty.print]

/-- Braces in a substitution do not end the literal, and a literal in a substitution does. -/
theorem parse_template_nested :
    parse "type T = \x60a$\x7b\x7bb\x7d\x7d\x60;" =
      .ok (.alias "T" (.template "\x60a$\x7b\x7bb\x7d\x7d\x60")) ∧
    parse "type T = \x60a$\x7b\x60b\x60\x7d\x60;" ≠
      .ok (.alias "T" (.template "\x60a$\x7b\x60b\x60\x7d\x60")) := by
  have hname : Binder "T" := .inl ⟨'T', [], rfl, rfl⟩
  have braces := (parse_template hname
    (.char 'a' rfl (.hole (.braces (.char 'b' rfl .done) .done) .done))).2.1.2 rfl
  have nested := mt (parse_template hname
    (.char 'a' rfl (.hole (.template (.char 'b' rfl .done) .done) .done))).2.1.1 (by decide)
  exact ⟨braces, nested⟩

end Ambient
