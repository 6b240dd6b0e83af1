import Ambient.Proofs.Tree.Legible

/-!
# Balanced parentheses

Whether an opening parenthesis starts the parameters of a function type is told in some cases by
what stands behind the parenthesis that closes it. Parentheses among the lexemes of a legible type
are balanced, so that a scan for the closing one passes the type (`Ty.neutral`).
-/

namespace Ambient

/-! ## Scans over balanced lexemes -/

/-- Whether an arrow follows the parenthesis that closes the one that is open, by the kinds of the
tokens behind that. -/
def arrowBehind : (depth : Nat) → List Kind → Bool
  | _, [] => false
  | depth, k :: ks =>
    match k with
    | .symbol .lparen => arrowBehind (depth + 1) ks
    | .symbol .rparen =>
      match depth with
      | 0 => ks.head? == some .arrow
      | d + 1 => arrowBehind d ks
    | _ => arrowBehind depth ks

theorem arrowFollows_eq (depth : Nat) (ts : List Token) :
    arrowFollows depth ts = arrowBehind depth (ts.map Token.kind) := by
  fun_induction arrowFollows depth ts with
  | case1 => rfl
  | case2 depth t ts hk ih => simp [arrowBehind, hk, ih]
  | case3 t ts hk => simp [arrowBehind, hk, List.head?_map]
  | case4 t ts hk d ih => simp [arrowBehind, hk, ih]
  | case5 depth t ts h₁ h₂ ih =>
    rw [List.map_cons, arrowBehind]
    · exact ih
    · exact h₁
    · exact h₂

/-- A scan for the closing parenthesis passes the lexemes. -/
def Neutral (ls : List Lexeme) : Prop :=
  ∀ depth rest, arrowBehind depth (ls.map Lexeme.kind ++ rest) = arrowBehind depth rest

/-- Neither an opening nor a closing parenthesis. -/
def Kind.noParen (k : Kind) : Prop :=
  k ≠ .lparen ∧ k ≠ .rparen

instance : DecidablePred Kind.noParen := fun k =>
  inferInstanceAs (Decidable (k ≠ .lparen ∧ k ≠ .rparen))

namespace Neutral

variable {ls ms : List Lexeme} {lss : List (List Lexeme)}

theorem nil : Neutral [] := fun _ _ => rfl

theorem append (hl : Neutral ls) (hm : Neutral ms) : Neutral (ls ++ ms) := by
  intro depth rest
  rw [List.map_append, List.append_assoc, hl, hm]

theorem of_noParen (h : ∀ l ∈ ls, l.kind.noParen) : Neutral ls := by
  induction ls with
  | nil => exact nil
  | cons l ls ih =>
    intro depth rest
    obtain ⟨h₁, h₂⟩ := h l List.mem_cons_self
    rw [List.map_cons, List.cons_append, arrowBehind]
    · exact ih (fun m hm => h m (List.mem_cons_of_mem l hm)) depth rest
    · exact h₁
    · exact h₂

theorem kw (k : Keyword) : Neutral [.kw k] := of_noParen (by simp [Kind.noParen])

theorem sym {s : Symbol} (h : (Kind.symbol s).noParen := by decide) : Neutral [.sym s] :=
  of_noParen (by simpa using h)

theorem parens (h : Neutral ls) : Neutral ([.sym .lparen] ++ ls ++ [.sym .rparen]) := by
  intro depth rest
  rw [List.map_append, List.map_append, List.append_assoc, List.append_assoc]
  show arrowBehind (depth + 1) (ls.map Lexeme.kind ++ ([Kind.rparen] ++ rest)) = _
  rw [h]
  rfl

theorem append_parens (hl : Neutral ls) (hm : Neutral ms) :
    Neutral (ls ++ [.sym .lparen] ++ ms ++ [.sym .rparen]) := by
  simpa only [List.append_assoc] using hl.append hm.parens

theorem enclosed (c : Bool) (h : Neutral ls) : Neutral (Ambient.enclosed c ls) := by
  cases c
  · exact h
  · exact h.parens

theorem when (c : Bool) (h : Neutral ls) : Neutral (lexemesIf c ls) := by
  cases c
  · exact nil
  · exact h

theorem separated {s : Symbol} (hs : (Kind.symbol s).noParen) (h : ∀ ls ∈ lss, Neutral ls) :
    Neutral (Ambient.separated s lss) := by
  induction lss with
  | nil => exact nil
  | cons x xs ih =>
    have ih' := ih fun y hy => h y (List.mem_cons_of_mem x hy)
    cases xs with
    | nil => exact h x List.mem_cons_self
    | cons y xs => exact ((h x List.mem_cons_self).append (sym hs)).append ih'

theorem angled (h : ∀ ls ∈ lss, Neutral ls) : Neutral (angledLexemes lss) := by
  cases lss with
  | nil => exact nil
  | cons x xs => exact ((sym).append (separated (by decide) h)).append sym

theorem flatten (h : ∀ ls ∈ lss, Neutral ls) : Neutral lss.flatten := by
  induction lss with
  | nil => exact nil
  | cons x xs ih =>
    exact (h x List.mem_cons_self).append (ih fun y hy => h y (List.mem_cons_of_mem x hy))

theorem documented {d : Option String} (h : Neutral ls) : Neutral (Ambient.documented d ls) := by
  cases ls with
  | nil => exact h
  | cons l ls => exact h

/-- Closed parentheses among the lexemes. -/
theorem of_closesParens (h : closesParens 0 (ls.map Lexeme.kind) = true) : Neutral ls := by
  have passes (ks : List Kind) (opened : Nat) (hk : closesParens opened ks = true) (depth : Nat)
      (rest : List Kind) : arrowBehind (depth + opened) (ks ++ rest) = arrowBehind depth rest := by
    induction ks generalizing opened with
    | nil =>
      obtain rfl : opened = 0 := by simpa [closesParens] using hk
      rfl
    | cons k ks ih =>
      by_cases h₁ : k = .lparen
      · subst h₁
        exact ih (opened + 1) hk
      by_cases h₂ : k = .rparen
      · subst h₂
        rw [closesParens, Bool.and_eq_true, bne_iff_ne] at hk
        obtain ⟨o, rfl⟩ := Nat.exists_eq_succ_of_ne_zero hk.1
        exact ih o hk.2
      · rw [closesParens] at hk
        rw [List.cons_append, arrowBehind]
        · exact ih opened hk
        · exact h₁
        · exact h₂
        · exact h₁
        · exact h₂
  intro depth rest
  exact passes _ 0 h depth rest

/-- The parentheses are closed if a scan for the closing one passes the lexemes. -/
theorem closesParens (h : Neutral ls) : Ambient.closesParens 0 (ls.map Lexeme.kind) = true := by
  have closed (ks : List Kind) (opened : Nat)
      (hk : ∀ rest, arrowBehind opened (ks ++ rest) = arrowBehind 0 rest) :
      Ambient.closesParens opened ks = true := by
    induction ks generalizing opened with
    | nil =>
      cases opened with
      | zero => rfl
      | succ o => exact absurd (hk [.rparen, .arrow]) (by cases o <;> simp [arrowBehind])
    | cons k ks ih =>
      by_cases h₁ : k = .lparen
      · subst h₁
        exact ih (opened + 1) hk
      by_cases h₂ : k = .rparen
      · subst h₂
        cases opened with
        | succ o => exact ih o hk
        | zero =>
          -- An arrow would follow behind the lexemes, whatever stands there, or never.
          have h₃ : (ks ++ []).head? ≠ some .arrow := by simpa [arrowBehind] using hk []
          have h₄ : (ks ++ [Kind.rparen, Kind.arrow]).head? = some .arrow := by
            simpa [arrowBehind] using hk [.rparen, .arrow]
          cases ks with
          | nil => simp at h₄
          | cons k ks => exact absurd h₄ h₃
      · rw [Ambient.closesParens]
        · refine ih opened fun rest => ?_
          rw [← hk rest, List.cons_append, arrowBehind]
          · exact h₁
          · exact h₂
        · exact h₁
        · exact h₂
  exact closed _ 0 (h 0)

end Neutral

/-! ## Names -/

theorem Kind.noParen_of_wordText? {k : Kind} {s : String} (h : k.wordText? = some s) :
    k.noParen := by
  constructor <;> rintro rfl <;> simp [wordText?] at h

theorem Names.noParen {k : Kind} {s : String} (h : Names k s) : k.noParen := by
  rcases h with h | rfl | ⟨v, rfl, -⟩
  · exact Kind.noParen_of_wordText? h
  · simp [Kind.noParen]
  · simp [Kind.noParen]

theorem Word.neutral {s : String} (h : Word s) : Neutral (lexemesOf s) := by
  obtain ⟨l, hl, -, hk⟩ := h.lexeme
  rw [hl]
  exact .of_noParen (by simpa using Kind.noParen_of_wordText? hk)

theorem DottedPath.neutral {s : String} (h : DottedPath s) : Neutral (lexemesOf s) := by
  obtain ⟨a, ws, ps, k, ks, -, -, hs, -, hka, hk, hw, -⟩ := Dotted.kept (fun _ => Binder.word) h
  refine .of_noParen fun l hl => ?_
  have hmem : l.kind ∈ k :: trailKinds ks := by
    rw [← hk, ← hs.map_kind]
    exact List.mem_map_of_mem hl
  simp only [trailKinds, List.mem_cons, List.mem_flatMap, List.not_mem_nil, or_false] at hmem
  rcases hmem with h | ⟨k', hk', h | h⟩
  · rw [h]
    exact Kind.noParen_of_wordText? hka
  · rw [h]
    exact ⟨by simp, by simp⟩
  · have hsome : k'.wordText? ∈ ws.map some := hw ▸ List.mem_map_of_mem hk'
    obtain ⟨w, -, hw'⟩ := List.mem_map.1 hsome
    rw [h]
    exact Kind.noParen_of_wordText? hw'.symm

theorem DottedPath.of_typeName {s : String} (h : TypeName s) : DottedPath s :=
  Dotted.imp (fun _ => Ident.binder) h

theorem MemberName.neutral {s : String} (h : MemberName s) : Neutral (lexemesOf s) := by
  rcases h.cases with ⟨l, hl, -, hk⟩ | ⟨hc, -⟩
  · rw [hl]
    exact .of_noParen (by simpa using hk.noParen)
  · exact .of_closesParens (Verbatim.lexemes hc).1.2.2

theorem ParamName.neutral {s : String} (h : ParamName s) : Neutral (lexemesOf s) := by
  rcases h.cases with ⟨l, hl, -, hk⟩ | ⟨hc, -⟩
  · rw [hl]
    exact .of_noParen (by simpa using hk.noParen)
  · exact .of_closesParens (Verbatim.lexemes hc).1.2.2

theorem Query.neutral {s : String} (h : Query s) : Neutral (lexemesOf s) := by
  rcases h with h | ⟨-, -, h, -⟩
  · exact h.neutral
  · exact .of_closesParens h

theorem Subject.word {s : String} (h : Subject s) : Word s := by
  rcases h with h | rfl
  · exact h.word
  · exact .inr ⟨.thisKw, rfl⟩

theorem SignedNumber.neutral {s : String} (h : SignedNumber s) : Neutral (lexemesOf s) := by
  rcases h with h | ⟨n, h, rfl⟩
  · rw [Spelled.lexemesOf_eq h]
    exact .of_noParen (by simp [Kind.noParen])
  · rw [h.kept_minus.lexemesOf_eq]
    exact .of_noParen (by simp [Kind.noParen, gather, lexemesOfTokens, Lexeme.ofToken])

theorem Neutral.visibility (v : Visibility) : Neutral v.lexemes := by
  cases v <;> exact .of_noParen (by simp [Visibility.lexemes, Kind.noParen])

theorem Neutral.modifiers (m : MemberModifiers) : Neutral m.lexemes :=
  ((Neutral.visibility _).append (.when _ (.kw _))).append (.when _ (.kw _))

/-! ## Types -/

mutual

/-- **Parentheses are balanced in a type.** -/
theorem Ty.neutral : (t : Ty) → t.Legible → Neutral t.lexemes
  | .named name args, h => by
    rw [Ty.Legible] at h
    rw [Ty.lexemes]
    exact (DottedPath.of_typeName h.1).neutral.append (.angled (neutral_tys args h.2))
  | .primitive p, _ => .kw _
  | .stringLiteral s, _ => .of_noParen (by simp [Ty.lexemes, Kind.noParen])
  | .numberLiteral text, h => by
    rw [Ty.Legible] at h
    exact h.neutral
  | .booleanLiteral b, _ => .kw _
  | .union ts, h => by
    rw [Ty.Legible] at h
    rw [Ty.lexemes]
    exact .separated (by decide) (neutral_operands _ ts h.2.2)
  | .intersection ts, h => by
    rw [Ty.Legible] at h
    rw [Ty.lexemes]
    exact .separated (by decide) (neutral_operands _ ts h.2.2)
  | .function sig result, h => by
    rw [Ty.Legible] at h
    rw [Ty.lexemes]
    exact ((sig.neutral h.2.1).append .sym).append (result.neutral h.2.2)
  | .constructor isAbstract sig result, h => by
    rw [Ty.Legible] at h
    rw [Ty.lexemes]
    exact ((((Neutral.kw _).when _).append (.kw _)).append (sig.neutral h.1)).append .sym |>.append
      (result.neutral h.2)
  | .object members, h => by
    rw [Ty.Legible] at h
    rw [Ty.lexemes]
    exact ((Neutral.sym).append (.flatten (neutral_members members h.2))).append .sym
  | .array t, h => by
    rw [Ty.Legible] at h
    rw [Ty.lexemes]
    exact ((t.neutral h.2).enclosed _).append ((Neutral.sym).append .sym)
  | .tuple es, h => by
    rw [Ty.Legible] at h
    rw [Ty.lexemes]
    exact ((Neutral.sym).append (.separated (by decide) (neutral_elements es h))).append .sym
  | .typeOf value, h => by
    rw [Ty.Legible] at h
    rw [Ty.lexemes]
    exact (Neutral.kw _).append h.neutral
  | .keyOf t, h => by
    rw [Ty.Legible] at h
    rw [Ty.lexemes]
    exact (Neutral.kw _).append ((t.neutral h.2).enclosed _)
  | .operator op t, h => by
    rw [Ty.Legible] at h
    rw [Ty.lexemes]
    refine Neutral.append ?_ ((t.neutral h.2.2).enclosed _)
    cases op <;> exact .of_noParen (by simp [TypeOperator.lexeme, Kind.noParen])
  | .indexAccess object index, h => by
    rw [Ty.Legible] at h
    rw [Ty.lexemes]
    exact (((object.neutral h.1.2).enclosed _).append .sym).append (index.neutral h.2.2) |>.append
      .sym
  | .conditional check super yes no, h => by
    rw [Ty.Legible] at h
    rw [Ty.lexemes]
    exact (((((((check.neutral h.1.2).enclosed _).append (.kw _)).append
      ((super.neutral h.2.1.2).enclosed _)).append .sym).append
      (yes.neutral h.2.2.1.2)).append .sym).append (no.neutral h.2.2.2.2)
  | .mapped key constraint name value readonly optional, h => by
    rw [Ty.Legible] at h
    rw [Ty.lexemes]
    have hsign (m : MappedModifier) : Neutral m.lexemes := by
      cases m <;> exact .of_noParen (by simp [MappedModifier.lexemes, Kind.noParen])
    have hr : Neutral (readonly.elim [] (fun m => m.lexemes ++ [.kw .readonlyKw])) := by
      cases readonly with
      | none => exact .nil
      | some m => exact (hsign m).append (.kw _)
    have ho : Neutral (optional.elim [] (fun m => m.lexemes ++ [.sym .question])) := by
      cases optional with
      | none => exact .nil
      | some m => exact (hsign m).append .sym
    exact ((((((((((Neutral.sym).append hr).append .sym).append h.1.neutral).append (.kw _)).append
      (constraint.neutral h.2.1.2)).append (neutral_opt (.kw _) name h.2.2.1)).append .sym).append
      ho).append .sym).append (value.neutral h.2.2.2.2) |>.append ((Neutral.sym).append .sym)
  | .infer name, h => by
    rw [Ty.Legible] at h
    rw [Ty.lexemes]
    exact (Neutral.kw _).append h.word.neutral
  | .template text, h => by
    rw [Ty.Legible] at h
    rw [Ty.lexemes, h.lexemesOf_eq]
    exact .of_noParen (by simp [Kind.noParen])
  | .imported module qualifier args, h => by
    rw [Ty.Legible] at h
    rw [Ty.lexemes]
    have hm : Neutral ([.kw .importKw] ++ ([.sym .lparen] ++ [{ kind := .string module }] ++
        [.sym .rparen])) :=
      (Neutral.kw _).append (.parens (.of_noParen (by simp [Kind.noParen])))
    refine (Neutral.append hm ?_).append (.angled (neutral_tys args h.2))
    cases qualifier with
    | none => exact .nil
    | some q => exact (Neutral.sym).append (h.1 q rfl).neutral
  | .predicate asserts subject ty, h => by
    rw [Ty.Legible] at h
    rw [Ty.lexemes]
    refine (Neutral.append (.when _ ?_) h.1.word.neutral).append (neutral_opt (.kw _) ty h.2.2)
    exact .of_noParen (by simp [Kind.noParen])
  | .parenthesized t, h => by
    rw [Ty.Legible] at h
    exact (t.neutral h.2).parens
  | .this, _ => .kw _

theorem neutral_tys : (ts : List Ty) → legibleTys ts → ∀ ls ∈ lexemesTys ts, Neutral ls
  | [], _ => by simp [lexemesTys]
  | t :: ts, h => by
    rw [legibleTys] at h
    rw [lexemesTys, List.forall_mem_cons]
    exact ⟨t.neutral h.1.2, neutral_tys ts h.2⟩

theorem neutral_operands (loose : Ty → Bool) : (ts : List Ty) → legibleTys ts →
    ∀ ls ∈ lexemesOperands loose ts, Neutral ls
  | [], _ => by simp [lexemesOperands]
  | t :: ts, h => by
    rw [legibleTys] at h
    rw [lexemesOperands, List.forall_mem_cons]
    exact ⟨(t.neutral h.1.2).enclosed _, neutral_operands loose ts h.2⟩

theorem neutral_opt {l : Lexeme} (hl : Neutral [l]) : (t : Option Ty) → legibleOpt t →
    Neutral (lexemesOpt l t)
  | none, _ => .nil
  | some t, h => by
    rw [legibleOpt] at h
    exact hl.append (t.neutral h.2)

theorem neutral_result : (t : Option Ty) → legibleResult t → Neutral (lexemesOpt (.sym .colon) t)
  | none, _ => .nil
  | some t, h => by
    rw [legibleResult] at h
    exact (Neutral.sym).append (t.neutral h)

theorem Signature.neutral : (sig : Signature) → sig.Legible → Neutral sig.lexemes
  | ⟨typeParams, receiver, params⟩, h => by
    rw [Signature.Legible] at h
    rw [Signature.lexemes]
    refine Neutral.append_parens (.angled (neutral_typeParams typeParams h.1))
      (.separated (by decide) fun ls hls => ?_)
    rcases List.mem_append.1 hls with hls | hls
    · exact neutral_receiver receiver h.2.1 ls hls
    · exact neutral_params params h.2.2 ls hls

theorem neutral_receiver : (t : Option Ty) → legibleOpt t → ∀ ls ∈ lexemesReceiver t, Neutral ls
  | none, _ => by simp [lexemesReceiver]
  | some t, h => by
    rw [legibleOpt] at h
    rw [lexemesReceiver, List.forall_mem_singleton]
    exact ((Neutral.kw .thisKw).append .sym).append (t.neutral h.2)

theorem neutral_typeParams : (ps : List TypeParam) → legibleTypeParams ps →
    ∀ ls ∈ lexemesTypeParams ps, Neutral ls
  | [], _ => by simp [lexemesTypeParams]
  | ⟨name, modifiers, constraint, default⟩ :: ps, h => by
    rw [legibleTypeParams, TypeParam.Legible] at h
    rw [lexemesTypeParams, List.forall_mem_cons, TypeParam.lexemes]
    refine ⟨?_, neutral_typeParams ps h.2⟩
    exact ((Neutral.append (.of_noParen (by simp [Kind.noParen])) h.1.1.word.neutral).append
      (neutral_opt (.kw _) constraint h.1.2.2.1)).append (neutral_opt .sym default h.1.2.2.2)

theorem neutral_params : (ps : List Param) → legibleParams ps →
    ∀ ls ∈ lexemesParams ps, Neutral ls
  | [], _ => by simp [lexemesParams]
  | ⟨name, ty, optional, rest⟩ :: ps, h => by
    rw [legibleParams, Param.Legible] at h
    rw [lexemesParams, List.forall_mem_cons, Param.lexemes]
    refine ⟨?_, neutral_params ps h.2⟩
    exact ((((Neutral.sym).when rest).append h.1.1.neutral).append ((Neutral.sym).when _)).append
      (neutral_opt .sym ty h.1.2.2)

theorem neutral_elements : (es : List TupleElement) → legibleElements es →
    ∀ ls ∈ lexemesElements es, Neutral ls
  | [], _ => by simp [lexemesElements]
  | ⟨some name, ty, optional, rest⟩ :: es, h => by
    rw [legibleElements, TupleElement.Legible] at h
    rw [lexemesElements, List.forall_mem_cons, TupleElement.lexemes]
    refine ⟨?_, neutral_elements es h.2⟩
    exact ((Neutral.sym).when _).append ((((h.1.1 name rfl).neutral.append
      ((Neutral.sym).when _)).append .sym).append (ty.neutral h.1.2.2))
  | ⟨none, ty, optional, rest⟩ :: es, h => by
    rw [legibleElements, TupleElement.Legible] at h
    rw [lexemesElements, List.forall_mem_cons, TupleElement.lexemes]
    refine ⟨?_, neutral_elements es h.2⟩
    exact ((Neutral.sym).when _).append ((ty.neutral h.1.2.2).append ((Neutral.sym).when _))

theorem neutral_members : (ms : List Member) → legibleMembers ms →
    ∀ ls ∈ lexemesMembers ms, Neutral ls
  | [], _ => by simp [lexemesMembers]
  | ⟨doc, shape⟩ :: ms, h => by
    rw [legibleMembers, Member.Legible] at h
    rw [lexemesMembers, List.forall_mem_cons, Member.lexemes]
    exact ⟨(shape.neutral h.1.2).documented.append .sym, neutral_members ms h.2⟩

theorem MemberShape.neutral : (m : MemberShape) → m.Legible → Neutral m.lexemes
  | .property name ty optional readonly, h => by
    rw [MemberShape.Legible] at h
    rw [MemberShape.lexemes]
    exact ((((Neutral.kw _).when _).append h.1.1.neutral).append ((Neutral.sym).when _)).append
      (neutral_opt .sym ty h.2)
  | .method name optional sig result, h => by
    rw [MemberShape.Legible] at h
    rw [MemberShape.lexemes]
    exact ((h.1.1.neutral.append ((Neutral.sym).when _)).append (sig.neutral h.2.2.1)).append
      (neutral_result result h.2.2.2)
  | .call sig result, h => by
    rw [MemberShape.Legible] at h
    exact (sig.neutral h.1).append (neutral_result result h.2)
  | .construct typeParams params result, h => by
    rw [MemberShape.Legible] at h
    rw [MemberShape.lexemes]
    exact (Neutral.append_parens ((Neutral.kw _).append
      (.angled (neutral_typeParams typeParams h.1)))
      (.separated (by decide) (neutral_params params h.2.1))).append (neutral_result result h.2.2)
  | .index sig, h => by
    rw [MemberShape.Legible] at h
    exact sig.neutral h.2
  | .accessor a, h => by
    rw [MemberShape.Legible] at h
    exact a.neutral h.2

theorem IndexSignature.neutral : (sig : IndexSignature) → sig.Legible → Neutral sig.lexemes
  | ⟨key, keyType, valueType, readonly, isStatic⟩, h => by
    rw [IndexSignature.Legible] at h
    rw [IndexSignature.lexemes]
    exact (((((((Neutral.kw _).when _).append ((Neutral.kw _).when _)).append .sym).append
      h.1.neutral).append .sym).append (keyType.neutral h.2.1.2)).append
      ((Neutral.sym).append .sym) |>.append (valueType.neutral h.2.2.2)

theorem Accessor.neutral : (a : Accessor) → a.Legible → Neutral a.lexemes
  | ⟨name, kind, params, result, modifiers⟩, h => by
    rw [Accessor.Legible] at h
    rw [Accessor.lexemes]
    have hk : Neutral [kind.lexeme] := by
      cases kind <;> exact .of_noParen (by simp [AccessorKind.lexeme, Kind.noParen])
    exact (Neutral.append_parens (((Neutral.modifiers _).append hk).append h.1.neutral)
      (.separated (by decide) (neutral_params params h.2.1))).append (neutral_result result h.2.2)

end

end Ambient
