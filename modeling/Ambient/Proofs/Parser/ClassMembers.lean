import Ambient.Parser.Decl
import Ambient.Proofs.Parser.Members
import Ambient.Proofs.Tree.LegibleDecl
import Ambient.Proofs.Tree.RereadDecl

/-!
# Reading members of classes

The modifiers of a class member are taken one by one (`takes_classWords`). Behind them the members
are told apart as those of interfaces are, and a constructor by its name and parenthesis.
-/

namespace Ambient

/-! ## Modifiers -/

section Words

variable {w w' : ClassMemberWords} {l : Lexeme} {ls ws : List Lexeme}

/-- The modifiers behind some that are known. -/
def Parser.classWords (w : ClassMemberWords) : Parser ClassMemberWords := fun c =>
  .ok ((classMemberWords w c.rest).1, { c with rest := (classMemberWords w c.rest).2 })

@[simp] theorem kindAt_documented_self (d : Option String) (ls : List Lexeme) (n : Nat) :
    kindAt (documented d ls) n = kindAt ls n := by
  have h := kindAt_documented d ls [] n
  rwa [List.append_nil, List.append_nil] at h

theorem kind_head? {ts : List Token} (h : List.Forall₂ Lexeme.Describes ls ts) :
    (ts.head?.map Token.kind).getD .eof = kindAt ls 0 := by
  cases h with
  | nil => rfl
  | cons hl _ => exact hl.1

/-- A modifier is taken if the token behind it can follow one. -/
theorem takes_classWords_cons {us : List Lexeme} {v : ClassMemberWords}
    (hl : w.add? l.kind = some w') (hf : (kindAt ls 0).followsModifier = true)
    (h : Takes (Parser.classWords w') ls v us) : Takes (Parser.classWords w) (l :: ls) v us := by
  intro c hc
  obtain ⟨hrest, heof⟩ := hc
  cases hr : c.rest with
  | nil =>
    rw [hr] at hrest
    cases hrest
  | cons t ts =>
    rw [hr] at hrest
    cases hrest with
    | cons ht hts =>
      obtain ⟨c', hc', hs⟩ := h ⟨ts, c.eof⟩ ⟨hts, heof⟩
      have heq : classMemberWords w (t :: ts) = classMemberWords w' ts := by
        rw [classMemberWords, kind_head? hts, if_pos hf, ht.1, hl]
      refine ⟨c', ?_, hs⟩
      rw [Parser.classWords, hr, heq]
      exact hc'

/-- No modifier is taken where none stands, or where a name must be meant. -/
theorem takes_classWords_nil
    (h : (kindAt ls 1).followsModifier = true → w.add? (kindAt ls 0) = none) :
    Takes (Parser.classWords w) ls w ls := by
  intro c hc
  have heq : classMemberWords w c.rest = (w, c.rest) := by
    obtain ⟨hrest, -⟩ := hc
    generalize c.rest = ts at hrest
    cases hrest with
    | nil => rfl
    | cons ht hts =>
      rw [kindAt_cons_zero, kindAt_cons_succ] at h
      rw [classMemberWords, kind_head? hts]
      split
      · rename_i hf
        rw [ht.1, h hf]
      · rfl
  exact ⟨c, by rw [Parser.classWords, heq], hc⟩

/-- **Modifiers are read up to what is none.** The documentation before them is not kept. -/
theorem takes_classWords (h : ws.foldlM (fun w l => ClassMemberWords.add? w l.kind) w = some w')
    (hws : ∀ l ∈ ws, l.kind.followsModifier = true)
    (hls : (kindAt ls 0).followsModifier = true)
    (hstop : (kindAt ls 1).followsModifier = true → w'.add? (kindAt ls 0) = none)
    (d : Option String) :
    ∃ d', Takes (Parser.classWords w) (documented d (ws ++ ls)) w' (documented d' ls) := by
  induction ws generalizing w d with
  | nil =>
    obtain rfl : w = w' := by simpa using h
    exact ⟨d, takes_classWords_nil (by simpa using hstop)⟩
  | cons l ws ih =>
    rw [List.foldlM_cons] at h
    obtain ⟨w₁, hl, h⟩ := Option.bind_eq_some_iff.1 h
    obtain ⟨d₀, hd₀⟩ := exists_documented (ws ++ ls)
    obtain ⟨d', hd'⟩ := ih h (fun l hl => hws l (List.mem_cons_of_mem _ hl)) d₀
    rw [hd₀] at hd'
    refine ⟨d', takes_classWords_cons hl ?_ hd'⟩
    cases ws with
    | nil => exact hls
    | cons l' ws => exact hws l' (by simp)

/-- The words before a member with some modifiers. -/
theorem MemberModifiers.foldlM_add? (m : MemberModifiers) (readonly : Bool) :
    (m.lexemes ++ lexemesIf readonly [.kw .readonlyKw]).foldlM
      (fun w l => ClassMemberWords.add? w l.kind) {} = some ⟨m, readonly⟩ := by
  obtain ⟨v, st, ab⟩ := m
  cases v <;> cases st <;> cases ab <;> cases readonly <;> rfl

theorem MemberModifiers.followsModifier (m : MemberModifiers) (readonly : Bool) :
    ∀ l ∈ m.lexemes ++ lexemesIf readonly [.kw .readonlyKw], l.kind.followsModifier = true := by
  obtain ⟨v, st, ab⟩ := m
  cases v <;> cases st <;> cases ab <;> cases readonly <;> decide

end Words

/-! ## Members by their kind -/

variable {m n : Nat} {ty : TyReader} {us ms ls : List Lexeme} {w : ClassMemberWords}
variable {v : Option ClassMemberShape} {b : Bool}

/-- A member behind its documentation and its modifiers. -/
def Parser.classShapeBehind (n : Nat) (ty : TyReader) (w : ClassMemberWords) :
    Parser (Option ClassMemberShape) := do
  let k₀ ← peek
  let k₁ ← peekAt 1
  if k₀ = .ident "constructor" ∧ k₁ = .lparen then
    some <$> classConstructor n ty w.modifiers.visibility
  else if ← atIndexSignature then
    let sig ← indexSignature ty w.readonly w.modifiers.isStatic
    pure (some (.index sig))
  else if ← atAccessor then
    let a ← accessor n ty w.modifiers
    pure (some (.accessor a))
  else namedClassMember n ty w

theorem Parser.classMemberShape_eq :
    classMemberShape n ty = classWords {} >>= classShapeBehind n ty := rfl

/-- A member behind its modifiers. -/
theorem takes_classMemberShape (modifiers : MemberModifiers) (readonly : Bool)
    (hls : (kindAt ls 0).followsModifier = true)
    (hstop : (kindAt ls 1).followsModifier = true →
      ClassMemberWords.add? ⟨modifiers, readonly⟩ (kindAt ls 0) = none)
    (hv : ∀ d, Reads false b (Parser.classShapeBehind n ty ⟨modifiers, readonly⟩)
      (documented d ls) v ms) (d : Option String) :
    Reads false b (Parser.classMemberShape n ty)
      (documented d (modifiers.lexemes ++ lexemesIf readonly [.kw .readonlyKw] ++ ls)) v ms := by
  obtain ⟨d', hd'⟩ := takes_classWords (modifiers.foldlM_add? readonly)
    (modifiers.followsModifier readonly) hls hstop d
  rw [Parser.classMemberShape_eq]
  exact hd'.then (hv d')

/-- A property or method is not taken for another kind of member. -/
theorem takes_classShapeBehind_named {name : String} {rest : List Lexeme} (h : PropertyName name)
    (hrest : (kindAt rest 0).followsModifier = false)
    (hctor : name = "constructor" → kindAt rest 0 ≠ .lparen) {d : Option String}
    (hv : Reads false b (Parser.namedClassMember n ty w)
      (documented d (lexemesOf name) ++ rest) v ms) :
    Reads false b (Parser.classShapeBehind n ty w) (documented d (lexemesOf name) ++ rest) v
      ms := by
  have hf := h.front d hrest
  refine Takes.then takes_peek (Takes.then (takes_peekAt 1) ?_)
  -- The constructor is told first, by its name and the parenthesis behind it.
  rw [if_neg]
  · refine Takes.then takes_atIndexSignature ?_
    rw [hf.index, if_neg Bool.false_ne_true]
    refine Takes.then takes_atAccessor ?_
    rw [hf.accessor, if_neg Bool.false_ne_true]
    exact hv
  · rintro ⟨h₀, h₁⟩
    have hw := hf.word (by rw [h₀]; rfl)
    rw [h₀] at hw
    have hname : name = "constructor" := (Option.some.inj hw).symm
    rw [kindAt_documented] at h₀ h₁
    rcases h.1.front rest with ⟨-, hk⟩ | ⟨hk, -⟩
    · rw [hk] at h₁
      exact hctor hname h₁
    · rw [hk] at h₀
      simp at h₀

/-- A named member behind its modifiers. -/
theorem takes_classMemberShape_named {name : String} {rest : List Lexeme} (h : PropertyName name)
    (hrest : (kindAt rest 0).followsModifier = false)
    (hctor : name = "constructor" → kindAt rest 0 ≠ .lparen) (modifiers : MemberModifiers)
    (readonly : Bool)
    (hv : ∀ d, Reads false b (Parser.namedClassMember n ty ⟨modifiers, readonly⟩)
      (documented d (lexemesOf name) ++ rest) v ms) (d : Option String) :
    Reads false b (Parser.classMemberShape n ty)
      (documented d (modifiers.lexemes ++ lexemesIf readonly [.kw .readonlyKw] ++
        (lexemesOf name ++ rest))) v ms := by
  refine takes_classMemberShape modifiers readonly (h.1.followsModifier rest) (fun hf => ?_)
    (fun d => ?_) d
  · rcases h.1.front rest with ⟨-, hk⟩ | ⟨hk, -⟩
    · rw [hk, hrest] at hf
      simp at hf
    · rw [hk]
      rfl
  · rw [documented_append h.1.ne_nil]
    exact takes_classShapeBehind_named h hrest hctor (hv d)

/-- A method of a class behind its modifiers. -/
theorem Reader.classMethod (hr : Reader m ty) (hn : m < n) {name : String} {optional : Bool}
    {sig : Signature} {result : Option Ty} {modifiers : MemberModifiers}
    (h : (ClassMemberShape.method name optional sig result modifiers).Legible)
    (hm : (ClassMemberShape.method name optional sig result modifiers).lexemes.length ≤ m)
    (hw : w.modifiers = modifiers) (d : Option String) :
    Reads false (sig.clear false && clearOpt false result) (Parser.namedClassMember n ty w)
      (documented d (lexemesOf name) ++ (lexemesIf optional [.sym .question] ++ (sig.lexemes ++
        (lexemesOpt (.sym .colon) result ++ (.sym .semicolon :: us)))))
      (some (.method name optional sig.reread (rereadOpt result) modifiers)) us := by
  simp only [ClassMemberShape.lexemes, List.length_append] at hm
  refine Takes.then (takes_memberName? h.1.1 d) ?_
  refine Takes.then (takes_acceptIf optional (kindAt_signature (P := (· ≠ .question)) sig _
    (by simp) (by simp))) ?_
  refine Takes.then (takes_accept_false (kindAt_signature (P := (· ≠ .symbol .bang)) sig _
    (by simp) (by simp))) (Takes.then takes_atSignature ?_)
  rw [startsSignature_signature, if_pos rfl]
  refine (hr.signature hn h.2.2.1 (by omega)).bind_false ?_
  rw [← Bool.and_true (clearOpt false result)]
  refine (hr.result?_end h.2.2.2 (by omega)).bind_false (Takes.reads (takes_endMember.bind ?_))
  rw [hw]
  exact .pure

/-- A property of a class behind its modifiers. -/
theorem Reader.classProperty (hr : Reader m ty) {name : String} {type : Option Ty}
    {optional readonly : Bool} {modifiers : MemberModifiers}
    (h : (ClassMemberShape.property name type optional readonly modifiers).Legible)
    (hm : (ClassMemberShape.property name type optional readonly modifiers).lexemes.length ≤ m)
    (d : Option String) :
    Reads false (clearOpt false type) (Parser.namedClassMember n ty ⟨modifiers, readonly⟩)
      (documented d (lexemesOf name) ++ (lexemesIf optional [.sym .question] ++
        (lexemesOpt (.sym .colon) type ++ (.sym .semicolon :: us))))
      (some (.property name (rereadOpt type) optional readonly modifiers)) us := by
  simp only [ClassMemberShape.lexemes, List.length_append] at hm
  have hne (y : Symbol) (hy : y ≠ .colon ∧ y ≠ .semicolon) :
      kindAt (lexemesOpt (.sym .colon) type ++ (.sym .semicolon :: us)) 0 ≠ .symbol y :=
    kindAt_opt (P := (· ≠ .symbol y)) type (by simpa using hy.1.symm) (by simpa using hy.2.symm)
  refine Takes.then (takes_memberName? h.1.1 d) ?_
  refine Takes.then (takes_acceptIf optional (hne _ (by decide))) ?_
  refine Takes.then (takes_accept_false (hne _ (by decide))) (Takes.then takes_atSignature ?_)
  have hs : startsSignature (lexemesOpt (.sym .colon) type ++ (.sym .semicolon :: us)) = false := by
    cases type <;> rfl
  rw [hs, if_neg Bool.false_ne_true, ← Bool.and_true (clearOpt false type)]
  refine (hr.opt h.2 rfl (by omega) rfl (by simp)).bind_false ?_
  exact Takes.reads ((takes_after?_none (by simp)).bind (takes_endMember.bind .pure))

/-- The constructor of a class behind its modifiers. -/
theorem Reader.classConstructor (hr : Reader m ty) (hn : m < n) {visibility : Visibility}
    {params : List Param} (h : (ClassMemberShape.constructor visibility params).Legible)
    (hm : (ClassMemberShape.constructor visibility params).lexemes.length ≤ m)
    (d : Option String) :
    Reads false (clearParams false params)
      (Parser.classShapeBehind n ty ⟨⟨visibility, false, false⟩, false⟩)
      (documented d ([{ kind := .ident "constructor" }, .sym .lparen] ++
        (separated .comma (lexemesParams params) ++ ([.sym .rparen] ++ (.sym .semicolon :: us)))))
      (some (.constructor visibility (rereadParams params))) us := by
  simp only [ClassMemberShape.lexemes, List.length_append, List.length_cons,
    List.length_nil] at hm
  refine Takes.then takes_peek (Takes.then (takes_peekAt 1) ?_)
  rw [if_pos (by exact ⟨rfl, rfl⟩)]
  refine Reads.map some (Takes.then takes_advance ?_)
  have hps : Reads false (clearParams false params) _ _ _ (.sym .semicolon :: us) :=
    hr.plainParams hn h (by omega)
  rw [← Bool.and_true (clearParams false params)]
  exact hps.bind_false (Takes.reads (takes_endMember.bind .pure))

/-- An index signature of a class behind its modifiers. -/
theorem Reader.classIndex (hr : Reader m ty) {key : String} {keyType valueType : Ty}
    {readonly isStatic : Bool}
    (h : (IndexSignature.mk key keyType valueType readonly isStatic).Legible)
    (hm : (IndexSignature.mk key keyType valueType readonly isStatic).lexemes.length ≤ m)
    (d : Option String) :
    Reads false (IndexSignature.mk key keyType valueType readonly isStatic).clear
      (Parser.classShapeBehind n ty ⟨⟨.everyone, isStatic, false⟩, readonly⟩)
      (documented d (.sym .lbracket :: (lexemesOf key ++ ([.sym .colon] ++ (keyType.lexemes ++
        ([.sym .rbracket, .sym .colon] ++ (valueType.lexemes ++ (.sym .semicolon :: us))))))))
      (some (.index (IndexSignature.mk key keyType valueType readonly isStatic).reread)) us := by
  have h' := h
  rw [IndexSignature.Legible] at h'
  obtain ⟨l, hl, -, hk⟩ := h'.1.lexeme
  have hw : l.kind.isWord = true := Kind.isWord_of_wordText hk
  refine Takes.then takes_peek (Takes.then (takes_peekAt 1) ?_)
  rw [if_neg (by simp)]
  refine Takes.then takes_atIndexSignature ?_
  rw [show startsIndex _ = true by simp [startsIndex, hl, hw], if_pos rfl,
    ← Bool.and_true (IndexSignature.clear _)]
  exact (hr.indexSignature rfl h hm).bind_false Takes.pure.reads

/-- An accessor of a class behind its modifiers. -/
theorem Reader.classAccessor (hr : Reader m ty) (hn : m < n) {name : String}
    {kind : AccessorKind} {params : List Param} {result : Option Ty} {modifiers : MemberModifiers}
    (h : (Accessor.mk name kind params result modifiers).Legible)
    (hm : (Accessor.mk name kind params result modifiers).lexemes.length ≤ m)
    (d : Option String) :
    Reads false (Accessor.mk name kind params result modifiers).clear
      (Parser.classShapeBehind n ty ⟨modifiers, false⟩)
      (documented d (kind.lexeme :: (lexemesOf name ++ ([.sym .lparen] ++
        (separated .comma (lexemesParams params) ++ ([.sym .rparen] ++
          (lexemesOpt (.sym .colon) result ++ (.sym .semicolon :: us))))))))
      (some (.accessor (Accessor.mk name kind params result modifiers).reread)) us := by
  have h' := h
  rw [Accessor.Legible] at h'
  have hacc : Reads false _ _ _ _ us :=
    hr.accessor (l := { kind.lexeme with doc := d }) hn rfl h hm
  refine Takes.then takes_peek (Takes.then (takes_peekAt 1) ?_)
  rw [if_neg (by cases kind <;> simp [AccessorKind.lexeme, AccessorKind.text])]
  refine Takes.then takes_atIndexSignature ?_
  have hbracket : kind.lexeme.kind ≠ .lbracket := kind.lexeme_ne rfl
  rw [startsIndex, kindAt_documented_self, kindAt_cons_zero, if_neg (by simp [hbracket])]
  refine Takes.then takes_atAccessor ?_
  rw [documented, kind.startsAccessor (l := { kind.lexeme with doc := d }) rfl
    (h'.1.followsModifier _), if_pos rfl, ← Bool.and_true (Accessor.clear _)]
  exact hacc.bind_false Takes.pure.reads

/-! ## Members -/

/-- **A member of a class behind its documentation.** -/
theorem Reader.classMemberShape (hr : Reader m ty) (hn : m < n) {s : ClassMemberShape}
    (h : s.Legible) (hm : s.lexemes.length ≤ m) (d : Option String) :
    Reads false s.clear (Parser.classMemberShape n ty)
      (documented d (s.lexemes ++ (.sym .semicolon :: us))) (some (s.rewritten .reread)) us := by
  cases s with
  | property name type optional readonly modifiers =>
    have hrest (P : Kind → Prop) (h₁ : P .question) (h₂ : P .colon) (h₃ : P .semicolon) :
        P (kindAt (lexemesIf optional [.sym .question] ++
          (lexemesOpt (.sym .colon) type ++ (.sym .semicolon :: us))) 0) :=
      kindAt_if optional h₁ (kindAt_opt type h₂ h₃)
    have hread : Reads false _ _ _ _ us := takes_classMemberShape_named h.1
      (hrest (fun k => k.followsModifier = false) rfl rfl rfl)
      (fun _ => hrest (· ≠ .lparen) (by simp) (by simp) (by simp)) modifiers readonly
      (fun d => hr.classProperty (n := n) h hm d) d
    simp only [ClassMemberShape.lexemes, List.append_assoc] at hread ⊢
    exact hread
  | method name optional sig result modifiers =>
    have hread : Reads false _ _ _ _ us := takes_classMemberShape_named h.1
      (kindAt_if (P := fun k => k.followsModifier = false) optional rfl
        (kindAt_signature (P := fun k => k.followsModifier = false) sig _ rfl rfl))
      ?_ modifiers false (fun d => hr.classMethod hn h hm rfl d) d
    · simp only [ClassMemberShape.lexemes, lexemesIf, Bool.false_eq_true, if_false,
        List.append_nil, List.append_assoc] at hread ⊢
      exact hread
    -- A method of the name `constructor` shows a question mark or type parameters instead of the
    -- parenthesis.
    · intro hname
      rcases h.2.1 hname with ho | ht
      · simp [ho, lexemesIf]
      · refine kindAt_if (P := (· ≠ .lparen)) optional (by simp) ?_
        obtain ⟨typeParams, receiver, params⟩ := sig
        cases typeParams with
        | nil => exact absurd rfl ht
        | cons p ps => simp [Signature.lexemes, lexemesTypeParams, angledLexemes]
  | constructor visibility params =>
    have hread : Reads false _ _ _ _ us := takes_classMemberShape ⟨visibility, false, false⟩ false
      (by simp [Kind.followsModifier]) (by simp [Kind.followsModifier])
      (fun d => hr.classConstructor hn h hm d) d
    simp only [ClassMemberShape.lexemes, MemberModifiers.lexemes, lexemesIf, Bool.false_eq_true,
      if_false, List.append_nil, List.append_assoc] at hread ⊢
    exact hread
  | index sig =>
    obtain ⟨key, keyType, valueType, readonly, isStatic⟩ := sig
    have hread : Reads false _ _ _ _ us := takes_classMemberShape ⟨.everyone, isStatic, false⟩
      readonly (by simp [Kind.followsModifier]) (by simp [ClassMemberWords.add?])
      (fun d => hr.classIndex (n := n) h hm d) d
    simp only [ClassMemberShape.lexemes, IndexSignature.lexemes, MemberModifiers.lexemes,
      Visibility.lexemes, lexemesIf, Bool.false_eq_true, if_false, List.append_nil,
      List.nil_append, List.append_assoc] at hread ⊢
    exact hread
  | accessor a =>
    obtain ⟨name, kind, params, result, modifiers⟩ := a
    have hread : Reads false _ _ _ _ us := takes_classMemberShape modifiers false
      (by rcases kind.lexeme_cases with hk | hk <;> simp [hk, Kind.followsModifier])
      (by rcases kind.lexeme_cases with hk | hk <;> simp [hk, ClassMemberWords.add?])
      (fun d => hr.classAccessor hn h hm d) d
    simp only [ClassMemberShape.lexemes, Accessor.lexemes, lexemesIf, Bool.false_eq_true,
      if_false, List.append_nil, List.append_assoc, List.cons_append, List.nil_append] at hread ⊢
    exact hread

theorem StartsWith.modifiers_append {P : Kind → Prop} (h : StartsWith P ls)
    (hP : ∀ k, P (.keyword k)) (modifiers : MemberModifiers) (readonly : Bool) :
    StartsWith P (modifiers.lexemes ++ (lexemesIf readonly [.kw .readonlyKw] ++ ls)) := by
  obtain ⟨v, st, ab⟩ := modifiers
  cases v <;> cases st <;> cases ab <;> cases readonly <;>
    first | exact h | exact ⟨_, _, rfl, hP _⟩

/-- A member of a class does not start like its terminator or like the end of the members. -/
theorem ClassMemberShape.startsWith {s : ClassMemberShape} (h : s.Legible) :
    StartsWith Kind.inMember s.lexemes := by
  have hkw (k : Keyword) : Kind.inMember (.keyword k) := by simp [Kind.inMember]
  cases s with
  | property name type optional readonly modifiers =>
    simp only [lexemes, List.append_assoc]
    exact (h.1.1.startsWith _).modifiers_append hkw modifiers readonly
  | method name optional sig result modifiers =>
    simp only [lexemes, List.append_assoc]
    exact (h.1.1.startsWith _).modifiers_append hkw modifiers false
  | constructor visibility params =>
    cases visibility <;> exact ⟨_, _, rfl, by simp [Kind.inMember]⟩
  | index sig =>
    obtain ⟨key, keyType, valueType, readonly, isStatic⟩ := sig
    simp only [lexemes, IndexSignature.lexemes, List.append_assoc]
    cases isStatic <;> cases readonly <;> exact ⟨_, _, rfl, by simp [Kind.inMember]⟩
  | accessor a =>
    obtain ⟨name, kind, params, result, modifiers⟩ := a
    simp only [lexemes, Accessor.lexemes, List.append_assoc]
    refine StartsWith.modifiers_append ⟨kind.lexeme, _, rfl, ?_⟩ hkw modifiers false
    exact ⟨kind.lexeme_ne rfl, kind.lexeme_ne rfl, kind.lexeme_ne rfl, kind.lexeme_ne rfl⟩

theorem ClassMember.startsWith {x : ClassMember} (h : x.Legible) :
    StartsWith Kind.inMember x.lexemes :=
  ((ClassMemberShape.startsWith h.shape).documented _).append _

/-- **A member of a class with its documentation and its terminator.** -/
theorem Reader.classMember (hr : Reader m ty) (hn : m < n) {x : ClassMember} (h : x.Legible)
    (hm : x.lexemes.length ≤ m) :
    Reads false x.clear (Parser.classMember n ty) (x.lexemes ++ us) (some (x.rewritten .reread))
      us := by
  obtain ⟨doc, shape⟩ := x
  obtain ⟨l, r, hl, hk⟩ := ClassMemberShape.startsWith h.shape
  have hlen : shape.lexemes.length ≤ m := by
    rw [ClassMember.lexemes, hl, documented] at hm
    rw [hl]
    simp only [List.length_append, List.length_cons] at hm ⊢
    omega
  have hshape : Reads false _ _ _ _ us := hr.classMemberShape hn h.shape hlen (doc.map rereadDoc)
  rw [ClassMember.lexemes, List.append_assoc]
  rw [hl, List.cons_append, documented] at hshape
  rw [hl, documented]
  refine Takes.then takes_peekDoc (Takes.then (takes_accept_false hk.1) ?_)
  rw [if_neg Bool.false_ne_true, ← Bool.and_true (ClassMember.clear _)]
  exact hshape.bind_false Takes.pure.reads

end Ambient
