import Ambient.Proofs.Parser.Signatures

/-!
# Reading members

Members of interfaces and object types are told apart by their first lexemes. The name of a
property or method is not taken for a modifier or for another kind of member, because what stands
behind it does not follow modifiers (`PropertyName.front`).
-/

namespace Ambient

section Fronts

variable {ls rest us : List Lexeme} {s : String}

@[simp] theorem kindAt_documented (d : Option String) (ls us : List Lexeme) (n : Nat) :
    kindAt (documented d ls ++ us) n = kindAt (ls ++ us) n := by
  cases ls with
  | nil => rfl
  | cons l ls => cases n <;> rfl

/-- Whether the lexemes start like an index signature. -/
def startsIndex (ls : List Lexeme) : Bool :=
  kindAt ls 0 == .lbracket && (kindAt ls 1).isWord && kindAt ls 2 == .colon

/-- Whether the lexemes start like a signature. -/
def startsSignature (ls : List Lexeme) : Bool :=
  kindAt ls 0 == .lparen || kindAt ls 0 == .langle

/-- Whether the lexemes start like an accessor. -/
def startsAccessor (ls : List Lexeme) : Bool :=
  (kindAt ls 0 == .ident "get" || kindAt ls 0 == .ident "set") && (kindAt ls 1).followsModifier

theorem takes_atIndexSignature : Takes Parser.atIndexSignature ls (startsIndex ls) ls :=
  takes_peek.bind ((takes_peekAt 1).bind ((takes_peekAt 2).bind .pure))

theorem takes_atSignature : Takes Parser.atSignature ls (startsSignature ls) ls :=
  takes_peek.bind .pure

theorem takes_atAccessor : Takes Parser.atAccessor ls (startsAccessor ls) ls :=
  takes_peek.bind ((takes_peekAt 1).bind .pure)

theorem takes_endMember : Takes Parser.endMember (.sym .semicolon :: us) () us :=
  (takes_accept rfl).bind .pure

theorem takes_readonlyModifier {l : Lexeme} (hl : l.kind = .keyword .readonlyKw)
    (h : (kindAt ls 0).followsModifier = true) :
    Takes Parser.readonlyModifier (l :: ls) true ls := by
  refine takes_peek.bind ((takes_peekAt 1).bind ?_)
  rw [kindAt_cons_zero, kindAt_cons_succ, if_pos ⟨hl, h⟩]
  exact takes_advance.bind .pure

theorem takes_readonlyModifier_none
    (h : kindAt ls 0 = .keyword .readonlyKw → (kindAt ls 1).followsModifier = false) :
    Takes Parser.readonlyModifier ls false ls := by
  refine takes_peek.bind ((takes_peekAt 1).bind ?_)
  rw [if_neg]
  · exact .pure
  · rintro ⟨h₀, h₁⟩
    simp [h h₀] at h₁

/-! ## Names of members -/

theorem Names.followsModifier {k : Kind} (h : Names k s) : k.followsModifier = true := by
  rcases h with h | rfl | ⟨v, rfl, -⟩
  · cases k <;> first | rfl | simp [Kind.wordText?] at h
  · rfl
  · rfl

theorem MemberName.front (h : MemberName s) (rest : List Lexeme) :
    Names (kindAt (lexemesOf s ++ rest) 0) s ∧
        kindAt (lexemesOf s ++ rest) 1 = kindAt rest 0 ∨
      kindAt (lexemesOf s ++ rest) 0 = .lbracket ∧ Computed s := by
  rcases h.cases with ⟨l, hl, -, hk⟩ | ⟨hc, l, r, hl, hk⟩
  · rw [hl]
    exact .inl ⟨hk, rfl⟩
  · rw [hl]
    exact .inr ⟨hk, hc⟩

/-- A name can follow a modifier. -/
theorem MemberName.followsModifier (h : MemberName s) (rest : List Lexeme) :
    (kindAt (lexemesOf s ++ rest) 0).followsModifier = true := by
  rcases h.front rest with ⟨hk, -⟩ | ⟨hk, -⟩
  · exact hk.followsModifier
  · rw [hk]
    rfl

theorem MemberName.ne_nil (h : MemberName s) : lexemesOf s ≠ [] := h.atom.ne_nil

/-- A computed name looks like an index signature on its own if at all. -/
theorem Computed.startsIndex_append (h : Computed s) (rest : List Lexeme) :
    startsIndex (lexemesOf s ++ rest) = isIndexLike s := by
  obtain ⟨⟨h₀, hc, -⟩, -⟩ := Verbatim.lexemes h
  rw [startsIndex, isIndexLike]
  match hl : lexemesOf s with
  | [] => simp [hl] at h₀
  | [l] =>
    have hk : l.kind = .lbracket := by simpa [hl] using h₀
    simp [hl, hk, closesName] at hc
  | [l, l'] =>
    have hk : l.kind = .lbracket := by simpa [hl] using h₀
    have hk' : l'.kind.isWord = false := by
      cases hw : l'.kind with
      | symbol y => rfl
      | _ => simp [hl, hk, hw, closesName] at hc
    simp [kindAt, hk']
  | l :: l' :: l'' :: r => simp [kindAt]

/-- Kinds that can start the name of a member. -/
def Kind.startsName (k : Kind) : Prop :=
  (∃ s, Names k s) ∨ k = .lbracket

theorem Kind.startsName.ne_symbol {k : Kind} (h : k.startsName) {y : Symbol}
    (hy : y ≠ .lbracket) : k ≠ .symbol y := by
  rcases h with ⟨s, h⟩ | rfl
  · exact h.ne_symbol y
  · simpa using hy.symm

theorem Kind.startsName.ne_eof {k : Kind} (h : k.startsName) : k ≠ .eof := by
  rcases h with ⟨s, h⟩ | rfl
  · rintro rfl
    simp [Names, Kind.wordText?] at h
  · simp

theorem MemberName.startsName (h : MemberName s) (rest : List Lexeme) :
    (kindAt (lexemesOf s ++ rest) 0).startsName := by
  rcases h.front rest with ⟨hk, -⟩ | ⟨hk, -⟩
  · exact .inl ⟨s, hk⟩
  · exact .inr hk

/-- **A name is not taken for a modifier or for the start of another kind of member.** -/
structure NameFront (s : String) (ls : List Lexeme) : Prop where
  readonly : kindAt ls 0 = .keyword .readonlyKw → (kindAt ls 1).followsModifier = false
  index : startsIndex ls = false
  signature : startsSignature ls = false
  accessor : startsAccessor ls = false
  word : (kindAt ls 0).isWord = true → (kindAt ls 0).wordText? = some s

theorem PropertyName.front (h : PropertyName s) (d : Option String)
    (hrest : (kindAt rest 0).followsModifier = false) :
    NameFront s (documented d (lexemesOf s) ++ rest) := by
  have hs := h.1.startsName rest
  have hsig : startsSignature (documented d (lexemesOf s) ++ rest) = false := by
    rw [startsSignature, kindAt_documented]
    simpa using ⟨hs.ne_symbol (by decide), hs.ne_symbol (by decide)⟩
  rcases h.1.front rest with ⟨hk, h₁⟩ | ⟨hk, hc⟩
  · have hbr : kindAt (lexemesOf s ++ rest) 0 ≠ .lbracket := hk.ne_symbol _
    refine ⟨?_, ?_, hsig, ?_, ?_⟩
    · rw [kindAt_documented, kindAt_documented, h₁]
      exact fun _ => hrest
    · rw [startsIndex, kindAt_documented]
      simp [hbr]
    · rw [startsAccessor, kindAt_documented, kindAt_documented, h₁, hrest, Bool.and_false]
    · rw [kindAt_documented]
      intro hw
      rcases hk with hk | hk | ⟨v, hk, -⟩
      · exact hk
      · rw [hk] at hw; simp [Kind.isWord, Kind.wordText?] at hw
      · rw [hk] at hw; simp [Kind.isWord, Kind.wordText?] at hw
  · refine ⟨?_, ?_, hsig, ?_, ?_⟩
    · rw [kindAt_documented, hk]
      simp
    · have := hc.startsIndex_append rest
      rw [h.2] at this
      simpa [startsIndex] using this
    · rw [startsAccessor, kindAt_documented, hk]
      rfl
    · rw [kindAt_documented, hk]
      simp [Kind.isWord, Kind.wordText?]

end Fronts

/-! ## Members by their kind -/

variable {m n : Nat} {ty : TyReader} {us : List Lexeme} {d : Option String}

/-- An index signature behind its modifiers. -/
theorem Reader.indexSignature (hr : Reader m ty) {sig : IndexSignature} {l : Lexeme}
    (hl : l.kind = .lbracket) (h : sig.Legible) (hm : sig.lexemes.length ≤ m) :
    Reads false sig.clear (Parser.indexSignature ty sig.readonly sig.isStatic)
      (l :: (lexemesOf sig.key ++ ([.sym .colon] ++ (sig.keyType.lexemes ++
        ([.sym .rbracket, .sym .colon] ++ (sig.valueType.lexemes ++ (.sym .semicolon :: us)))))))
      sig.reread us := by
  obtain ⟨key, keyType, valueType, readonly, isStatic⟩ := sig
  rw [IndexSignature.Legible] at h
  simp only [IndexSignature.lexemes, List.length_append] at hm
  refine Takes.then (takes_expect hl) (Takes.then (takes_propertyName h.1.memberName)
    (Takes.then (takes_expect rfl) ?_))
  rw [IndexSignature.clear]
  refine (hr.full h.2.1.2 h.2.1.1 (by omega) rfl).bind_false ?_
  refine Takes.then (takes_expect rfl) (Takes.then (takes_expect rfl) ?_)
  rw [← Bool.and_true (valueType.clear false)]
  refine (hr.full h.2.2.2 h.2.2.1 (by omega) rfl).bind_false ?_
  exact Takes.reads (takes_endMember.bind .pure)

theorem Reader.result?_end (hr : Reader m ty) {t : Option Ty} (h : legibleResult t)
    (hm : (lexemesOpt (.sym .colon) t).length ≤ m) :
    Reads false (clearOpt false t) (Parser.result? ty false)
      (lexemesOpt (.sym .colon) t ++ (.sym .semicolon :: us)) (rereadOpt t)
      (.sym .semicolon :: us) :=
  hr.result? h hm rfl (by simp)

/-- An accessor behind its modifiers. -/
theorem Reader.accessor (hr : Reader m ty) (hn : m < n) {a : Accessor} {l : Lexeme}
    (hl : l.kind = a.kind.lexeme.kind) (h : a.Legible) (hm : a.lexemes.length ≤ m) :
    Reads false a.clear (Parser.accessor n ty a.modifiers)
      (l :: (lexemesOf a.name ++ ([.sym .lparen] ++ (separated .comma (lexemesParams a.params) ++
        ([.sym .rparen] ++ (lexemesOpt (.sym .colon) a.result ++ (.sym .semicolon :: us)))))))
      a.reread us := by
  obtain ⟨name, kind, params, result, modifiers⟩ := a
  rw [Accessor.Legible] at h
  simp only [Accessor.lexemes, List.length_append] at hm
  refine Takes.then takes_peek (Takes.then takes_advance
    (Takes.then (takes_propertyName h.1) ?_))
  have hkind : (if l.kind = .ident "get" then AccessorKind.get else .set) = kind := by
    rw [hl]
    cases kind <;> simp [AccessorKind.lexeme, AccessorKind.text]
  rw [kindAt_cons_zero, Accessor.clear]
  have hps : Reads false (clearParams false params) _ _ _
      (lexemesOpt (.sym .colon) result ++ (.sym .semicolon :: us)) :=
    hr.plainParams hn h.2.1 (by simp only [List.length_cons, List.length_nil] at hm; omega)
  refine hps.bind_false ?_
  rw [← Bool.and_true (clearOpt false result)]
  refine (hr.result?_end h.2.2 (by omega)).bind_false (Takes.reads (takes_endMember.bind ?_))
  rw [hkind]
  exact .pure

/-- A construct signature. -/
theorem Reader.constructSignature (hr : Reader m ty) (hn : m < n) {typeParams : List TypeParam}
    {params : List Param} {result : Option Ty} {l : Lexeme}
    (h : (MemberShape.construct typeParams params result).Legible)
    (hm : (MemberShape.construct typeParams params result).lexemes.length ≤ m) :
    Reads false (MemberShape.construct typeParams params result).clear
      (Parser.constructSignature n ty)
      (l :: (angledLexemes (lexemesTypeParams typeParams) ++ ([.sym .lparen] ++
        (separated .comma (lexemesParams params) ++ ([.sym .rparen] ++
          (lexemesOpt (.sym .colon) result ++ (.sym .semicolon :: us)))))))
      (MemberShape.construct typeParams params result).reread us := by
  rw [MemberShape.Legible] at h
  simp only [MemberShape.lexemes, List.length_append] at hm
  rw [MemberShape.clear, Bool.and_assoc]
  refine Takes.then takes_advance ?_
  refine (hr.typeParams hn h.1 (by omega) (by simp)).bind_false ?_
  have hps : Reads false (clearParams false params) _ _ _
      (lexemesOpt (.sym .colon) result ++ (.sym .semicolon :: us)) :=
    hr.plainParams hn h.2.1 (by simp only [List.length_cons, List.length_nil] at hm; omega)
  refine hps.bind_false ?_
  rw [← Bool.and_true (clearOpt false result)]
  exact (hr.result?_end h.2.2 (by omega)).bind_false (Takes.reads (takes_endMember.bind .pure))

/-- A call signature. -/
theorem Reader.callSignature (hr : Reader m ty) (hn : m < n) {sig : Signature} {result : Option Ty}
    (h : (MemberShape.call sig result).Legible)
    (hm : (MemberShape.call sig result).lexemes.length ≤ m) :
    Reads false (MemberShape.call sig result).clear (Parser.callSignature n ty)
      (documented d sig.lexemes ++ (lexemesOpt (.sym .colon) result ++ (.sym .semicolon :: us)))
      (MemberShape.call sig result).reread us := by
  rw [MemberShape.Legible] at h
  simp only [MemberShape.lexemes, List.length_append] at hm
  rw [MemberShape.clear]
  refine (hr.signature_documented hn h.1 (by omega) d).bind_false ?_
  rw [← Bool.and_true (clearOpt false result)]
  exact (hr.result?_end h.2 (by omega)).bind_false (Takes.reads (takes_endMember.bind .pure))

theorem startsSignature_signature (sig : Signature) (us : List Lexeme) :
    startsSignature (sig.lexemes ++ us) = true := by
  obtain ⟨l, r, hl, hk⟩ := sig.startsWith
  rw [hl]
  rcases hk with hk | hk <;> simp [startsSignature, hk]

theorem kindAt_signature {P : Kind → Prop} (sig : Signature) (us : List Lexeme) (h₁ : P .lparen)
    (h₂ : P .langle) : P (kindAt (sig.lexemes ++ us) 0) := by
  obtain ⟨l, r, hl, hk⟩ := sig.startsWith
  rw [hl, List.cons_append, kindAt_cons_zero]
  rcases hk with hk | hk <;> rw [hk] <;> assumption

/-- A method behind its modifiers. -/
theorem Reader.method (hr : Reader m ty) (hn : m < n) {name : String} {optional readonly : Bool}
    {sig : Signature} {result : Option Ty} (h : (MemberShape.method name optional sig result).Legible)
    (hm : (MemberShape.method name optional sig result).lexemes.length ≤ m) :
    Reads false (MemberShape.method name optional sig result).clear
      (Parser.namedMember n ty readonly)
      (documented d (lexemesOf name) ++ (lexemesIf optional [.sym .question] ++ (sig.lexemes ++
        (lexemesOpt (.sym .colon) result ++ (.sym .semicolon :: us)))))
      (some (MemberShape.method name optional sig result).reread) us := by
  rw [MemberShape.Legible] at h
  simp only [MemberShape.lexemes, List.length_append] at hm
  rw [MemberShape.clear]
  refine Takes.then (takes_memberName? h.1.1 d) ?_
  refine Takes.then (takes_acceptIf optional (kindAt_signature (P := (· ≠ .question)) sig _
    (by simp) (by simp))) (Takes.then takes_atSignature ?_)
  rw [startsSignature_signature, if_pos rfl]
  refine (hr.signature hn h.2.2.1 (by omega)).bind_false ?_
  rw [← Bool.and_true (clearOpt false result)]
  exact (hr.result?_end h.2.2.2 (by omega)).bind_false (Takes.reads (takes_endMember.bind .pure))

/-- A property behind its modifiers. -/
theorem Reader.property (hr : Reader m ty) {name : String} {type : Option Ty}
    {optional readonly : Bool} (h : (MemberShape.property name type optional readonly).Legible)
    (hm : (MemberShape.property name type optional readonly).lexemes.length ≤ m) :
    Reads false (MemberShape.property name type optional readonly).clear
      (Parser.namedMember n ty readonly)
      (documented d (lexemesOf name) ++ (lexemesIf optional [.sym .question] ++
        (lexemesOpt (.sym .colon) type ++ (.sym .semicolon :: us))))
      (some (MemberShape.property name type optional readonly).reread) us := by
  rw [MemberShape.Legible] at h
  simp only [MemberShape.lexemes, List.length_append] at hm
  rw [MemberShape.clear]
  refine Takes.then (takes_memberName? h.1.1 d) ?_
  refine Takes.then (takes_acceptIf optional (kindAt_opt (P := (· ≠ .question)) type (by simp)
    (by simp))) (Takes.then takes_atSignature ?_)
  have hs : startsSignature (lexemesOpt (.sym .colon) type ++ (.sym .semicolon :: us)) = false := by
    cases type <;> rfl
  rw [hs, if_neg Bool.false_ne_true, ← Bool.and_true (clearOpt false type)]
  exact (hr.opt h.2 rfl (by omega) rfl (by simp)).bind_false
    (Takes.reads (takes_endMember.bind .pure))

/-! ## Members -/

/-- A member behind its documentation and the word `readonly`. -/
def Parser.shapeBehind (n : Nat) (ty : TyReader) (readonly : Bool) :
    Parser (Option MemberShape) := do
  if ← atIndexSignature then
    let sig ← indexSignature ty readonly false
    pure (some (.index sig))
  else if ← atSignature then some <$> callSignature n ty
  else
    let k₀ ← peek
    let k₁ ← peekAt 1
    if k₀ = .keyword .newKw ∧ (k₁ = .lparen ∨ k₁ = .langle) then
      some <$> constructSignature n ty
    else if ← atAccessor then
      let a ← accessor n ty {}
      pure (some (.accessor a))
    else namedMember n ty readonly

/-- A name behind its modifiers, where nothing else than a property or method is looked for. -/
theorem takes_memberShape_named {name : String} {readonly b : Bool} {rest ms : List Lexeme}
    {v : Option MemberShape} (h : PropertyName name)
    (hrest : (kindAt rest 0).followsModifier = false)
    (hnew : name = "new" → kindAt rest 0 ≠ .lparen ∧ kindAt rest 0 ≠ .langle)
    (hv : ∀ d, Reads false b (Parser.namedMember n ty readonly)
      (documented d (lexemesOf name) ++ rest) v ms) :
    Reads false b (Parser.memberShape n ty)
      (documented d (lexemesIf readonly [.kw .readonlyKw] ++ lexemesOf name) ++ rest) v ms := by
  have body (d : Option String) : Reads false b (Parser.shapeBehind n ty readonly)
      (documented d (lexemesOf name) ++ rest) v ms := by
    have hf := h.front d hrest
    refine Takes.then takes_atIndexSignature ?_
    rw [hf.index, if_neg Bool.false_ne_true]
    refine Takes.then takes_atSignature ?_
    rw [hf.signature, if_neg Bool.false_ne_true]
    refine Takes.then takes_peek (Takes.then (takes_peekAt 1) ?_)
    -- The word `new` is a name unless what stands behind it starts a signature.
    rw [if_neg]
    · refine Takes.then takes_atAccessor ?_
      rw [hf.accessor, if_neg Bool.false_ne_true]
      exact hv d
    · rintro ⟨h₀, h₁⟩
      have hw := hf.word (by rw [h₀]; rfl)
      rw [h₀] at hw
      have hname : name = "new" := (Option.some.inj hw).symm
      have hsecond : kindAt (documented d (lexemesOf name) ++ rest) 1 = kindAt rest 0 := by
        subst hname
        rw [(spelled_keyword .newKw).lexemesOf_eq (s := "new")]
        rfl
      rw [hsecond] at h₁
      rcases h₁ with h₁ | h₁
      · exact (hnew hname).1 h₁
      · exact (hnew hname).2 h₁
  cases readonly with
  | false => exact Takes.then (takes_readonlyModifier_none (h.front d hrest).readonly) (body d)
  | true =>
    obtain ⟨d', hd'⟩ := exists_documented (lexemesOf name)
    have hb := body d'
    rw [hd'] at hb
    exact Takes.then (takes_readonlyModifier rfl (h.1.followsModifier rest)) hb

/-- A member other than a property or method is looked for by its first lexemes. -/
theorem takes_memberShape_symbol {b : Bool} {l : Lexeme} {ls ms : List Lexeme}
    {v : Option MemberShape} (hl : l.kind = .lparen ∨ l.kind = .langle)
    (hv : Reads false b (some <$> Parser.callSignature n ty) (l :: ls) v ms) :
    Reads false b (Parser.memberShape n ty) (l :: ls) v ms := by
  have hne {k : Kind} (hk : k ≠ .lparen ∧ k ≠ .langle) : l.kind ≠ k := by
    rcases hl with hl | hl <;> rw [hl]
    · exact hk.1.symm
    · exact hk.2.symm
  refine Takes.then (takes_readonlyModifier_none fun h => absurd h (hne (by simp))) ?_
  refine Takes.then takes_atIndexSignature ?_
  rw [show startsIndex (l :: ls) = false by simp [startsIndex, hne], if_neg Bool.false_ne_true]
  refine Takes.then takes_atSignature ?_
  rw [show startsSignature (l :: ls) = true by rcases hl with hl | hl <;> simp [startsSignature, hl],
    if_pos rfl]
  exact hv

/-- A construct signature among the members. -/
theorem Reader.memberShape_construct (hr : Reader m ty) (hn : m < n)
    {typeParams : List TypeParam} {params : List Param} {result : Option Ty}
    (h : (MemberShape.construct typeParams params result).Legible)
    (hm : (MemberShape.construct typeParams params result).lexemes.length ≤ m)
    (d : Option String) :
    Reads false (MemberShape.construct typeParams params result).clear (Parser.memberShape n ty)
      (documented d (MemberShape.construct typeParams params result).lexemes ++
        (.sym .semicolon :: us))
      (some (MemberShape.construct typeParams params result).reread) us := by
  have hc : Reads false _ _ _ _ us :=
    (hr.constructSignature (l := { Lexeme.kw .newKw with doc := d }) hn h hm).map (some ·)
  rw [MemberShape.lexemes]
  simp only [List.append_assoc, documented, List.cons_append, List.nil_append] at hc ⊢
  refine Takes.then (takes_readonlyModifier_none (by simp)) ?_
  refine Takes.then takes_atIndexSignature ?_
  rw [startsIndex, kindAt_cons_zero, if_neg (by simp)]
  refine Takes.then takes_atSignature ?_
  rw [startsSignature, kindAt_cons_zero, if_neg (by simp)]
  refine Takes.then takes_peek (Takes.then (takes_peekAt 1) ?_)
  rw [kindAt_cons_zero, kindAt_cons_succ, if_pos]
  · exact hc
  · refine ⟨rfl, ?_⟩
    cases typeParams with
    | nil => exact .inl rfl
    | cons p ps => exact .inr rfl

/-- An index signature among the members. -/
theorem Reader.memberShape_index (hr : Reader m ty) {sig : IndexSignature}
    (h : (MemberShape.index sig).Legible) (hm : sig.lexemes.length ≤ m) (d : Option String) :
    Reads false sig.clear (Parser.memberShape n ty)
      (documented d sig.lexemes ++ (.sym .semicolon :: us)) (some (.index sig.reread)) us := by
  rw [MemberShape.Legible] at h
  obtain ⟨key, keyType, valueType, readonly, isStatic⟩ := sig
  obtain rfl : isStatic = false := h.1
  have h' := h.2
  rw [IndexSignature.Legible] at h'
  obtain ⟨l, hl, -, hk⟩ := h'.1.lexeme
  have hw : l.kind.isWord = true := Kind.isWord_of_wordText hk
  have body (l' : Lexeme) (hl' : l'.kind = .lbracket) :
      Reads false (IndexSignature.clear ⟨key, keyType, valueType, readonly, false⟩)
        (Parser.shapeBehind n ty readonly)
        (l' :: (lexemesOf key ++ ([.sym .colon] ++ (keyType.lexemes ++
          ([.sym .rbracket, .sym .colon] ++ (valueType.lexemes ++ (.sym .semicolon :: us)))))))
        (some (.index (IndexSignature.reread ⟨key, keyType, valueType, readonly, false⟩)))
        us := by
    refine Takes.then takes_atIndexSignature ?_
    rw [show startsIndex _ = true by simp [startsIndex, hl', hl, hw], if_pos rfl,
      ← Bool.and_true (IndexSignature.clear _)]
    exact (hr.indexSignature hl' h.2 hm).bind_false Takes.pure.reads
  rw [IndexSignature.lexemes]
  cases readonly with
  | true =>
    have hb := body (.sym .lbracket) rfl
    simp only [lexemesIf, Bool.false_eq_true, if_false, if_true, List.nil_append, documented,
      List.append_assoc, List.cons_append] at hb ⊢
    exact Takes.then (takes_readonlyModifier rfl rfl) hb
  | false =>
    have hb := body { Lexeme.sym .lbracket with doc := d } rfl
    simp only [lexemesIf, Bool.false_eq_true, if_false, List.nil_append, documented,
      List.append_assoc, List.cons_append] at hb ⊢
    exact Takes.then (takes_readonlyModifier_none (by simp)) hb

theorem AccessorKind.lexeme_cases (k : AccessorKind) :
    k.lexeme.kind = .ident "get" ∨ k.lexeme.kind = .ident "set" := by
  cases k
  · exact .inl rfl
  · exact .inr rfl

theorem AccessorKind.lexeme_ne (k : AccessorKind) {k' : Kind} (h : k'.isIdent = false) :
    k.lexeme.kind ≠ k' := by
  rintro rfl
  cases k <;> simp [lexeme, Kind.isIdent] at h

theorem AccessorKind.startsAccessor (k : AccessorKind) {l : Lexeme} {ls : List Lexeme}
    (hl : l.kind = k.lexeme.kind) (h : (kindAt ls 0).followsModifier = true) :
    Ambient.startsAccessor (l :: ls) = true := by
  rw [Ambient.startsAccessor, kindAt_cons_zero, kindAt_cons_succ, h, hl]
  rcases k.lexeme_cases with hk | hk <;> simp [hk]

/-- An accessor among the members. -/
theorem Reader.memberShape_accessor (hr : Reader m ty) (hn : m < n) {a : Accessor}
    (h : (MemberShape.accessor a).Legible) (hm : a.lexemes.length ≤ m) (d : Option String) :
    Reads false a.clear (Parser.memberShape n ty)
      (documented d a.lexemes ++ (.sym .semicolon :: us)) (some (.accessor a.reread)) us := by
  rw [MemberShape.Legible] at h
  obtain ⟨name, kind, params, result, modifiers⟩ := a
  obtain rfl : modifiers = {} := h.1
  have h' := h.2
  rw [Accessor.Legible] at h'
  have hacc : Reads false _ _ _ _ us :=
    hr.accessor (l := { kind.lexeme with doc := d }) hn rfl h.2 hm
  have hnone : MemberModifiers.lexemes {} = [] := rfl
  rw [Accessor.lexemes, hnone]
  simp only [List.nil_append, documented, List.append_assoc, List.cons_append] at hacc ⊢
  have hne {k : Kind} (hk : k.isIdent = false) : kind.lexeme.kind ≠ k := kind.lexeme_ne hk
  refine Takes.then (takes_readonlyModifier_none fun hk => absurd hk (hne rfl)) ?_
  refine Takes.then takes_atIndexSignature ?_
  rw [startsIndex, kindAt_cons_zero, if_neg (by simp [hne (k := .lbracket) rfl])]
  refine Takes.then takes_atSignature ?_
  rw [startsSignature, kindAt_cons_zero,
    if_neg (by simp [hne (k := .lparen) rfl, hne (k := .langle) rfl])]
  refine Takes.then takes_peek (Takes.then (takes_peekAt 1) ?_)
  rw [kindAt_cons_zero, if_neg fun hk => absurd hk.1 (hne rfl)]
  refine Takes.then takes_atAccessor ?_
  rw [kind.startsAccessor (l := { kind.lexeme with doc := d }) rfl (h'.1.followsModifier _),
    if_pos rfl, ← Bool.and_true (Accessor.clear _)]
  exact hacc.bind_false Takes.pure.reads

/-- **A member of an interface or object type behind its documentation.** -/
theorem Reader.memberShape (hr : Reader m ty) (hn : m < n) {s : MemberShape} (h : s.Legible)
    (hm : s.lexemes.length ≤ m) (d : Option String) :
    Reads false s.clear (Parser.memberShape n ty)
      (documented d s.lexemes ++ (.sym .semicolon :: us)) (some s.reread) us := by
  cases s with
  | property name type optional readonly =>
    have h' := h
    rw [MemberShape.Legible] at h'
    rw [MemberShape.lexemes, List.append_assoc, documented_append (by simp [h'.1.1.ne_nil]),
      List.append_assoc, List.append_assoc]
    have hrest (P : Kind → Prop) (h₁ : P .question) (h₂ : P .colon) (h₃ : P .semicolon) :
        P (kindAt (lexemesIf optional [.sym .question] ++
          (lexemesOpt (.sym .colon) type ++ (.sym .semicolon :: us))) 0) :=
      kindAt_if optional h₁ (kindAt_opt type h₂ h₃)
    refine takes_memberShape_named h'.1 (hrest (fun k => k.followsModifier = false) rfl rfl rfl)
      (fun _ => ⟨?_, ?_⟩) fun d => hr.property h hm
    · exact hrest (· ≠ .lparen) (by simp) (by simp) (by simp)
    · exact hrest (· ≠ .langle) (by simp) (by simp) (by simp)
  | method name optional sig result =>
    have h' := h
    rw [MemberShape.Legible] at h'
    rw [MemberShape.lexemes, List.append_assoc, List.append_assoc,
      documented_append h'.1.1.ne_nil, List.append_assoc, List.append_assoc, List.append_assoc]
    refine @takes_memberShape_named _ _ _ _ false _ _ _ _ h'.1 ?_ ?_ fun d => hr.method hn h hm
    · exact kindAt_if (P := fun k => k.followsModifier = false) optional rfl
        (kindAt_signature (P := fun k => k.followsModifier = false) sig _ rfl rfl)
    · intro hname
      obtain rfl : optional = true := h'.2.1 hname
      exact ⟨by simp [lexemesIf], by simp [lexemesIf]⟩
  | call sig result =>
    have hcall : Reads false _ _ _ _ us := (hr.callSignature (d := d) hn h hm).map (some ·)
    obtain ⟨l, r, hl, hk⟩ := sig.startsWith
    rw [MemberShape.lexemes, documented_append (by simp [hl]), List.append_assoc]
    rw [hl] at hcall ⊢
    exact takes_memberShape_symbol (l := { l with doc := d }) hk hcall
  | construct typeParams params result => exact hr.memberShape_construct hn h hm d
  | index sig => exact hr.memberShape_index h hm d
  | accessor a => exact hr.memberShape_accessor hn h hm d

/-- Kinds that do not end a member or the members. -/
def Kind.inMember (k : Kind) : Prop :=
  k ≠ .semicolon ∧ k ≠ .comma ∧ k ≠ .rbrace ∧ k ≠ .eof

theorem MemberName.startsWith {name : String} (h : MemberName name) (rest : List Lexeme) :
    StartsWith Kind.inMember (lexemesOf name ++ rest) := by
  obtain ⟨l, r, hl⟩ := List.exists_cons_of_ne_nil h.ne_nil
  have hs := h.startsName rest
  rw [hl] at hs ⊢
  exact ⟨l, r ++ rest, rfl, hs.ne_symbol (by decide), hs.ne_symbol (by decide),
    hs.ne_symbol (by decide), hs.ne_eof⟩

/-- A member does not start like its terminator or like the end of the members. -/
theorem MemberShape.startsWith {s : MemberShape} (h : s.Legible) :
    StartsWith Kind.inMember s.lexemes := by
  cases s with
  | property name type optional readonly =>
    rw [Legible] at h
    simp only [lexemes, List.append_assoc]
    cases readonly
    · exact h.1.1.startsWith _
    · exact ⟨.kw .readonlyKw, _, rfl, by simp [Kind.inMember]⟩
  | method name optional sig result =>
    rw [Legible] at h
    simp only [lexemes, List.append_assoc]
    exact h.1.1.startsWith _
  | call sig result =>
    obtain ⟨l, r, hl, hk⟩ := sig.startsWith
    rw [lexemes, hl]
    exact ⟨l, _, rfl, by rcases hk with hk | hk <;> simp [hk, Kind.inMember]⟩
  | construct typeParams params result => exact ⟨.kw .newKw, _, rfl, by simp [Kind.inMember]⟩
  | index sig =>
    obtain ⟨key, keyType, valueType, readonly, isStatic⟩ := sig
    simp only [lexemes, IndexSignature.lexemes, List.append_assoc]
    cases isStatic <;> cases readonly <;> exact ⟨_, _, rfl, by simp [Kind.inMember]⟩
  | accessor a =>
    rw [Legible] at h
    obtain ⟨name, kind, params, result, modifiers⟩ := a
    obtain rfl : modifiers = {} := h.1
    exact ⟨kind.lexeme, _, rfl, kind.lexeme_ne rfl, kind.lexeme_ne rfl, kind.lexeme_ne rfl,
      kind.lexeme_ne rfl⟩

/-- **A member with its documentation and its terminator.** -/
theorem Reader.member (hr : Reader m ty) (hn : m < n) {x : Member} (h : x.Legible)
    (hm : x.lexemes.length ≤ m) :
    Reads false x.clear (Parser.member n ty) (x.lexemes ++ us) (some x.reread) us := by
  obtain ⟨doc, shape⟩ := x
  rw [Member.Legible] at h
  obtain ⟨l, r, hl, hk⟩ := MemberShape.startsWith h.2
  have hlen : shape.lexemes.length ≤ m := by
    rw [Member.lexemes, hl, documented] at hm
    rw [hl]
    simp only [List.length_append, List.length_cons] at hm ⊢
    omega
  have hshape : Reads false _ _ _ _ us := hr.memberShape hn h.2 hlen (doc.map rereadDoc)
  rw [Member.lexemes, List.append_assoc, Member.clear, Member.reread]
  rw [hl, documented] at hshape ⊢
  refine Takes.then takes_peekDoc (Takes.then takes_peek ?_)
  rw [List.cons_append, kindAt_cons_zero, if_neg (not_or.2 ⟨hk.1, hk.2.1⟩),
    ← Bool.and_true shape.clear]
  exact hshape.bind_false Takes.pure.reads

theorem Member.startsWith {x : Member} (h : x.Legible) :
    StartsWith (fun k => k ≠ .rbrace ∧ k ≠ .eof) x.lexemes := by
  obtain ⟨doc, shape⟩ := x
  rw [Legible] at h
  have hshape := (MemberShape.startsWith h.2).imp fun _ hk => hk.2.2
  rw [lexemes]
  exact (hshape.documented _).append _

theorem length_le_flatten {xs : List (List Lexeme)} {ls : List Lexeme} (h : ls ∈ xs) :
    ls.length ≤ xs.flatten.length := by
  obtain ⟨as, bs, rfl⟩ := List.append_of_mem h
  rw [List.flatten_append, List.flatten_cons, List.length_append, List.length_append]
  omega

theorem count_le_flatten {xs : List (List Lexeme)} (h : ∀ x ∈ xs, x ≠ []) :
    xs.length ≤ xs.flatten.length := by
  induction xs with
  | nil => simp
  | cons x xs ih =>
    have h₁ := List.length_pos_iff.2 (h x List.mem_cons_self)
    have h₂ := ih fun y hy => h y (List.mem_cons_of_mem x hy)
    rw [List.flatten_cons, List.length_append, List.length_cons]
    omega

/-- Members in braces. -/
theorem Reader.members (hr : Reader m ty) (hn : m < n) {ms : List Member} (h : legibleMembers ms)
    (hm : (lexemesMembers ms).flatten.length ≤ m) {l : Lexeme} (hl : l.kind = .lbrace) :
    Reads false (clearMembers ms) (Parser.members n ty)
      (l :: ((lexemesMembers ms).flatten ++ ([.sym .rbrace] ++ us))) (rereadMembers ms) us := by
  rw [lexemesMembers_eq_map, clearMembers_eq_all, rereadMembers_eq_map] at *
  rw [legibleMembers_iff] at h
  have hcount : ms.length ≤ (ms.map Member.lexemes).flatten.length := by
    rw [← List.length_map (f := Member.lexemes)]
    refine count_le_flatten fun x hx => ?_
    obtain ⟨y, hy, rfl⟩ := List.mem_map.1 hx
    obtain ⟨l, r, hl, -⟩ := Member.startsWith (h y hy)
    simp [hl]
  refine Takes.then (takes_expect hl) ?_
  rw [← List.flatMap_def, ← Bool.and_true (List.all _ _)]
  refine Reads.bind_false (Reads.itemsUntil rfl (by omega)
    (fun x hx => Member.startsWith (h x hx)) fun x hx us => hr.member hn (h x hx) ?_)
    (Takes.reads ((takes_expect rfl).bind .pure))
  exact Nat.le_trans (length_le_flatten (List.mem_map_of_mem hx)) hm

end Ambient
