import Ambient.Proofs.Parser.Members

/-!
# Reading primary types

A type that is neither an operator between types nor has brackets behind it is read by its first
lexemes (`Reader.primary`). Whether an opening parenthesis starts the parameters of a function is
decided by `startsFunction`: always for the parameters of a legible function type, never for a type
in parentheses.
-/

namespace Ambient

/-! ## Operands in parentheses -/

namespace Ty

@[simp] theorem lexemes_wrapped (c : Bool) (t : Ty) :
    (t.wrapped c).lexemes = enclosed c t.lexemes := by
  cases c <;> rfl

@[simp] theorem reread_wrapped (c : Bool) (t : Ty) :
    (t.wrapped c).reread = t.reread.wrapped c := by
  cases c <;> rfl

@[simp] theorem clear_wrapped (c inSuper : Bool) (t : Ty) :
    (t.wrapped c).clear inSuper = t.clear (inSuper && !c) := by
  cases c
  · simp [wrapped]
  · simp [wrapped, clear]

theorem Legible.wrapped {t : Ty} (h : t.Legible) (hp : t.isPredicate = false) (c : Bool) :
    (t.wrapped c).Legible := by
  cases c
  · exact h
  · exact ⟨hp, h⟩

theorem isPredicate_wrapped {t : Ty} (hp : t.isPredicate = false) (c : Bool) :
    (t.wrapped c).isPredicate = false := by
  cases c
  · exact hp
  · rfl

/-- An operand in the parentheses that it needs does not need them. -/
theorem wrapped_self {loose : Ty → Bool} (h : ∀ t, loose (.parenthesized t) = false) (t : Ty) :
    loose (t.wrapped (loose t)) = false := by
  cases hl : loose t
  · exact hl
  · exact h t

/-- Kinds that can stand behind the type where it is an operand. -/
def endsAt (t : Ty) (k : Kind) : Bool :=
  k.endsType || (!t.looserThanUnion && k.endsOperand) || (!t.looserThanPostfix && k == .lbracket)

/-- Types that are read without looking for brackets or operators behind them. -/
def isPrimary : Ty → Bool
  | .union _ | .intersection _ | .array _ | .indexAccess .. | .conditional .. | .predicate .. =>
    false
  | _ => true

end Ty

theorem Kind.endsType.ne {k : Kind} (h : k.endsType = true) :
    k ≠ .arrow ∧ k ≠ .symbol .dot ∧ k ≠ .langle ∧ k ≠ .lbracket ∧ k ≠ .symbol .pipe ∧
      k ≠ .symbol .amp ∧ k ≠ .keyword .extendsKw ∧ k ≠ .keyword .symbolKw := by
  refine ⟨?_, ?_, ?_, ?_, ?_, ?_, ?_, ?_⟩ <;> rintro rfl <;> simp [endsType] at h

theorem Kind.endsType.endsOperand {k : Kind} (h : k.endsType = true) : k.endsOperand = true := by
  simp [Kind.endsOperand, h]

theorem Kind.endsOperand.ne {k : Kind} (h : k.endsOperand = true) :
    k ≠ .arrow ∧ k ≠ .symbol .dot ∧ k ≠ .langle ∧ k ≠ .lbracket ∧ k ≠ .keyword .symbolKw := by
  refine ⟨?_, ?_, ?_, ?_, ?_⟩ <;> rintro rfl <;> simp [endsOperand, endsType] at h

/-- What stands behind an operand does not go on with it. -/
theorem Ty.endsAt_ne {t : Ty} {k : Kind} (h : t.endsAt k = true) :
    k ≠ .arrow ∧ k ≠ .symbol .dot ∧ k ≠ .langle ∧ k ≠ .keyword .symbolKw := by
  rw [endsAt, Bool.or_eq_true, Bool.or_eq_true, Bool.and_eq_true, Bool.and_eq_true] at h
  rcases h with (h | ⟨-, h⟩) | ⟨-, h⟩
  · have := Kind.endsType.ne h
    exact ⟨this.1, this.2.1, this.2.2.1, this.2.2.2.2.2.2.2⟩
  · have := Kind.endsOperand.ne h
    exact ⟨this.1, this.2.1, this.2.2.1, this.2.2.2.2⟩
  · obtain rfl : k = .lbracket := by simpa using h
    simp

theorem Ty.endsOperand_of_endsAt {t : Ty} {k : Kind} (h : t.endsAt k = true)
    (hp : t.looserThanPostfix = true) : k.endsOperand = true := by
  rw [endsAt, hp, Bool.not_true, Bool.false_and, Bool.or_false, Bool.or_eq_true,
    Bool.and_eq_true] at h
  rcases h with h | ⟨-, h⟩
  · exact Kind.endsType.endsOperand h
  · exact h

/-! ## Functions and types in parentheses -/

/-- Whether the lexemes start like the parameters of a function type. -/
def startsFunction (ls : List Lexeme) : Bool :=
  match kindAt ls 1 with
  | .symbol .lbrace | .symbol .lbracket => arrowBehind 0 (ls.map Lexeme.kind).tail
  | .symbol .rparen | .symbol .ellipsis => true
  | .keyword .thisKw => kindAt ls 2 == .colon
  | k =>
    k.isWord &&
      match kindAt ls 2 with
      | .symbol .colon | .symbol .question | .symbol .comma => true
      | .symbol .rparen => kindAt ls 3 == .arrow
      | _ => false

variable {m n : Nat} {ty : TyReader} {inSuper : Bool} {ls us : List Lexeme}

theorem Shows.map_kind {c : Cursor} (h : Shows c ls) :
    c.rest.map Token.kind = ls.map Lexeme.kind :=
  map_kind_of_describes h.rest

theorem takes_atFunction : Takes Parser.atFunction ls (startsFunction ls) ls := by
  intro c hc
  refine ⟨c, ?_, hc⟩
  simp only [Parser.atFunction, hc.kindAt_eq, arrowFollows_eq, List.map_tail,
    hc.map_kind]
  rfl

/-- A type in parentheses is not taken for parameters. -/
theorem startsFunction_parens {t : Ty} (h : t.Legible) (hp : t.isPredicate = false)
    (hu : kindAt us 0 ≠ .arrow) {l : Lexeme} :
    startsFunction (l :: (t.lexemes ++ (.sym .rparen :: us))) = false := by
  have hlead := t.leads h hp
  have hstart := hlead.kindAt_zero (.sym .rparen :: us)
  -- A type of one word has the closing parenthesis behind it, and no arrow behind that. Any other
  -- type goes on in a way that no name of a parameter does.
  have hsecond (hw : (kindAt (t.lexemes ++ (.sym .rparen :: us)) 0).isWord = true) :
      kindAt (t.lexemes ++ (.sym .rparen :: us)) 1 ≠ .colon ∧
      kindAt (t.lexemes ++ (.sym .rparen :: us)) 1 ≠ .question ∧
      kindAt (t.lexemes ++ (.sym .rparen :: us)) 1 ≠ .comma ∧
      (kindAt (t.lexemes ++ (.sym .rparen :: us)) 1 = .rparen →
        kindAt (t.lexemes ++ (.sym .rparen :: us)) 2 ≠ .arrow) := by
    rcases hlead.kindAt_one _ hw with hl | hf
    · obtain ⟨l, hl⟩ := List.length_eq_one_iff.1 hl
      simpa [hl] using hu
    · obtain ⟨h₁, h₂, h₃, h₄⟩ := Kind.followsWord_ne hf
      exact ⟨h₁, h₂, h₃, fun h => absurd h h₄⟩
  have harrow : arrowBehind 0 ((t.lexemes ++ (.sym .rparen :: us)).map Lexeme.kind) = false := by
    rw [List.map_append, t.neutral h, List.map_cons, Lexeme.kind_sym, arrowBehind]
    cases us with
    | nil => rfl
    | cons u us => simpa using hu
  rw [startsFunction]
  simp only [kindAt_cons_succ, List.map_cons, List.tail_cons]
  generalize kindAt (t.lexemes ++ (.sym .rparen :: us)) 0 = k at hstart hsecond
  split
  · exact harrow
  · exact harrow
  · simp [Kind.startsType] at hstart
  · simp [Kind.startsType] at hstart
  · simpa using (hsecond rfl).1
  · cases hw : k.isWord with
    | false => rfl
    | true =>
      obtain ⟨h₁, h₂, h₃, h₄⟩ := hsecond hw
      rw [Bool.true_and]
      split
      · contradiction
      · contradiction
      · contradiction
      · rename_i hk
        simpa using h₄ hk
      · rfl

theorem Pattern.startsWith {s : String} (h : Pattern s) :
    StartsWith (fun k => k = .lbrace ∨ k = .lbracket) (lexemesOf s) := by
  obtain ⟨⟨hk, -⟩, -⟩ := Verbatim.lexemes h
  cases hl : lexemesOf s with
  | nil => simp [hl] at hk
  | cons l r => exact ⟨l, r, rfl, by simpa [hl] using hk⟩

/-- Parameters are told by the first of them. -/
theorem startsFunction_signature {receiver : Option Ty} {params : List Param}
    (h : Signature.Legible ⟨[], receiver, params⟩) (hh : Signature.Headed ⟨[], receiver, params⟩) :
    startsFunction (Signature.lexemes ⟨[], receiver, params⟩ ++ (.sym .arrow :: us)) = true := by
  rw [Signature.Legible] at h
  have harrow : arrowBehind 0 ((separated .comma (lexemesReceiver receiver ++
      lexemesParams params) ++ (.sym .rparen :: .sym .arrow :: us)).map Lexeme.kind) = true := by
    have hn : Neutral (separated .comma (lexemesReceiver receiver ++ lexemesParams params)) := by
      refine .separated (by decide) fun ls hls => ?_
      rcases List.mem_append.1 hls with hls | hls
      · exact neutral_receiver receiver h.2.1 ls hls
      · exact neutral_params params h.2.2 ls hls
    rw [List.map_append, hn]
    rfl
  have hls : Signature.lexemes ⟨[], receiver, params⟩ ++ (.sym .arrow :: us) = .sym .lparen ::
      (separated .comma (lexemesReceiver receiver ++ lexemesParams params) ++
        (.sym .rparen :: .sym .arrow :: us)) := by
    rw [Signature.lexemes]
    simp [lexemesTypeParams, angledLexemes]
  rw [hls, startsFunction, List.map_cons, List.tail_cons, harrow]
  simp only [kindAt_cons_succ]
  clear harrow hls
  cases receiver with
  | some t =>
    cases params <;> rfl
  | none =>
    cases params with
    | nil => rfl
    | cons p ps =>
      obtain ⟨name, type, optional, rest⟩ := p
      rw [legibleParams, Param.Legible] at h
      have hfirst : rest = true ∨ Pattern name ∨ Word name ∧ name ≠ "this" := by
        simpa [Signature.Headed] using hh
      -- Only the first parameter is looked at, and what stands right behind it.
      obtain ⟨rest', hls, hrest⟩ : ∃ rest', separated .comma (lexemesReceiver none ++
          lexemesParams (⟨name, type, optional, rest⟩ :: ps)) ++ (.sym .rparen :: .sym .arrow :: us)
          = Param.lexemes ⟨name, type, optional, rest⟩ ++ rest' ∧
          (kindAt rest' 0 = .comma ∨ kindAt rest' 0 = .rparen ∧ kindAt rest' 1 = .arrow) := by
        cases ps with
        | nil => exact ⟨_, rfl, .inr ⟨rfl, rfl⟩⟩
        | cons q qs =>
          refine ⟨.sym .comma :: (separated .comma (lexemesParams (q :: qs)) ++
            (.sym .rparen :: .sym .arrow :: us)), ?_, .inl rfl⟩
          simp [lexemesReceiver, lexemesParams, separated]
      rw [hls, Param.lexemes]
      cases rest with
      | true => rfl
      | false =>
        rcases hfirst with hf | hf | ⟨hf, hne⟩
        · simp at hf
        · obtain ⟨l, r, hl, hk⟩ := hf.startsWith
          rw [hl]
          rcases hk with hk | hk <;> simp [lexemesIf, hk]
        · obtain ⟨l, hl, -, hk⟩ := hf.lexeme
          have hw : l.kind.isWord = true := Kind.isWord_of_wordText hk
          have hthis : l.kind ≠ .keyword .thisKw := by
            rintro he
            rw [he] at hk
            exact hne (Option.some.inj hk).symm
          -- A parameter of nothing but a name shows what stands behind it.
          have hsecond : kindAt (lexemesIf optional [.sym .question] ++
              (lexemesOpt (.sym .colon) type ++ rest')) 0 = .question ∨
              kindAt (lexemesIf optional [.sym .question] ++
              (lexemesOpt (.sym .colon) type ++ rest')) 0 = .colon ∨
              kindAt (lexemesIf optional [.sym .question] ++
              (lexemesOpt (.sym .colon) type ++ rest')) 0 = .comma ∨
              kindAt (lexemesIf optional [.sym .question] ++
              (lexemesOpt (.sym .colon) type ++ rest')) 0 = .rparen ∧
              kindAt (lexemesIf optional [.sym .question] ++
              (lexemesOpt (.sym .colon) type ++ rest')) 1 = .arrow := by
            cases optional with
            | true => exact .inl rfl
            | false =>
              cases type with
              | some t => exact .inr (.inl rfl)
              | none => exact .inr (.inr hrest)
          simp only [hl, lexemesIf, Bool.false_eq_true, if_false, List.nil_append,
            List.append_assoc, List.cons_append, kindAt_cons_zero, kindAt_cons_succ] at hsecond ⊢
          split
          · simp_all [Kind.wordText?]
          · simp_all [Kind.wordText?]
          · rfl
          · rfl
          · simp_all
          · rw [hw, Bool.true_and]
            rcases hsecond with h | h | h | ⟨h, h'⟩
            · rw [h]
            · rw [h]
            · rw [h]
            · rw [h, h']
              rfl

/-- Parameters, an arrow and the type of the result. -/
theorem Reader.arrowType (hr : Reader m ty) (hn : m < n) {sig : Signature} {result : Ty}
    (h : sig.Legible) (hres : result.Legible)
    (hm : sig.lexemes.length + result.lexemes.length ≤ m)
    (hu : (kindAt us 0).endsType = true) {l : Lexeme} (hl : l.kind = .arrow) :
    Reads inSuper (sig.clear inSuper && result.clear inSuper) (Parser.arrowType n ty inSuper)
      (sig.lexemes ++ (l :: (result.lexemes ++ us))) (sig.reread, result.reread) us := by
  refine (hr.signature hn h (by omega)).bind ?_ fun _ _ => .expect (by simp)
  refine Takes.then (takes_expect hl) ?_
  rw [← Bool.and_true (result.clear inSuper)]
  exact (hr.result hres (by omega) hu).bind Takes.pure.reads fun _ _ => .pure

/-- A function type. -/
theorem Reader.function (hr : Reader m ty) (hn : m < n) {sig : Signature} {result : Ty}
    (h : (Ty.function sig result).Legible)
    (hm : sig.lexemes.length + result.lexemes.length ≤ m) (hu : (kindAt us 0).endsType = true) :
    Reads inSuper ((Ty.function sig result).clear inSuper) (Parser.primary n ty inSuper)
      ((Ty.function sig result).lexemes ++ us) (Ty.function sig result).reread us := by
  rw [Ty.Legible] at h
  have harrow : Reads inSuper _ _ _ _ us :=
    hr.arrowType (l := .sym .arrow) hn h.2.1 h.2.2 hm hu rfl
  have hfunction := harrow.bind (f := fun r => pure (Ty.function r.1 r.2))
    (Takes.reads Takes.pure) fun _ _ => .pure
  rw [Bool.and_true] at hfunction
  simp only [Ty.lexemes, List.append_assoc, List.cons_append, List.nil_append, Ty.clear, Ty.reread]
  obtain ⟨typeParams, receiver, params⟩ := sig
  refine Takes.then takes_peek ?_
  cases typeParams with
  | cons p ps => exact hfunction
  | nil =>
    refine Takes.then takes_atFunction ?_
    rw [startsFunction_signature h.2.1 h.1, if_pos rfl]
    exact hfunction

/-- A type in parentheses. -/
theorem Reader.parens (hr : Reader m ty) {t : Ty} (h : t.Legible) (hp : t.isPredicate = false)
    (hm : t.lexemes.length ≤ m) (hu : kindAt us 0 ≠ .arrow) {l : Lexeme} (hl : l.kind = .lparen) :
    Reads inSuper (t.clear false) (Parser.primary n ty inSuper)
      (l :: (t.lexemes ++ (.sym .rparen :: us))) (.parenthesized t.reread) us := by
  refine Takes.then takes_peek ?_
  rw [kindAt_cons_zero, hl]
  refine Takes.then takes_atFunction ?_
  rw [startsFunction_parens h hp hu, if_neg Bool.false_ne_true]
  refine Takes.then (takes_expect hl) ?_
  rw [← Bool.and_true (t.clear false)]
  exact Reads.bind_false (hr.full h hp hm rfl) (Takes.reads ((takes_expect rfl).bind .pure))

/-! ## Names and type arguments -/

/-- Type arguments in angle brackets, or none. -/
theorem Reader.typeArgs (hr : Reader m ty) (hn : m < n) {ts : List Ty} (h : legibleTys ts)
    (hm : (angledLexemes (lexemesTys ts)).length ≤ m) (hu : kindAt us 0 ≠ .langle) :
    Reads inSuper (clearTys ts) (Parser.typeArgs n ty)
      (angledLexemes (lexemesTys ts) ++ us) (rereadTys ts) us := by
  rw [lexemesTys_eq_map, clearTys_eq_all, rereadTys_eq_map] at *
  rw [legibleTys_iff] at h
  refine Reads.lift ?_
  cases ts with
  | nil => exact (takes_accept_false hu).then Takes.pure.reads
  | cons t ts =>
    rw [length_angledLexemes (by simp)] at hm
    rw [List.map_cons, angledLexemes, ← List.map_cons, List.append_assoc, List.append_assoc]
    · refine Takes.then (takes_accept rfl) ?_
      rw [if_pos rfl]
      have hcount : ((t :: ts).map Ty.lexemes).length ≤ _ := count_le_separated (s := .comma)
      rw [List.length_map] at hcount
      rw [← Bool.and_true (List.all _ _)]
      refine Reads.bind_false (Reads.commaList (F := fun k => k.endsType = true) rfl rfl
        (by simp) rfl (by omega) (fun t ht => ?_) fun t ht us hus =>
          hr.full (h t ht).2 (h t ht).1 ?_ hus) ?_
      · obtain ⟨l, r, hl, hs⟩ := (t.leads (h t ht).2 (h t ht).1).startsType
        refine ⟨l, r, hl, ?_, ?_⟩ <;> rintro he <;> simp [he, Kind.startsType] at hs
      · have := length_le_separated (s := .comma) (List.mem_map_of_mem (f := Ty.lexemes) ht)
        omega
      · exact Takes.reads ((takes_expect rfl).bind .pure)
    · simp

theorem kindAt_angledLexemes {P : Kind → Prop} (xs : List (List Lexeme)) (h : P .langle)
    (hu : P (kindAt us 0)) : P (kindAt (angledLexemes xs ++ us) 0) := by
  cases xs
  · exact hu
  · exact h

/-- A name with type arguments. -/
theorem Reader.named (hr : Reader m ty) (hn : m < n) {name : String} {args : List Ty}
    (h : (Ty.named name args).Legible) (hm : (angledLexemes (lexemesTys args)).length ≤ m)
    (hu : kindAt us 0 ≠ .symbol .dot ∧ kindAt us 0 ≠ .langle ∧ kindAt us 0 ≠ .keyword .symbolKw) :
    Reads inSuper ((Ty.named name args).clear inSuper) (Parser.primary n ty inSuper)
      ((Ty.named name args).lexemes ++ us) (Ty.named name args).reread us := by
  rw [Ty.Legible] at h
  obtain ⟨a, l, r, ha, hl, -, -, hsp, hdot⟩ := Dotted.lexemes (fun _ => Ident.word) h.1
  have hk : l.kind = .ident a := hsp.unique ha
  have hbehind : ∀ {P : Kind → Prop}, P .langle → P (kindAt us 0) →
      P (kindAt (angledLexemes (lexemesTys args) ++ us) 0) :=
    fun h₁ h₂ => kindAt_angledLexemes _ h₁ h₂
  simp only [Ty.lexemes, List.append_assoc, Ty.clear, Ty.reread]
  refine Takes.then takes_peek ?_
  have hfront : kindAt (lexemesOf name ++ (angledLexemes (lexemesTys args) ++ us)) 0 = .ident a := by
    rw [hl]
    exact hk
  have hsecond : kindAt (lexemesOf name ++ (angledLexemes (lexemesTys args) ++ us)) 1 ≠
      .keyword .symbolKw := by
    rw [hl, List.cons_append, kindAt_cons_succ]
    cases r with
    | nil => exact hbehind (P := (· ≠ .keyword .symbolKw)) (by simp) hu.2.2
    | cons l' r => rw [List.cons_append, kindAt_cons_zero, hdot l' rfl]; simp
  rw [hfront]
  refine Takes.then (takes_peekAt 1) ?_
  rw [if_neg fun h => hsecond h.2]
  refine Takes.then (takes_dottedName (DottedPath.of_typeName h.1)
    (hbehind (P := (· ≠ .symbol .dot)) (by simp) hu.1)) ?_
  rw [← Bool.and_true (clearTys args)]
  exact (hr.typeArgs hn h.2 hm hu.2.1).bind Takes.pure.reads fun _ _ => .pure

/-- A type that another module exports. -/
theorem Reader.imported (hr : Reader m ty) (hn : m < n) {module : String}
    {qualifier : Option String} {args : List Ty} (h : (Ty.imported module qualifier args).Legible)
    (hm : (angledLexemes (lexemesTys args)).length ≤ m)
    (hu : kindAt us 0 ≠ .symbol .dot ∧ kindAt us 0 ≠ .langle) :
    Reads inSuper ((Ty.imported module qualifier args).clear inSuper) (Parser.imported n ty)
      ((Ty.imported module qualifier args).lexemes ++ us)
      (Ty.imported module qualifier args).reread us := by
  rw [Ty.Legible] at h
  simp only [Ty.lexemes, List.append_assoc, List.cons_append, List.nil_append, Ty.clear, Ty.reread]
  have hargs : kindAt (angledLexemes (lexemesTys args) ++ us) 0 ≠ .symbol .dot :=
    kindAt_angledLexemes (P := (· ≠ .symbol .dot)) _ (by simp) hu.1
  refine Takes.then (takes_expect rfl) (Takes.then (takes_expect rfl) (Takes.then takes_peek ?_))
  refine Takes.then takes_advance (Takes.then (takes_expect rfl) ?_)
  have hq : Takes (Parser.after? (.symbol .dot) Parser.dottedName)
      (qualifier.elim [] (fun q => .sym .dot :: lexemesOf q) ++
        (angledLexemes (lexemesTys args) ++ us)) qualifier
      (angledLexemes (lexemesTys args) ++ us) := by
    cases qualifier with
    | none => exact takes_after?_none hargs
    | some q =>
      exact Reads.after?_some (s := false) rfl (Takes.reads (takes_dottedName (h.1 q rfl) hargs))
  refine Takes.then hq ?_
  rw [← Bool.and_true (clearTys args)]
  exact (hr.typeArgs hn h.2 hm hu.2).bind Takes.pure.reads fun _ _ => .pure

/-! ## Braces and brackets -/

theorem kindAt_behind (P : Kind → Bool) (ls : List Lexeme) (n : Nat) :
    kindAt (behind P ls) n = kindAt ls (if P (kindAt ls 0) then n + 1 else n) := by
  cases ls with
  | nil => simp [behind]
  | cons l ls =>
    rw [behind, kindAt_cons_zero]
    cases P l.kind <;> simp

theorem takes_atMapped : Takes Parser.atMapped ls (opensMapped ls.tail) ls := by
  intro c hc
  refine ⟨c, ?_, hc⟩
  have hat (n : Nat) : c.kindAt (n + 1) = kindAt ls.tail n := by
    rw [hc.kindAt_eq]
    cases ls <;> simp
  have h₁ := hat 0
  have h₂ := hat 1
  have h₃ := hat 2
  have h₄ := hat 3
  have h₅ := hat 4
  simp only [Parser.atMapped, opensMapped, kindAt_behind, Bool.or_eq_true, beq_iff_eq] at *
  simp only [h₁]
  by_cases hs : kindAt ls.tail 0 = .symbol .plus ∨ kindAt ls.tail 0 = .symbol .minus
  · simp only [if_pos hs]
    by_cases hr : kindAt ls.tail 1 = .keyword .readonlyKw <;> simp [hr, h₂, h₃, h₄, h₅]
  · simp only [if_neg hs]
    by_cases hr : kindAt ls.tail 0 = .keyword .readonlyKw <;> simp [hr, h₁, h₂, h₃, h₄]

theorem behind_append {P : Kind → Bool} {l : Lexeme} (h : P l.kind = false) :
    behind P (ls ++ l :: us) = behind P ls ++ l :: us := by
  cases ls with
  | nil => simp [behind, h]
  | cons a ls => cases hp : P a.kind <;> simp [behind, hp]

/-- A closing brace does not go on with the start of a mapped type. -/
theorem opensMapped_append {l : Lexeme} (h : opensMapped ls = false) (hl : l.kind = .rbrace) :
    opensMapped (ls ++ l :: us) = false := by
  simp only [opensMapped] at h ⊢
  rw [behind_append (by rw [hl]; rfl), behind_append (by rw [hl]; rfl)]
  match hb : behind (fun k => k == .keyword .readonlyKw)
      (behind (fun k => k == .symbol .plus || k == .symbol .minus) ls) with
  | [] => simp [hl]
  | [a] => simp [hl, Kind.isWord, Kind.wordText?]
  | [a, b] => simp [hl]
  | a :: b :: c :: r => rwa [hb] at h

/-- An object type. -/
theorem Reader.object (hr : Reader m ty) (hn : m < n) {ms : List Member}
    (h : (Ty.object ms).Legible) (hm : (lexemesMembers ms).flatten.length ≤ m) :
    Reads inSuper ((Ty.object ms).clear inSuper) (Parser.primary n ty inSuper)
      ((Ty.object ms).lexemes ++ us) (Ty.object ms).reread us := by
  rw [Ty.Legible] at h
  simp only [Ty.lexemes, List.append_assoc, List.cons_append, List.nil_append, Ty.clear, Ty.reread]
  refine Takes.then takes_peek (Takes.then takes_atMapped ?_)
  rw [List.tail_cons, opensMapped_append h.1 rfl, if_neg Bool.false_ne_true]
  exact Reads.lift ((hr.members hn h.2 hm rfl).map _)

theorem takes_sign {target : Kind} {l : Lexeme} (hl : l.kind = target)
    (ht : target ≠ .symbol .plus ∧ target ≠ .symbol .minus) (s : Option MappedModifier)
    (hu : kindAt us 0 ≠ .symbol .plus ∧ kindAt us 0 ≠ .symbol .minus ∧ kindAt us 0 ≠ target) :
    Takes (Parser.mappedModifier target)
      (s.elim [] (fun m => m.lexemes ++ [l]) ++ us) s us := by
  match s with
  | none =>
    refine (takes_accept_false hu.1).bind ((takes_accept_false hu.2.1).bind ?_)
    exact (takes_accept_false hu.2.2).bind .pure
  | some .add => exact (takes_accept rfl).bind ((takes_expect hl).bind .pure)
  | some .remove =>
    refine (takes_accept_false (by simp [MappedModifier.lexemes])).bind ?_
    exact (takes_accept rfl).bind ((takes_expect hl).bind .pure)
  | some .preserve =>
    have hne (y : Symbol) (hy : target ≠ .symbol y) : kindAt (l :: us) 0 ≠ .symbol y := by
      rwa [kindAt_cons_zero, hl]
    refine Takes.bind (takes_accept_false (hne _ ht.1)) ?_
    exact (takes_accept_false (hne _ ht.2)).bind ((takes_accept hl).bind .pure)

/-- A mapped type. -/
theorem Reader.mapped (hr : Reader m ty) {key : String} {constraint value : Ty}
    {name : Option Ty} {readonly optional : Option MappedModifier}
    (h : (Ty.mapped key constraint name value readonly optional).Legible)
    (hm : (Ty.mapped key constraint name value readonly optional).lexemes.length ≤ m + 1) :
    Reads inSuper ((Ty.mapped key constraint name value readonly optional).clear inSuper)
      (Parser.primary n ty inSuper)
      ((Ty.mapped key constraint name value readonly optional).lexemes ++ us)
      (Ty.mapped key constraint name value readonly optional).reread us := by
  rw [Ty.Legible] at h
  simp only [Ty.lexemes, List.length_append, List.length_cons] at hm
  simp only [Ty.lexemes, List.append_assoc, List.cons_append, List.nil_append, Ty.clear, Ty.reread]
  obtain ⟨l, hl, -, hk⟩ := h.1.lexeme
  have hw : l.kind.isWord = true := Kind.isWord_of_wordText hk
  refine Reads.lift (Takes.then takes_peek (Takes.then takes_atMapped ?_))
  rw [if_pos]
  · rw [Bool.and_assoc]
    refine Takes.then (takes_expect rfl) (Takes.then (takes_sign rfl (by simp) readonly (by simp)) ?_)
    refine Takes.then (takes_expect rfl) (Takes.then (takes_propertyName h.1.memberName) ?_)
    refine Takes.then (takes_expect rfl) ?_
    refine (hr.full h.2.1.2 h.2.1.1 (by omega) ?_).bind_false ?_
    · exact kindAt_opt (P := fun k => k.endsType = true) name rfl rfl
    refine (hr.opt h.2.2.1 rfl (by omega) rfl (by simp)).bind_false ?_
    refine Takes.then (takes_expect rfl) (Takes.then (takes_sign rfl (by simp) optional (by simp)) ?_)
    refine Takes.then (takes_expect rfl) ?_
    rw [← Bool.and_true (value.clear false)]
    refine (hr.full h.2.2.2.2 h.2.2.2.1 (by omega) rfl).bind_false ?_
    exact Takes.then (takes_accept rfl) (Takes.then (takes_expect rfl) Takes.pure.reads)
  · rw [List.tail_cons, hl]
    cases readonly with
    | none => simp [opensMapped, behind, hw]
    | some r => cases r <;> simp [opensMapped, behind, MappedModifier.lexemes, hw]

theorem TupleElement.startsWith {e : TupleElement} (h : e.Legible) :
    StartsWith (fun k => k ≠ .rbracket ∧ k ≠ .eof) e.lexemes := by
  obtain ⟨name, ty, optional, rest⟩ := e
  rw [Legible] at h
  have hstart : StartsWith (fun k => k.startsType = true) ty.lexemes :=
    (ty.leads h.2.2 h.2.1).startsType
  have hne {ls : List Lexeme} (h : StartsWith (fun k => k.startsType = true) ls)
      (ms : List Lexeme) : StartsWith (fun k => k ≠ .rbracket ∧ k ≠ .eof) (ls ++ ms) := by
    obtain ⟨l, r, rfl, hs⟩ := h
    refine ⟨l, r ++ ms, rfl, ?_, ?_⟩ <;> rintro he <;> simp [he, Kind.startsType] at hs
  cases rest with
  | true => cases name <;> exact ⟨.sym .ellipsis, _, rfl, by simp⟩
  | false =>
    cases name with
    | none => exact hne hstart _
    | some name =>
      simp only [lexemes, List.append_assoc]
      exact hne (h.1 name rfl).startsWith _

/-- Whether the lexemes start like a named element of a tuple. -/
def startsNamedElement (ls : List Lexeme) : Bool :=
  (kindAt ls 0).isWord &&
    (kindAt ls 1 == .colon || (kindAt ls 1 == .question && kindAt ls 2 == .colon))

theorem takes_atNamedElement : Takes Parser.atNamedElement ls (startsNamedElement ls) ls := by
  intro c hc
  refine ⟨c, ?_, hc⟩
  simp only [Parser.atNamedElement, startsNamedElement, hc.kindAt_eq]

/-- An element of a tuple. -/
theorem Reader.tupleElement (hr : Reader m ty) {e : TupleElement} (h : e.Legible)
    (hm : e.lexemes.length ≤ m) (hu : kindAt us 0 = .comma ∨ kindAt us 0 = .rbracket) :
    Reads false e.clear (Parser.tupleElement ty) (e.lexemes ++ us) e.reread us := by
  obtain ⟨name, type, optional, rest⟩ := e
  rw [TupleElement.Legible] at h
  have hne (y : Symbol) (hy : y ≠ .comma ∧ y ≠ .rbracket) : kindAt us 0 ≠ .symbol y := by
    rcases hu with hu | hu <;> rw [hu] <;> simp [hy.1.symm, hy.2.symm]
  have hends : (kindAt us 0).endsType = true := by
    rcases hu with hu | hu <;> rw [hu] <;> rfl
  cases name with
  | some name =>
    obtain ⟨l, hl, -, hk⟩ := (h.1 name rfl).lexeme
    have hw : l.kind.isWord = true := Kind.isWord_of_wordText hk
    simp only [TupleElement.lexemes, List.length_append] at hm
    simp only [TupleElement.lexemes, List.append_assoc, TupleElement.clear, TupleElement.reread]
    refine Takes.then (takes_acceptIf rest ?_) (Takes.then takes_atNamedElement ?_)
    · rw [hl]
      rintro he
      rw [List.singleton_append, kindAt_cons_zero] at he
      simp [he, Kind.wordText?] at hk
    rw [if_pos]
    · refine Takes.then (takes_propertyName (h.1 name rfl).memberName) ?_
      refine Takes.then (takes_acceptIf optional (by simp)) (Takes.then (takes_expect rfl) ?_)
      rw [← Bool.and_true (type.clear false)]
      exact (hr.full h.2.2 h.2.1 (by omega) hends).bind_false Takes.pure.reads
    · rw [hl]
      cases optional <;> simp [startsNamedElement, lexemesIf, hw]
  | none =>
    have hlead := type.leads h.2.2 h.2.1
    simp only [TupleElement.lexemes, List.length_append] at hm
    simp only [TupleElement.lexemes, List.append_assoc, TupleElement.clear, TupleElement.reread]
    refine Takes.then (takes_acceptIf rest ?_) (Takes.then takes_atNamedElement ?_)
    · rintro he
      have := hlead.kindAt_zero (lexemesIf optional [.sym .question] ++ us)
      simp [he, Kind.startsType] at this
    -- A word that starts the type has no colon behind it: either the type ends there, or it goes on
    -- as types do.
    have hnamed : startsNamedElement (type.lexemes ++
        (lexemesIf optional [.sym .question] ++ us)) = false := by
      rw [startsNamedElement]
      cases hw : (kindAt (type.lexemes ++ (lexemesIf optional [.sym .question] ++ us)) 0).isWord with
      | false => rfl
      | true =>
        rcases hlead.kindAt_one _ hw with hl | hf
        · obtain ⟨l, hl⟩ := List.length_eq_one_iff.1 hl
          rw [hl]
          cases optional
          · simp [lexemesIf, hne .colon (by decide), hne .question (by decide)]
          · simp [lexemesIf, hne .colon (by decide)]
        · obtain ⟨h₁, h₂, -⟩ := Kind.followsWord_ne hf
          simp [h₁, h₂]
    rw [hnamed, if_neg Bool.false_ne_true, ← Bool.and_true (type.clear false)]
    refine (hr.full h.2.2 h.2.1 (by omega) ?_).bind_false ?_
    · exact kindAt_if (P := fun k => k.endsType = true) optional rfl hends
    · exact Takes.reads ((takes_acceptIf optional (hne _ (by decide))).bind .pure)

/-- A tuple type. -/
theorem Reader.tuple (hr : Reader m ty) (hn : m < n) {es : List TupleElement}
    (h : (Ty.tuple es).Legible) (hm : (separated .comma (lexemesElements es)).length + 1 ≤ m) :
    Reads inSuper ((Ty.tuple es).clear inSuper) (Parser.primary n ty inSuper)
      ((Ty.tuple es).lexemes ++ us) (Ty.tuple es).reread us := by
  rw [Ty.Legible, legibleElements_iff] at h
  simp only [Ty.lexemes, List.append_assoc, List.cons_append, List.nil_append, Ty.clear, Ty.reread]
  rw [lexemesElements_eq_map] at hm ⊢
  rw [clearElements_eq_all, rereadElements_eq_map]
  have hcount : (es.map TupleElement.lexemes).length ≤ _ := count_le_separated (s := .comma)
  rw [List.length_map] at hcount
  refine Reads.lift (Takes.then takes_peek (Takes.then (takes_expect rfl) ?_))
  rw [← Bool.and_true (List.all _ _)]
  refine Reads.bind_false (Reads.commaList (F := fun k => k = .comma ∨ k = .rbracket) (.inl rfl)
    (.inr rfl) (by simp) rfl (by omega) (fun e he => TupleElement.startsWith (h e he))
    fun e he us hus => hr.tupleElement (h e he) ?_ hus)
    (Takes.reads ((takes_expect rfl).bind .pure))
  have := length_le_separated (s := .comma) (List.mem_map_of_mem (f := TupleElement.lexemes) he)
  omega

/-! ## Words before a type -/

/-- The type of a value. -/
theorem takes_typeQuery {value : String} (h : Query value)
    (hm : (lexemesOf value).length ≤ m)
    (hu : kindAt us 0 ≠ .symbol .dot ∧ kindAt us 0 ≠ .langle) :
    Takes (Parser.primary (m + 1) (Parser.readTy m) inSuper)
      ((Ty.typeOf value).lexemes ++ us) (.typeOf value) us := by
  simp only [Ty.lexemes, List.cons_append, List.nil_append]
  refine Takes.bind takes_peek (Takes.bind takes_advance (Takes.bind takes_peek ?_))
  rcases h with h | ⟨-, ⟨l, r, hl, hk⟩, -, t, ht, htakes⟩
  · obtain ⟨a, l, r, ha, hl, -, -, hsp, -⟩ := Dotted.lexemes (fun _ => Binder.word) h
    -- A word that binds a name is not `import`, so that no module is looked for.
    have hk : l.kind ≠ .keyword .importKw := by
      intro he
      rcases ha with ha | ⟨k, rfl, hk⟩
      · rw [hsp.unique ha] at he
        simp at he
      · rw [hsp.unique (spelled_keyword k)] at he
        obtain rfl : k = .importKw := by simpa using he
        simp [Keyword.bindsName] at hk
    rw [hl, List.cons_append, kindAt_cons_zero, if_neg hk, ← List.cons_append, ← hl]
    exact (takes_dottedName h hu.1).bind .pure
  · rw [hl, List.cons_append, kindAt_cons_zero, if_pos hk, ← List.cons_append, ← hl, ← ht]
    refine Takes.bind ?_ .pure
    rw [ht]
    exact htakes m us hm hu.1 hu.2

/-- A type with an operator before it. -/
theorem Reader.operand_wrapped (hr : Reader m ty) {t : Ty} (h : t.Legible)
    (hp : t.isPredicate = false) (hm : (enclosed t.looserThanPostfix t.lexemes).length ≤ m)
    (hu : (kindAt us 0).endsOperand = true) :
    Reads inSuper (t.clear (inSuper && !t.looserThanPostfix)) (ty .operand inSuper)
      (enclosed t.looserThanPostfix t.lexemes ++ us) (t.reread.wrapped t.looserThanPostfix)
      us := by
  have (hm : _ ≤ m) (hu : _ = true) : Reads inSuper _ _ _ _ us :=
    hr.operand (t := t.wrapped t.looserThanPostfix) (h.wrapped hp _) (Ty.isPredicate_wrapped hp _)
      (Ty.wrapped_self (fun _ => rfl) t) hm hu
  rw [Ty.lexemes_wrapped, Ty.clear_wrapped, Ty.reread_wrapped] at this
  exact this hm hu

/-- A constructor type. -/
theorem Reader.constructor (hr : Reader m ty) (hn : m < n) {isAbstract : Bool} {sig : Signature}
    {result : Ty} (h : (Ty.constructor isAbstract sig result).Legible)
    (hm : sig.lexemes.length + result.lexemes.length ≤ m) (hu : (kindAt us 0).endsType = true) :
    Reads inSuper ((Ty.constructor isAbstract sig result).clear inSuper)
      (Parser.primary n ty inSuper) ((Ty.constructor isAbstract sig result).lexemes ++ us)
      (Ty.constructor isAbstract sig result).reread us := by
  rw [Ty.Legible] at h
  have harrow : Reads inSuper _ _ _ _ us :=
    hr.arrowType (l := .sym .arrow) hn h.1 h.2 hm hu rfl
  have hall := harrow.bind (f := fun r => pure (Ty.constructor isAbstract r.1 r.2))
    (Takes.reads Takes.pure) fun _ _ => .pure
  rw [Bool.and_true] at hall
  simp only [Ty.lexemes, List.append_assoc, List.cons_append, List.nil_append, Ty.clear, Ty.reread]
  refine Takes.then takes_peek ?_
  cases isAbstract with
  | false => exact Takes.then takes_advance hall
  | true =>
    refine Takes.then (takes_peekAt 1) ?_
    simp only [lexemesIf, if_true, List.cons_append, List.nil_append, kindAt_cons_succ,
      kindAt_cons_zero, Lexeme.kind_kw]
    exact Takes.then takes_advance (Takes.then takes_advance hall)

theorem Ty.startsSymbol_looser {t : Ty} (h : t.startsSymbol = true) :
    t.looserThanPostfix = false :=
  (t.startsWith_symbol h).1

/-- **A type without brackets behind it and operators around it.** -/
theorem Reader.primary (hr : Reader m (Parser.readTy m)) {t : Ty} (h : t.Legible)
    (ht : t.isPrimary = true) (hm : t.lexemes.length ≤ m + 1) (hu : t.endsAt (kindAt us 0) = true) :
    Reads inSuper (t.clear inSuper) (Parser.primary (m + 1) (Parser.readTy m) inSuper)
      (t.lexemes ++ us) t.reread us := by
  have hlt : m < m + 1 := Nat.lt_succ_self m
  have hne := Ty.endsAt_ne hu
  cases t with
  | union | intersection | array | indexAccess | conditional | predicate =>
    simp [Ty.isPrimary] at ht
  | named name args =>
    refine hr.named hlt h ?_ hne.2
    rw [Ty.Legible] at h
    have := List.length_pos_iff.2 h.1.atom.ne_nil
    simp only [Ty.lexemes, List.length_append] at hm
    omega
  | primitive p =>
    refine Takes.reads (takes_peek.bind ?_)
    cases p <;> exact takes_advance.bind .pure
  | stringLiteral s => exact Takes.reads (takes_peek.bind (takes_advance.bind .pure))
  | numberLiteral text =>
    rw [Ty.Legible] at h
    rw [Ty.lexemes]
    refine Takes.reads (takes_peek.bind ?_)
    rcases h with h | ⟨k, h, rfl⟩
    · rw [Spelled.lexemesOf_eq h]
      exact takes_advance.bind .pure
    · rw [h.kept_minus.lexemesOf_eq]
      exact takes_advance.bind (takes_peek.bind (takes_advance.bind .pure))
  | booleanLiteral b =>
    cases b <;> exact Takes.reads (takes_peek.bind (takes_advance.bind .pure))
  | function sig result =>
    refine hr.function hlt h ?_ ?_
    · simp only [Ty.lexemes, List.length_append, List.length_singleton] at hm
      omega
    · simpa [Ty.endsAt, Ty.looserThanUnion, Ty.looserThanPostfix] using hu
  | constructor isAbstract sig result =>
    refine hr.constructor hlt h ?_ ?_
    · simp only [Ty.lexemes, List.length_append, List.length_singleton] at hm
      omega
    · simpa [Ty.endsAt, Ty.looserThanUnion, Ty.looserThanPostfix] using hu
  | object members =>
    refine hr.object hlt h ?_
    simp only [Ty.lexemes, List.length_append, List.length_singleton] at hm
    omega
  | tuple es =>
    refine hr.tuple hlt h ?_
    simp only [Ty.lexemes, List.length_append, List.length_singleton] at hm
    omega
  | typeOf value =>
    rw [Ty.Legible] at h
    refine (takes_typeQuery h ?_ ⟨hne.2.1, hne.2.2.1⟩).reads
    simp only [Ty.lexemes, List.length_append, List.length_singleton] at hm
    omega
  | keyOf t =>
    rw [Ty.Legible] at h
    simp only [Ty.lexemes, List.length_append, List.length_singleton] at hm
    exact Takes.then takes_peek (Takes.then takes_advance ((hr.operand_wrapped h.2 h.1
      (by omega) (Ty.endsOperand_of_endsAt hu rfl)).map _))
  | operator op t =>
    rw [Ty.Legible] at h
    simp only [Ty.lexemes, List.length_append, List.length_singleton] at hm
    have hend : (kindAt us 0).endsOperand = true := Ty.endsOperand_of_endsAt hu rfl
    have hop : Reads inSuper _ _ _ _ us :=
      (hr.operand_wrapped h.2.2 h.2.1 (by omega) hend).map (Ty.operator op)
    cases op with
    | readonly => exact Takes.then takes_peek (Takes.then takes_advance hop)
    | unique =>
      refine Takes.then takes_peek (Takes.then (takes_peekAt 1) ?_)
      obtain ⟨hl, l, r, ht, hk⟩ := t.startsWith_symbol (h.1 rfl)
      rw [if_pos ⟨rfl, by simp [Ty.lexemes, enclosed, hl, ht, hk]⟩]
      exact Takes.then takes_advance hop
  | mapped key constraint name value readonly optional => exact hr.mapped h hm
  | infer name =>
    rw [Ty.Legible] at h
    exact Takes.then takes_peek (Takes.then takes_advance ((takes_identifier h).reads.map _))
  | template text =>
    rw [Ty.Legible] at h
    rw [Ty.lexemes, h.lexemesOf_eq]
    exact Takes.reads (takes_peek.bind (takes_advance.bind .pure))
  | imported module qualifier args =>
    refine Takes.then takes_peek (hr.imported hlt h ?_ ⟨hne.2.1, hne.2.2.1⟩)
    simp only [Ty.lexemes, List.length_append, List.length_cons] at hm
    omega
  | parenthesized t =>
    rw [Ty.Legible] at h
    simp only [Ty.lexemes, List.length_append, List.length_singleton] at hm
    rw [Ty.lexemes, List.append_assoc, List.append_assoc]
    exact hr.parens h.2 h.1 (by omega) hne.1 rfl
  | this => exact Takes.reads (takes_peek.bind (takes_advance.bind .pure))

end Ambient
