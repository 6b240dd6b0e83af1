import Ambient.Proofs.Tree.Front
import Ambient.Proofs.Tree.Reread

/-!
# Reading signatures

What is made of types is read back as soon as types are: `Reader m ty` says that `ty` reads every
legible type of at most `m` lexemes. Each part is read up to `Kind.endsType`, what can stand
behind a whole type.
-/

namespace Ambient

/-- Kinds that can stand behind a whole type. -/
def Kind.endsType : Kind → Bool
  | .symbol .lbrace | .symbol .semicolon | .symbol .comma | .symbol .rparen | .symbol .rbracket
  | .symbol .rangle | .symbol .eq | .symbol .question | .symbol .colon
  | .keyword .implementsKw | .keyword .asKw | .eof => true
  | _ => false

/-- Kinds that can stand behind an operand. -/
def Kind.endsOperand (k : Kind) : Bool :=
  k.endsType || k == .symbol .pipe || k == .symbol .amp || k == .keyword .extendsKw

/-- The reader reads every legible type of at most `m` lexemes. -/
structure Reader (m : Nat) (ty : TyReader) : Prop where
  full : ∀ {t : Ty} {inSuper : Bool} {us : List Lexeme}, t.Legible → t.isPredicate = false →
    t.lexemes.length ≤ m → (kindAt us 0).endsType = true →
    Reads inSuper (t.clear inSuper) (ty .full inSuper) (t.lexemes ++ us) t.reread us
  operand : ∀ {t : Ty} {inSuper : Bool} {us : List Lexeme}, t.Legible → t.isPredicate = false →
    t.looserThanPostfix = false → t.lexemes.length ≤ m → (kindAt us 0).endsOperand = true →
    Reads inSuper (t.clear inSuper) (ty .operand inSuper) (t.lexemes ++ us) t.reread us

/-! ## Lengths and first lexemes of parts -/

section Parts

variable {P : Kind → Prop} {l : Lexeme} {ls us : List Lexeme} {xs : List (List Lexeme)} {s : Symbol}

theorem kindAt_if (c : Bool) (hl : P l.kind) (hu : P (kindAt us 0)) :
    P (kindAt (lexemesIf c [l] ++ us) 0) := by
  cases c
  · exact hu
  · exact hl

/-- A lexeme that may be missing is taken if it is there. -/
theorem takes_acceptIf (c : Bool) {y : Symbol} (h : kindAt us 0 ≠ .symbol y) :
    Takes (Parser.accept (.symbol y)) (lexemesIf c [.sym y] ++ us) c us := by
  cases c
  · exact takes_accept_false h
  · exact takes_accept rfl

theorem kindAt_opt (t : Option Ty) (hl : P l.kind) (hu : P (kindAt us 0)) :
    P (kindAt (lexemesOpt l t ++ us) 0) := by
  cases t
  · exact hu
  · exact hl

theorem length_le_separated (h : ls ∈ xs) : ls.length ≤ (separated s xs).length := by
  induction xs with
  | nil => simp at h
  | cons x xs ih =>
    cases xs with
    | nil => simp [separated, List.mem_singleton.1 h]
    | cons y xs =>
      rw [separated, List.length_append, List.length_append]
      rcases List.mem_cons.1 h with rfl | h
      · omega
      · have := ih h
        omega

theorem count_le_separated : xs.length ≤ (separated s xs).length + 1 := by
  induction xs with
  | nil => simp
  | cons x xs ih =>
    cases xs with
    | nil => simp
    | cons y xs =>
      rw [separated, List.length_append, List.length_append]
      simp only [List.length_cons, List.length_nil] at ih ⊢
      omega

theorem length_angledLexemes (h : xs ≠ []) :
    (angledLexemes xs).length = (separated .comma xs).length + 2 := by
  cases xs with
  | nil => exact absurd rfl h
  | cons x xs => simp [angledLexemes]

end Parts

/-! ## Type parameters -/

variable {m n : Nat} {ty : TyReader} {inSuper : Bool} {us : List Lexeme}

/-- A type behind a token, or nothing. -/
theorem Reader.opt (hr : Reader m ty) {t : Option Ty} {l : Lexeme} {k : Kind}
    (h : legibleOpt t) (hl : l.kind = k) (hm : (lexemesOpt l t).length ≤ m)
    (hu : (kindAt us 0).endsType = true) (hk : kindAt us 0 ≠ k) :
    Reads inSuper (clearOpt inSuper t) (Parser.after? k (ty .full inSuper))
      (lexemesOpt l t ++ us) (rereadOpt t) us := by
  cases t with
  | none => exact (takes_after?_none hk).reads
  | some t =>
    rw [legibleOpt] at h
    refine Reads.after?_some hl (hr.full h.2 h.1 ?_ hu)
    simp only [lexemesOpt, List.length_append, List.length_singleton] at hm
    omega

theorem TypeParamModifier.ofKind?_keyword (m : TypeParamModifier) :
    TypeParamModifier.ofKind? (.keyword m.keyword) = some m := by
  cases m <;> rfl

theorem typeParamModifiers_cons {t u : Token} {ts : List Token} {m : TypeParamModifier}
    (ht : t.kind = .keyword m.keyword) (hu : u.kind.isWord = true) :
    typeParamModifiers (t :: u :: ts) =
      (m :: (typeParamModifiers (u :: ts)).1, (typeParamModifiers (u :: ts)).2) := by
  rw [typeParamModifiers, ht, TypeParamModifier.ofKind?_keyword]
  simp [hu]

/-- Modifiers are read up to a word that is none. -/
theorem typeParamModifiers_eq {ms : List TypeParamModifier} {l : Lexeme} {ts : List Token}
    (hts : List.Forall₂ Lexeme.Describes (ms.map (fun m => Lexeme.kw m.keyword) ++ l :: us) ts)
    (hw : l.kind.isWord = true)
    (hl : TypeParamModifier.ofKind? l.kind = none ∨ (kindAt us 0).isWord = false) :
    (typeParamModifiers ts).1 = ms ∧
      List.Forall₂ Lexeme.Describes (l :: us) (typeParamModifiers ts).2 := by
  induction ms generalizing ts with
  | nil =>
    cases hts with
    | cons ht hts =>
      rename_i t ts
      have hk : t.kind = l.kind := ht.1
      cases hts with
      | nil => exact ⟨rfl, .cons ht .nil⟩
      | cons hu hts =>
        rename_i u ts _
        suffices h : typeParamModifiers (t :: u :: _) = ([], t :: u :: _) by
          rw [h]
          exact ⟨rfl, .cons ht (.cons hu hts)⟩
        rw [typeParamModifiers, hk, hu.1]
        rcases hl with hl | hl
        · rw [hl]
        · rw [kindAt_cons_zero] at hl
          rw [hl]
          cases TypeParamModifier.ofKind? l.kind <;> rfl
  | cons m ms ih =>
    cases hts with
    | cons ht hts =>
      rename_i t ts
      obtain ⟨hms, hrest⟩ := ih hts
      have hne : ∃ u us', ts = u :: us' ∧ u.kind.isWord = true := by
        cases ms with
        | nil =>
          cases hts with
          | cons hu _ => exact ⟨_, _, rfl, by rw [hu.1]; exact hw⟩
        | cons m' ms =>
          cases hts with
          | cons hu _ => exact ⟨_, _, rfl, by rw [hu.1]; rfl⟩
      obtain ⟨u, us', rfl, hu⟩ := hne
      rw [typeParamModifiers_cons ht.1 hu]
      exact ⟨by rw [hms], hrest⟩

/-- A name that is read for a modifier of a type parameter is one of two words. -/
theorem Binder.ofKind?_eq_none {s : String} (h : Binder s) {l : Lexeme}
    (hl : lexemesOf s = [l]) (hne : s ≠ "in" ∧ s ≠ "out") :
    TypeParamModifier.ofKind? l.kind = none := by
  rcases h with h | ⟨k, rfl, hk⟩
  · obtain ⟨l', hl', -, hk⟩ := h.lexeme
    obtain rfl : l = l' := by simpa using hl.symm.trans hl'
    rw [hk]
    rfl
  · have hk' := (spelled_keyword k).lexemesOf_eq
    obtain rfl := List.singleton_inj.1 (hl.symm.trans hk')
    cases k <;> first
      | rfl
      | exact absurd rfl hne.1
      | exact absurd rfl hne.2
      | simp [Keyword.bindsName] at hk

/-- A type parameter. -/
theorem Reader.typeParam (hr : Reader m ty) {p : TypeParam} (h : p.Legible)
    (hm : p.lexemes.length ≤ m) (hu : kindAt us 0 = .comma ∨ kindAt us 0 = .rangle) :
    Reads inSuper (p.clear inSuper) (Parser.typeParam ty inSuper) (p.lexemes ++ us) p.reread
      us := by
  obtain ⟨name, modifiers, constraint, default⟩ := p
  rw [TypeParam.Legible] at h
  obtain ⟨hname, hne, hc, hd⟩ := h
  simp only [TypeParam.lexemes, List.length_append] at hm
  obtain ⟨l, hl, -, hk⟩ := hname.word.lexeme
  have hends : (kindAt us 0).endsType = true := by
    rcases hu with hu | hu <;> rw [hu] <;> rfl
  have heq : kindAt us 0 ≠ .eq := by
    rcases hu with hu | hu <;> rw [hu] <;> simp
  have hdefault : (kindAt (lexemesOpt (.sym .eq) default ++ us) 0).endsType = true :=
    kindAt_opt (P := fun k => k.endsType = true) default rfl hends
  simp only [TypeParam.lexemes, List.append_assoc, hl, List.singleton_append, TypeParam.clear,
    TypeParam.reread]
  refine (takes_scan fun ts hts => typeParamModifiers_eq hts (Kind.isWord_of_wordText hk) ?_).then
    ?_
  · cases constraint with
    | none =>
      refine .inr ?_
      refine kindAt_opt (P := fun k => k.isWord = false) default rfl ?_
      rcases hu with hu | hu <;> rw [hu] <;> rfl
    | some t => exact .inl (hname.ofKind?_eq_none hl (hne rfl))
  rw [← List.singleton_append, ← hl]
  refine Takes.then (takes_identifier hname) ?_
  refine (hr.opt hc rfl (by omega) hdefault ?_).bind ?_ fun _ _ => .after? (by simp) .pure
  · refine kindAt_opt (P := fun k => k ≠ .keyword .extendsKw) default (by simp) ?_
    rcases hu with hu | hu <;> rw [hu] <;> simp
  rw [← Bool.and_true (clearOpt inSuper default)]
  exact (hr.opt hd rfl (by omega) hends heq).bind Takes.pure.reads fun _ _ => .pure

theorem Binder.startsWith {s : String} (h : Binder s) :
    StartsWith (fun k => k.startsType = true) (lexemesOf s) :=
  h.word.startsWith

theorem TypeParam.startsWith {p : TypeParam} (h : p.Legible) :
    StartsWith (fun k => k ≠ .rangle ∧ k ≠ .eof) p.lexemes := by
  obtain ⟨name, modifiers, constraint, default⟩ := p
  rw [Legible] at h
  obtain ⟨l, hl, -, hk⟩ := h.1.word.lexeme
  simp only [lexemes, List.append_assoc, hl]
  cases modifiers with
  | nil =>
    refine ⟨l, _, rfl, ?_, ?_⟩ <;> rintro he <;> simp [he, Kind.wordText?] at hk
  | cons m ms => exact ⟨_, _, rfl, by simp, by simp⟩

/-- Type parameters in angle brackets, or none. -/
theorem Reader.typeParams_documented (hr : Reader m ty) (hn : m < n) {ps : List TypeParam}
    (h : legibleTypeParams ps) (hm : (angledLexemes (lexemesTypeParams ps)).length ≤ m)
    (hu : kindAt us 0 ≠ .langle) (d : Option String) :
    Reads inSuper (clearTypeParams inSuper ps) (Parser.typeParams n ty inSuper)
      (documented d (angledLexemes (lexemesTypeParams ps)) ++ us) (rereadTypeParams ps) us := by
  rw [lexemesTypeParams_eq_map, clearTypeParams_eq_all, rereadTypeParams_eq_map] at *
  rw [legibleTypeParams_iff] at h
  cases ps with
  | nil => exact (takes_accept_false hu).then Takes.pure.reads
  | cons p ps =>
    rw [length_angledLexemes (by simp)] at hm
    rw [List.map_cons, angledLexemes, ← List.map_cons, List.append_assoc,
      documented_append (by simp), List.append_assoc, List.append_assoc]
    · refine Takes.then (takes_accept rfl) ?_
      rw [if_pos rfl]
      have hcount : ((p :: ps).map TypeParam.lexemes).length ≤ _ :=
        count_le_separated (s := .comma)
      rw [List.length_map] at hcount
      rw [← Bool.and_true (List.all _ _)]
      refine Reads.bind (Reads.commaList (F := fun k => k = .comma ∨ k = .rangle) (.inl rfl)
        (.inr rfl) (by simp) rfl (by omega) (fun p hp => TypeParam.startsWith (h p hp))
        fun p hp us hus => hr.typeParam (h p hp) ?_ hus) ?_ fun _ _ => .expect (by simp)
      · have := length_le_separated (s := .comma)
          (List.mem_map_of_mem (f := TypeParam.lexemes) hp)
        omega
      · exact Takes.reads ((takes_expect rfl).bind .pure)
    · simp

theorem Reader.typeParams (hr : Reader m ty) (hn : m < n) {ps : List TypeParam}
    (h : legibleTypeParams ps) (hm : (angledLexemes (lexemesTypeParams ps)).length ≤ m)
    (hu : kindAt us 0 ≠ .langle) :
    Reads inSuper (clearTypeParams inSuper ps) (Parser.typeParams n ty inSuper)
      (angledLexemes (lexemesTypeParams ps) ++ us) (rereadTypeParams ps) us := by
  obtain ⟨d, hd⟩ := exists_documented (angledLexemes (lexemesTypeParams ps))
  have : Reads inSuper _ _ _ _ us := hr.typeParams_documented hn h hm hu d
  rwa [hd] at this

/-! ## Parameters -/

/-- How a parameter begins. The lexeme behind a name of one token is none that could follow a
modifier. -/
theorem Param.front {p : Param} (h : p.Legible) (us : List Lexeme) :
    kindAt (p.lexemes ++ us) 0 = .symbol .ellipsis ∧ p.rest = true ∨
      (kindAt (p.lexemes ++ us) 0 = .lbrace ∨ kindAt (p.lexemes ++ us) 0 = .lbracket) ∧
        Pattern p.name ∨
      Names (kindAt (p.lexemes ++ us) 0) p.name ∧ (kindAt (p.lexemes ++ us) 1 = .question ∨
        kindAt (p.lexemes ++ us) 1 = .colon ∧ p.optional = false ∧ p.ty.isSome = true ∨
        kindAt (p.lexemes ++ us) 1 = kindAt us 0) := by
  obtain ⟨name, ty, optional, rest⟩ := p
  rw [Legible] at h
  simp only [lexemes, List.append_assoc]
  cases rest with
  | true => exact .inl ⟨rfl, rfl⟩
  | false =>
    refine .inr ?_
    rcases h.1.cases with ⟨l, hl, -, hk⟩ | ⟨hp, l, r, hl, hk⟩
    · rw [hl]
      refine .inr ⟨hk, ?_⟩
      cases optional with
      | true => exact .inl rfl
      | false =>
        cases ty with
        | some t => exact .inr (.inl ⟨rfl, rfl, rfl⟩)
        | none => exact .inr (.inr rfl)
    · rw [hl]
      exact .inl ⟨hk, hp⟩

/-- Modifiers are looked for in vain. -/
theorem skipParamModifiers_eq {ls : List Lexeme} {ts : List Token}
    (hts : List.Forall₂ Lexeme.Describes ls ts)
    (h : (kindAt ls 0).isParamModifier = true → (kindAt ls 1).isWord = false) :
    skipParamModifiers ts = ts := by
  cases hts with
  | nil => rfl
  | cons ht hts =>
    cases hts with
    | nil => rfl
    | cons hu hts =>
      rw [skipParamModifiers, ht.1, hu.1, if_neg]
      simpa using h

theorem Names.ne_symbol {k : Kind} {s : String} (h : Names k s) (y : Symbol) : k ≠ .symbol y := by
  rintro rfl
  rcases h with h | h | ⟨v, h, -⟩
  · simp [Kind.wordText?] at h
  · simp at h
  · simp at h

/-- A parameter is not taken for the receiver. -/
theorem Param.not_receiver {p : Param} (h : p.Legible)
    (hu : kindAt us 0 = .comma ∨ kindAt us 0 = .rparen) :
    ¬ (kindAt (p.lexemes ++ us) 0 = .keyword .thisKw ∧ kindAt (p.lexemes ++ us) 1 = .colon) := by
  rintro ⟨h₀, h₁⟩
  have hfront := front h us
  rw [h₀, h₁] at hfront
  obtain ⟨name, ty, optional, rest⟩ := p
  rw [Legible] at h
  rcases hfront with ⟨hk, -⟩ | ⟨hk | hk, -⟩ | ⟨hk, hq⟩
  · simp at hk
  · simp at hk
  · simp at hk
  · rcases hq with hq | ⟨-, hopt, hty⟩ | hq
    · simp at hq
    -- Only what can stand for the receiver has this name and neither dots nor a question mark. A
    -- legible parameter of that name has no type then.
    · have hname : name = "this" := by
        rcases hk with hk | hk | ⟨v, hk, -⟩
        · exact (Option.some.inj hk).symm
        · simp at hk
        · simp at hk
      rcases h.2.1 hname with hrest | ho | ht
      · subst hrest
        simp [lexemes, lexemesIf] at h₀
      · simp only at hopt
        simp [hopt] at ho
      · simp only at hty
        simp [hty] at ht
    · rcases hu with hu | hu <;> rw [hu] at hq <;> simp at hq

theorem Param.startsWith {p : Param} (h : p.Legible) :
    StartsWith (fun k => k ≠ .rparen ∧ k ≠ .eof) p.lexemes := by
  obtain ⟨name, ty, optional, rest⟩ := p
  rw [Legible] at h
  simp only [lexemes, List.append_assoc]
  cases rest with
  | true => exact ⟨_, _, rfl, by simp, by simp⟩
  | false =>
    rcases h.1.cases with ⟨l, hl, -, hk⟩ | ⟨-, l, r, hl, hk⟩
    · refine ⟨l, _, by rw [hl]; rfl, hk.ne_symbol _, ?_⟩
      rintro he
      rw [he] at hk
      simp [Names, Kind.wordText?] at hk
    · exact ⟨l, _, by rw [hl]; rfl, by rcases hk with hk | hk <;> simp [hk],
        by rcases hk with hk | hk <;> simp [hk]⟩

/-- The name of a parameter. -/
theorem takes_paramName {s : String} (h : ParamName s) {f : String → Parser Param} {b : Bool}
    {v : Param} {ms : List Lexeme} (hf : Reads inSuper b (f s) us v ms) :
    Reads inSuper b (Parser.peek >>= fun k =>
      if k = .lbrace ∨ k = .lbracket then Parser.pattern >>= f else Parser.propertyName >>= f)
      (lexemesOf s ++ us) v ms := by
  refine Takes.then takes_peek ?_
  rcases h.cases with ⟨l, hl, -, hk⟩ | ⟨hp, l, r, hl, hk⟩
  · have hne : ¬ (l.kind = .lbrace ∨ l.kind = .lbracket) :=
      not_or.2 ⟨hk.ne_symbol _, hk.ne_symbol _⟩
    rw [hl, List.singleton_append, kindAt_cons_zero, if_neg hne]
    exact Takes.then hk.takes_propertyName hf
  · have hhead : kindAt (lexemesOf s ++ us) 0 = l.kind := by rw [hl]; rfl
    rw [hhead, if_pos hk]
    exact Takes.then (takes_pattern hp) hf

/-- A parameter other than the receiver. -/
theorem Reader.plainParam (hr : Reader m ty) {p : Param} (h : p.Legible)
    (hm : p.lexemes.length ≤ m) (hu : kindAt us 0 = .comma ∨ kindAt us 0 = .rparen) :
    Reads inSuper (p.clear inSuper) (Parser.plainParam ty inSuper) (p.lexemes ++ us) p.reread
      us := by
  have hskip : (kindAt (p.lexemes ++ us) 0).isParamModifier = true →
      (kindAt (p.lexemes ++ us) 1).isWord = false := by
    intro hp
    rcases Param.front h us with ⟨hk, -⟩ | ⟨hk | hk, -⟩ | ⟨-, hk | ⟨hk, -⟩ | hk⟩
    · rw [hk] at hp; simp [Kind.isParamModifier] at hp
    · rw [hk] at hp; simp [Kind.isParamModifier] at hp
    · rw [hk] at hp; simp [Kind.isParamModifier] at hp
    · rw [hk]; rfl
    · rw [hk]; rfl
    · rw [hk]; rcases hu with hu | hu <;> rw [hu] <;> rfl
  refine (show Takes _ _ _ (p.lexemes ++ us) from takes_skip fun ts hts => ?_).then ?_
  · rw [skipParamModifiers_eq hts hskip]
    exact hts
  obtain ⟨name, type, optional, rest⟩ := p
  rw [Param.Legible] at h
  simp only [Param.lexemes, List.length_append] at hm
  simp only [Param.lexemes, List.append_assoc, Param.clear, Param.reread]
  have hends : (kindAt us 0).endsType = true := by
    rcases hu with hu | hu <;> rw [hu] <;> rfl
  have hne (y : Symbol) (hy : y ≠ .comma ∧ y ≠ .rparen) : kindAt us 0 ≠ .symbol y := by
    rcases hu with hu | hu <;> rw [hu] <;> simp [hy.1.symm, hy.2.symm]
  refine Takes.then (takes_acceptIf rest ?_)
    (takes_paramName h.1 (Takes.then (takes_acceptIf optional ?_) ?_))
  · rcases h.1.cases with ⟨l, hl, -, hk⟩ | ⟨-, l, r, hl, hk⟩
    · rw [hl]
      exact hk.ne_symbol _
    · rw [hl]
      rcases hk with hk | hk <;> simp [hk]
  · exact kindAt_opt (P := (· ≠ .question)) type (by simp) (hne _ (by decide))
  rw [← Bool.and_true (clearOpt inSuper type)]
  refine (hr.opt h.2.2 rfl (by omega) hends (hne _ (by decide))).bind ?_ fun _ _ =>
    .after? (by simp) .pure
  exact Takes.reads ((takes_after?_none (hne _ (by decide))).bind .pure)

/-- A parameter, or the type of the receiver. -/
def argLexemes : Ty ⊕ Param → List Lexeme :=
  Sum.elim (fun t => [.kw .thisKw, .sym .colon] ++ t.lexemes) Param.lexemes

theorem Reader.param (hr : Reader m ty) {a : Ty ⊕ Param}
    (h : a.elim (fun t => t.isPredicate = false ∧ t.Legible) Param.Legible)
    (hm : (argLexemes a).length ≤ m) (hu : kindAt us 0 = .comma ∨ kindAt us 0 = .rparen) :
    Reads inSuper (a.elim (Ty.clear inSuper) (Param.clear inSuper)) (Parser.param ty inSuper)
      (argLexemes a ++ us) (a.map Ty.reread Param.reread) us := by
  refine Takes.then takes_peek (Takes.then (takes_peekAt 1) ?_)
  cases a with
  | inl t =>
    have hends : (kindAt us 0).endsType = true := by
      rcases hu with hu | hu <;> rw [hu] <;> rfl
    rw [if_pos ⟨rfl, rfl⟩]
    refine Takes.then takes_advance (Takes.then takes_advance ?_)
    refine (hr.full h.2 h.1 ?_ hends).map _
    simp only [argLexemes, Sum.elim_inl, List.length_append] at hm
    omega
  | inr p =>
    rw [show argLexemes (.inr p) = p.lexemes from rfl, if_neg (Param.not_receiver h hu)]
    exact (hr.plainParam h hm hu).map _

theorem map_argLexemes (receiver : Option Ty) (ps : List Param) :
    (receiver.toList.map Sum.inl ++ ps.map Sum.inr).map argLexemes =
      lexemesReceiver receiver ++ lexemesParams ps := by
  rw [lexemesParams_eq_map]
  cases receiver <;> simp [lexemesReceiver, argLexemes]

/-- Parameters in parentheses, and the type of the receiver. -/
theorem Reader.params (hr : Reader m ty) (hn : m < n) {receiver : Option Ty} {ps : List Param}
    {l : Lexeme} (hl : l.kind = .lparen) (h : legibleOpt receiver) (hps : legibleParams ps)
    (hm : (separated .comma (lexemesReceiver receiver ++ lexemesParams ps)).length + 1 ≤ m) :
    Reads inSuper (clearOpt inSuper receiver && clearParams inSuper ps)
      (Parser.params n ty inSuper)
      (l :: (separated .comma (lexemesReceiver receiver ++ lexemesParams ps) ++
        ([.sym .rparen] ++ us)))
      (rereadOpt receiver, rereadParams ps) us := by
  -- The receiver is read as one more element in front of the others.
  have hargs : ∀ a ∈ receiver.toList.map Sum.inl ++ ps.map Sum.inr,
      a.elim (fun t => t.isPredicate = false ∧ t.Legible) Param.Legible := by
    rw [legibleParams_iff] at hps
    intro a ha
    rcases List.mem_append.1 ha with ha | ha
    · obtain ⟨t, ht, rfl⟩ := List.mem_map.1 ha
      obtain rfl : receiver = some t := by simpa using ht
      exact h
    · obtain ⟨p, hp, rfl⟩ := List.mem_map.1 ha
      exact hps p hp
  have hclear : (receiver.toList.map Sum.inl ++ ps.map Sum.inr).all
      (Sum.elim (Ty.clear inSuper) (Param.clear inSuper)) =
      (clearOpt inSuper receiver && clearParams inSuper ps) := by
    rw [clearParams_eq_all, List.all_append, List.all_map, List.all_map]
    cases receiver <;> simp [clearOpt, Function.comp_def]
  have hval : (((receiver.toList.map Sum.inl ++ ps.map Sum.inr).map
      (Sum.map Ty.reread Param.reread)).filterMap Sum.getLeft?).getLast? = rereadOpt receiver ∧
      ((receiver.toList.map Sum.inl ++ ps.map Sum.inr).map
        (Sum.map Ty.reread Param.reread)).filterMap Sum.getRight? = rereadParams ps := by
    rw [rereadParams_eq_map]
    cases receiver <;> simp [rereadOpt, Function.comp_def, List.filterMap_map, List.filterMap_cons]
  rw [← hclear, ← hval.1, ← hval.2, ← map_argLexemes]
  rw [← map_argLexemes] at hm
  have hcount : ((receiver.toList.map Sum.inl ++ ps.map Sum.inr).map argLexemes).length ≤ _ :=
    count_le_separated (s := .comma)
  rw [List.length_map] at hcount
  refine Takes.then (takes_expect hl) ?_
  rw [← Bool.and_true (List.all _ _)]
  refine Reads.bind (Reads.commaList (F := fun k => k = .comma ∨ k = .rparen) (.inl rfl) (.inr rfl)
    (by simp) rfl (by omega) (fun a ha => ?_) fun a ha us hus => hr.param (hargs a ha) ?_ hus)
    (Takes.reads ((takes_expect rfl).bind .pure)) fun _ _ => .expect (by simp)
  · cases a with
    | inl t => exact ⟨_, _, rfl, by simp, by simp⟩
    | inr p => exact Param.startsWith (hargs _ ha)
  · have := length_le_separated (s := .comma) (List.mem_map_of_mem (f := argLexemes) ha)
    omega

/-- Parameters in parentheses where no receiver can stand. -/
theorem Reader.plainParams (hr : Reader m ty) (hn : m < n) {ps : List Param}
    (hps : legibleParams ps) (hm : (separated .comma (lexemesParams ps)).length + 1 ≤ m) :
    Reads inSuper (clearParams inSuper ps) (Parser.params n ty inSuper)
      (.sym .lparen :: (separated .comma (lexemesParams ps) ++ ([.sym .rparen] ++ us)))
      (none, rereadParams ps) us :=
  hr.params hn rfl (show legibleOpt none by simp [legibleOpt]) hps hm

/-- **Type parameters and parameters,** with or without documentation. -/
theorem Reader.signature_documented (hr : Reader m ty) (hn : m < n) {sig : Signature}
    (h : sig.Legible) (hm : sig.lexemes.length ≤ m) (d : Option String) :
    Reads inSuper (sig.clear inSuper) (Parser.signature n ty inSuper)
      (documented d sig.lexemes ++ us) sig.reread us := by
  obtain ⟨typeParams, receiver, params⟩ := sig
  rw [Signature.Legible] at h
  simp only [Signature.lexemes, List.length_append, List.length_singleton] at hm
  simp only [Signature.lexemes, List.append_assoc, Signature.clear, Signature.reread]
  have hparams {l : Lexeme} (hl : l.kind = .lparen) : Reads inSuper _ _ _ _ us :=
    hr.params hn hl h.2.1 h.2.2 (by omega)
  rw [← Bool.and_true (clearOpt inSuper receiver && clearParams inSuper params)]
  cases typeParams with
  | nil =>
    refine Takes.then (p := Parser.typeParams n ty inSuper)
      ((takes_accept_false (by simp [angledLexemes, documented, lexemesTypeParams])).bind .pure) ?_
    have hp := hparams (l := { Lexeme.sym .lparen with doc := d }) rfl
    simp only [lexemesTypeParams, angledLexemes, List.nil_append, documented, List.cons_append,
      List.append_assoc] at hp ⊢
    exact hp.bind Takes.pure.reads fun _ _ => .pure
  | cons p ps =>
    rw [documented_append (by simp [lexemesTypeParams, angledLexemes]), List.append_assoc,
      List.append_assoc, List.append_assoc]
    refine (hr.typeParams_documented hn h.1 (by omega) (by simp) d).bind ?_ fun _ _ =>
      .bind (.expect (by simp)) fun _ => .pure
    exact (hparams rfl).bind Takes.pure.reads fun _ _ => .pure

theorem Reader.signature (hr : Reader m ty) (hn : m < n) {sig : Signature} (h : sig.Legible)
    (hm : sig.lexemes.length ≤ m) :
    Reads inSuper (sig.clear inSuper) (Parser.signature n ty inSuper) (sig.lexemes ++ us)
      sig.reread us := by
  obtain ⟨d, hd⟩ := exists_documented sig.lexemes
  have : Reads inSuper _ _ _ _ us := hr.signature_documented hn h hm d
  rwa [hd] at this

/-! ## Results -/

theorem Subject.lexeme {s : String} (h : Subject s) :
    ∃ l, lexemesOf s = [l] ∧ (l.kind = .ident s ∨ l.kind = .keyword .thisKw ∧ s = "this") := by
  rcases h with h | rfl
  · obtain ⟨l, hl, -, hk⟩ := h.lexeme
    exact ⟨l, hl, .inl hk⟩
  · exact ⟨_, (spelled_keyword .thisKw).lexemesOf_eq, .inr ⟨rfl, rfl⟩⟩

theorem takes_predicateSubject {s : String} (h : Subject s) :
    Takes Parser.predicateSubject (lexemesOf s ++ us) s us := by
  rcases h with h | rfl
  · obtain ⟨l, hl, -, hk⟩ := h.lexeme
    refine Takes.bind (takes_accept_false ?_) (takes_identifier h.binder)
    rw [hl, List.singleton_append, kindAt_cons_zero, hk]
    simp
  · rw [(spelled_keyword .thisKw).lexemesOf_eq (s := "this")]
    exact (takes_accept rfl).bind .pure

/-- The second lexeme of a type is not taken for what tells about an argument. -/
theorem Leads.not_subject {ls : List Lexeme} (h : Leads ls) (hu : (kindAt us 0).endsType = true)
    (h₀ : (kindAt (ls ++ us) 0).isSubject = true) :
    (kindAt (ls ++ us) 1).isSubject = false ∧ kindAt (ls ++ us) 1 ≠ .keyword .isKw := by
  have hw : (kindAt (ls ++ us) 0).isWord = true := by
    generalize kindAt (ls ++ us) 0 = k at h₀
    cases k <;> simp [Kind.isSubject, Kind.isIdent] at h₀ <;> rfl
  rcases h.kindAt_one us hw with hl | hf
  · obtain ⟨l, rfl⟩ := List.length_eq_one_iff.1 hl
    rw [List.singleton_append, kindAt_cons_succ]
    generalize kindAt us 0 = k at hu
    unfold Kind.endsType at hu
    split at hu <;> first | exact ⟨rfl, by simp⟩ | simp at hu
  · exact Kind.followsWord_isSubject hf h₀

/-- **The type of a result.** -/
theorem Reader.result (hr : Reader m ty) {t : Ty} (h : t.Legible) (hm : t.lexemes.length ≤ m)
    (hu : (kindAt us 0).endsType = true) :
    Reads inSuper (t.clear inSuper) (Parser.result ty inSuper) (t.lexemes ++ us) t.reread us := by
  refine Takes.then takes_peek (Takes.then (takes_peekAt 1) ?_)
  cases hp : t.isPredicate with
  | false =>
    have hlead := t.leads h hp
    -- The type shows neither of the two starts of a predicate.
    rw [if_neg, if_neg]
    · exact hr.full h hp hm hu
    · rintro ⟨h₀, h₁⟩
      refine (hlead.not_subject hu ?_).2 h₁
      simpa [Kind.isSubject] using h₀
    · rintro ⟨h₀, h₁⟩
      have := (hlead.not_subject hu (by rw [h₀]; rfl)).1
      simp [Kind.isSubject] at this
      rcases h₁ with h₁ | h₁
      · simp [h₁] at this
      · simp [h₁] at this
  | true =>
    cases t <;> try simp [Ty.isPredicate] at hp
    rename_i asserts subject type
    rw [Ty.Legible] at h
    obtain ⟨l, hl, hk⟩ := h.1.lexeme
    simp only [Ty.lexemes, List.length_append] at hm
    simp only [Ty.lexemes, List.append_assoc, Ty.clear, Ty.reread]
    have hsubject : l.kind.isIdent = true ∨ l.kind = .keyword .thisKw := by
      rcases hk with hk | ⟨hk, -⟩
      · exact .inl (by rw [hk]; rfl)
      · exact .inr hk
    rw [← Bool.and_true (clearOpt inSuper type)]
    cases asserts with
    | true =>
      rw [if_pos ⟨rfl, by rw [hl]; exact hsubject⟩]
      refine Takes.then takes_advance (Takes.then (takes_predicateSubject h.1) ?_)
      refine (hr.opt h.2.2 rfl (by omega) hu ?_).bind Takes.pure.reads fun _ _ => .pure
      rintro he
      simp [he, Kind.endsType] at hu
    | false =>
      cases type with
      | none => simp at h
      | some t =>
        have h' := h.2.2
        rw [legibleOpt] at h'
        have hfront : kindAt (lexemesIf false [{ kind := .ident "asserts" }] ++
            (lexemesOf subject ++ (lexemesOpt (.kw .isKw) (some t) ++ us))) 0 = l.kind := by
          rw [hl]; rfl
        have hsecond : kindAt (lexemesIf false [{ kind := .ident "asserts" }] ++
            (lexemesOf subject ++ (lexemesOpt (.kw .isKw) (some t) ++ us))) 1 =
            .keyword .isKw := by
          rw [hl]; rfl
        rw [hfront, hsecond, if_neg (by simp [Kind.isIdent]), if_pos ⟨hsubject, rfl⟩]
        refine Takes.then (takes_predicateSubject h.1) (Takes.then (takes_expect rfl) ?_)
        refine (hr.full h'.2 h'.1 ?_ hu).bind Takes.pure.reads fun _ _ => .pure
        simp only [lexemesOpt, List.length_append] at hm
        omega

/-- A colon and the type of a result, or nothing. -/
theorem Reader.result? (hr : Reader m ty) {t : Option Ty} (h : legibleResult t)
    (hm : (lexemesOpt (.sym .colon) t).length ≤ m) (hu : (kindAt us 0).endsType = true)
    (hc : kindAt us 0 ≠ .colon) :
    Reads inSuper (clearOpt inSuper t) (Parser.result? ty inSuper)
      (lexemesOpt (.sym .colon) t ++ us) (rereadOpt t) us := by
  cases t with
  | none => exact (takes_after?_none hc).reads
  | some t =>
    rw [legibleResult] at h
    refine Reads.after?_some rfl (hr.result h ?_ hu)
    simp only [lexemesOpt, List.length_append, List.length_singleton] at hm
    omega

end Ambient
