import Ambient.Proofs.Parser.Reads
import Ambient.Proofs.Token.Names

/-!
# Reading names

Each reader of a name takes the lexemes of a fitting text and gives the text back. For texts that
are kept as written this rests on `Kept.span_eq`: from the first to the last token nothing of the
text is lost.
-/

namespace Ambient

open Text (quote trim)

variable {s : String} {us : List Lexeme}

/-! ## The text between the first and the last token -/

theorem forall₂_append_left {α β : Type} {R : α → β → Prop} {as bs : List α} {cs : List β}
    (h : List.Forall₂ R (as ++ bs) cs) :
    ∃ ds es, cs = ds ++ es ∧ List.Forall₂ R as ds ∧ List.Forall₂ R bs es := by
  induction as generalizing cs with
  | nil => exact ⟨[], cs, rfl, .nil, h⟩
  | cons a as ih =>
    cases h with
    | cons ha h =>
      obtain ⟨ds, es, rfl, hd, he⟩ := ih h
      exact ⟨_ :: ds, es, rfl, .cons ha hd, he⟩

theorem flatMap_gather {ps : List Piece} (h : ∀ p ∈ ps.getLast?, p.IsToken) (hps : ps ≠ [])
    (gap : List Char) (doc : Option String) :
    (gather gap doc ps).flatMap (fun t => t.gap ++ t.text) = gap ++ textOf ps := by
  induction ps generalizing gap doc with
  | nil => exact absurd rfl hps
  | cons p ps ih =>
    cases ps with
    | nil =>
      obtain ⟨k, hk⟩ := h p rfl
      simp [gather, hk]
    | cons q ps =>
      have ih' := ih (by simpa using h) (by simp)
      rw [gather]
      cases p.content with
      | skipped => simp only [ih', textOf_cons, List.append_assoc]
      | doc d => simp only [ih', textOf_cons, List.append_assoc]
      | token k => simp [ih']

theorem flatMap_eq_of_describes {ts us : List Token}
    (h : List.Forall₂ Lexeme.Describes (ts.map Lexeme.ofToken) us) :
    us.flatMap (fun t => t.gap ++ t.text) = ts.flatMap fun t => t.gap ++ t.text := by
  induction ts generalizing us with
  | nil => cases h; rfl
  | cons t ts ih =>
    cases h with
    | cons ht h =>
      rw [List.flatMap_cons, List.flatMap_cons, ih h, ht.2.2.1 _ rfl, ht.2.2.2 _ rfl]

/-- **The tokens of a text that is kept as written have its characters.** -/
theorem Kept.span_eq {ps : List Piece} (h : Kept s ps) {ts : List Token}
    (hts : List.Forall₂ Lexeme.Describes (lexemesOf s) ts) : Token.span ts = s.toList := by
  rw [h.lexemesOf_eq] at hts
  rw [← h.text]
  cases ps with
  | nil => cases hts; rfl
  | cons p ps =>
    obtain ⟨k, hk⟩ := h.head p rfl
    simp only [gather, hk, lexemesOfTokens] at hts
    cases hts with
    | cons ht hts =>
      rw [Token.span, flatMap_eq_of_describes hts, ht.2.2.2 _ rfl, textOf_cons]
      cases ps with
      | nil => rfl
      | cons q ps =>
        have hl := h.last
        rw [List.getLast?_cons_cons] at hl
        rw [flatMap_gather hl (by simp)]
        rfl

theorem Kept.map_kind_tokens {ps : List Piece} (h : Kept s ps) {ts : List Token}
    (hts : List.Forall₂ Lexeme.Describes (lexemesOf s) ts) : ts.map Token.kind = kindsOf ps := by
  rw [← h.map_kind, map_kind_of_describes hts]

/-! ## Scans -/

theorem passComputedName?_of_closesName {depth : Nat} {ts : List Token}
    (h : closesName depth (ts.map Token.kind) = true) (passed rest : List Token) :
    passComputedName? depth passed (ts ++ rest) = some (ts.reverse ++ passed, rest) := by
  induction ts generalizing depth passed with
  | nil => simp [closesName] at h
  | cons t ts ih =>
    simp only [List.map_cons, closesName] at h
    simp only [List.cons_append, passComputedName?]
    split <;> simp_all
    -- a bracket that closes is the last one, or one of those in it
    split at h
    · simp_all
    · next hd => simp [hd, ih h]

theorem passPattern?_of_closesPattern {depth : Nat} {ts : List Token}
    (h : closesPattern depth (ts.map Token.kind) = true) (passed rest : List Token) :
    passPattern? depth passed (ts ++ rest) = some (ts.reverse ++ passed, rest) := by
  induction ts generalizing depth passed with
  | nil => simp [closesPattern] at h
  | cons t ts ih =>
    simp only [List.map_cons, closesPattern] at h
    simp only [List.cons_append, passPattern?]
    split <;> simp_all
    all_goals
      split at h
      · simp_all
      · next hd => simp [hd, ih h]

/-- What ends an expression outside of all brackets. -/
def EndsExpression (k : Kind) : Prop :=
  k = .comma ∨ k = .semicolon ∨ k = .rbrace

theorem passExpression_of_endsExpression {depth : Nat} {ts : List Token} {t : Token}
    (h : endsExpression depth (ts.map Token.kind) = true) (passed rest : List Token)
    (ht : EndsExpression t.kind) :
    passExpression depth passed (ts ++ t :: rest) = (ts.reverse ++ passed, t :: rest) := by
  induction ts generalizing depth passed with
  | nil =>
    obtain rfl : depth = 0 := by simpa [endsExpression] using h
    rcases ht with h | h | h <;> simp [passExpression, h]
  | cons u ts ih =>
    simp only [List.map_cons, endsExpression] at h
    simp only [List.cons_append, passExpression]
    split <;> simp_all

/-! ## Readers -/

theorem Shows.split {c : Cursor} {ls : List Lexeme} (h : Shows c (ls ++ us)) :
    ∃ ts rest, c.rest = ts ++ rest ∧ List.Forall₂ Lexeme.Describes ls ts ∧
      List.Forall₂ Lexeme.Describes us rest :=
  forall₂_append_left h.rest

/-- A scan that passes the tokens of a text gives the text. -/
theorem takes_scanned {ps : List Piece} (hs : Kept s ps) (ht : trim s.toList = s.toList)
    {cause : Cause} {scan : List Token → Option (List Token × List Token)}
    (h : ∀ ts rest, ts.map Token.kind = kindsOf ps → scan (ts ++ rest) = some (ts.reverse, rest))
    (d : Option String) :
    Takes (Parser.scanned cause scan) (documented d (lexemesOf s) ++ us) s us := by
  intro c hc
  obtain ⟨ts, rest, hr, hts, hus⟩ := hc.split
  obtain ⟨ts', hts', hk, hspan⟩ := describes_documented hts
  refine ⟨{ c with rest }, ?_, ⟨hus, hc.eof⟩⟩
  rw [Parser.scanned, hr, h ts rest (by rw [← hk, hs.map_kind_tokens hts'])]
  simp only [Parser.written, List.reverse_reverse, ← hspan, hs.span_eq hts', ht,
    String.ofList_toList]

theorem takes_computedName (h : Computed s) (d : Option String) :
    Takes Parser.computedName (documented d (lexemesOf s) ++ us) s us := by
  obtain ⟨ps, hs, ht, -, hc, -⟩ := h
  refine takes_scanned hs ht (fun ts rest hk => ?_) d
  rw [passComputedName?_of_closesName (by rw [hk]; exact hc), List.append_nil]

theorem takes_pattern (h : Pattern s) : Takes Parser.pattern (lexemesOf s ++ us) s us := by
  obtain ⟨ps, hs, ht, -, hc, -⟩ := h
  obtain ⟨d, hd⟩ := exists_documented (lexemesOf s)
  rw [← hd]
  refine takes_scanned hs ht (fun ts rest hk => ?_) d
  rw [passPattern?_of_closesPattern (by rw [hk]; exact hc), List.append_nil]

/-- An initializer is passed up to what ends it. -/
theorem takes_expression (h : Initializer s) (hu : EndsExpression (kindAt us 0)) :
    Takes Parser.expression (lexemesOf s ++ us) s us := by
  obtain ⟨ps, hs, ht, hc⟩ := h
  intro c hsh
  obtain ⟨ts, rest, hr, hts, hus⟩ := hsh.split
  refine ⟨{ c with rest }, ?_, ⟨hus, hsh.eof⟩⟩
  cases hus with
  | nil => simp [EndsExpression] at hu
  | cons hl hus =>
    rename_i l t us rest
    have hend : EndsExpression t.kind := by rw [hl.1]; exact hu
    have hpass := passExpression_of_endsExpression (by rw [hs.map_kind_tokens hts]; exact hc) []
      rest hend
    rw [Parser.expression, hr, hpass]
    simp only [Parser.written, List.append_nil, List.reverse_reverse, hs.span_eq hts, ht,
      String.ofList_toList]

/-- A name that binds something is read from its only token. -/
theorem Binder.takes_identifier {k : Kind} (h : Binder s) (hk : Spelled s k) {l : Lexeme}
    (hl : l.kind = k) : Takes Parser.identifier (l :: us) s us := by
  refine takes_peek.bind ?_
  rw [kindAt_cons_zero, hl]
  rcases h with h | ⟨w, rfl, hw⟩
  · rw [hk.unique h]
    exact takes_advance.bind .pure
  · rw [hk.unique (spelled_keyword w)]
    show Takes (if w.bindsName = true then _ else _) _ _ _
    rw [if_pos hw]
    exact takes_advance.bind .pure

theorem takes_identifier (h : Binder s) : Takes Parser.identifier (lexemesOf s ++ us) s us := by
  obtain ⟨k, hk, -⟩ := h.word.spelled
  rw [hk.lexemesOf_eq]
  exact h.takes_identifier hk rfl

theorem dottedRest_of_trailKinds {ts rest : List Token} {ks : List Kind} {ws : List String}
    (hts : ts.map Token.kind = trailKinds ks) (hk : ks.map Kind.wordText? = ws.map some)
    (hr : ∀ t ∈ rest.head?, t.kind ≠ .symbol .dot) :
    Parser.dottedRest (ts ++ rest) = (trail ws, rest) := by
  induction ks generalizing ts ws with
  | nil =>
    obtain rfl : ts = [] := by simpa [trailKinds] using hts
    obtain rfl : ws = [] := by simpa using hk.symm
    rcases rest with _ | ⟨t, _ | ⟨u, rest⟩⟩
    · rfl
    · rfl
    · simp [Parser.dottedRest, hr t rfl, trail]
  | cons k ks ih =>
    rcases ts with _ | ⟨t, _ | ⟨u, ts⟩⟩
    · simp [trailKinds] at hts
    · simp [trailKinds] at hts
    · cases ws with
      | nil => simp at hk
      | cons w ws =>
        obtain ⟨ht, hu, hts⟩ : t.kind = .symbol .dot ∧ u.kind = k ∧
            ts.map Token.kind = trailKinds ks := by simpa [trailKinds] using hts
        obtain ⟨hw, hk⟩ : k.wordText? = some w ∧ ks.map Kind.wordText? = ws.map some := by
          simpa using hk
        simp only [List.cons_append, Parser.dottedRest, ht, if_pos, hu, hw, ih hts hk]
        simp [trail]

/-- **A dotted name is read up to what is no dot.** -/
theorem takes_dottedName (h : DottedPath s) (hu : kindAt us 0 ≠ .symbol .dot) :
    Takes Parser.dottedName (lexemesOf s ++ us) s us := by
  obtain ⟨a, ws, ps, k, ks, ha, rfl, hs, hsp, hka, hk, hw, -⟩ := Dotted.kept (fun _ => Binder.word) h
  have hkinds := hs.map_kind
  rw [hk] at hkinds
  obtain ⟨l, ls, hl, hlk, hls⟩ := List.map_eq_cons_iff.1 hkinds
  rw [hl]
  refine (ha.takes_identifier hsp hlk).bind fun c hc => ?_
  obtain ⟨ts, rest, hr, hts, hus⟩ := hc.split
  have hkt : ts.map Token.kind = trailKinds ks := by
    rw [← hls]
    clear hc hr hl hls hkinds
    induction hts with
    | nil => rfl
    | cons ht _ ih => rw [List.map_cons, List.map_cons, ih, ht.1]
  have hdot : ∀ t ∈ rest.head?, t.kind ≠ .symbol .dot := by
    cases hus with
    | nil => simp
    | cons hd _ => simpa [hd.1] using hu
  refine ⟨{ c with rest }, ?_, ⟨hus, hc.eof⟩⟩
  show Except.ok _ = _
  rw [hr, dottedRest_of_trailKinds hkt hw hdot]

/-! ## Names of properties and parameters -/

/-- The kinds of a name of one token. -/
def Names (k : Kind) (s : String) : Prop :=
  k.wordText? = some s ∨ k = .number s ∨ ∃ v, k = .string v ∧ s = quote v

theorem Names.takes_propertyName {l : Lexeme} (h : Names l.kind s) :
    Takes Parser.propertyName (l :: us) s us := by
  refine takes_peek.bind ?_
  rw [kindAt_cons_zero]
  rcases h with h | h | ⟨v, h, rfl⟩
  · cases hk : l.kind with
    | ident name =>
      obtain rfl : name = s := by simpa [hk, Kind.wordText?] using h
      exact takes_advance.bind .pure
    | keyword w =>
      obtain rfl : w.text = s := by simpa [hk, Kind.wordText?] using h
      exact takes_advance.bind .pure
    | _ => simp [hk, Kind.wordText?] at h
  · rw [h]
    exact takes_advance.bind .pure
  · rw [h]
    exact takes_advance.bind .pure

theorem Word.lexeme (h : Word s) :
    ∃ l, lexemesOf s = [l] ∧ l.doc = none ∧ l.kind.wordText? = some s := by
  obtain ⟨k, hk, hw⟩ := h.spelled
  exact ⟨_, hk.lexemesOf_eq, rfl, hw⟩

theorem Ident.lexeme (h : Ident s) : ∃ l, lexemesOf s = [l] ∧ l.doc = none ∧ l.kind = .ident s :=
  ⟨_, Spelled.lexemesOf_eq h, rfl, rfl⟩

/-- The lexeme of a name of one token. -/
theorem names_lexeme (h : Word s ∨ Number s ∨ ∃ v, s = quote v) :
    ∃ l, lexemesOf s = [l] ∧ l.doc = none ∧ Names l.kind s := by
  rcases h with h | h | ⟨v, rfl⟩
  · obtain ⟨l, hl, hd, hk⟩ := h.lexeme
    exact ⟨l, hl, hd, .inl hk⟩
  · exact ⟨_, Spelled.lexemesOf_eq h, rfl, .inr (.inl rfl)⟩
  · exact ⟨_, (spelled_quote v).lexemesOf_eq, rfl, .inr (.inr ⟨v, rfl, rfl⟩)⟩

theorem Verbatim.lexemes {P : List Kind → Prop} (h : Verbatim P s) :
    P ((lexemesOf s).map Lexeme.kind) ∧ ∀ l ∈ (lexemesOf s).head?, l.doc = none := by
  obtain ⟨ps, hs, -, hp⟩ := h
  exact ⟨by rwa [hs.map_kind], hs.doc_head⟩

theorem MemberName.cases (h : MemberName s) :
    (∃ l, lexemesOf s = [l] ∧ l.doc = none ∧ Names l.kind s) ∨
      Computed s ∧ StartsWith (· = .lbracket) (lexemesOf s) := by
  rcases h with h | h | h | h
  · exact .inl (names_lexeme (.inl h))
  · exact .inl (names_lexeme (.inr (.inl h)))
  · exact .inl (names_lexeme (.inr (.inr h)))
  · refine .inr ⟨h, ?_⟩
    obtain ⟨⟨hk, -⟩, -⟩ := Verbatim.lexemes h
    cases hl : lexemesOf s with
    | nil => simp [hl] at hk
    | cons l r => exact ⟨l, r, rfl, by simpa [hl] using hk⟩

theorem ParamName.cases (h : ParamName s) :
    (∃ l, lexemesOf s = [l] ∧ l.doc = none ∧ Names l.kind s) ∨
      Pattern s ∧ StartsWith (fun k => k = .lbrace ∨ k = .lbracket) (lexemesOf s) := by
  rcases h with h | h | h | h
  · exact .inl (names_lexeme (.inl h))
  · exact .inl (names_lexeme (.inr (.inl h)))
  · exact .inl (names_lexeme (.inr (.inr h)))
  · refine .inr ⟨h, ?_⟩
    obtain ⟨⟨hk, -⟩, -⟩ := Verbatim.lexemes h
    cases hl : lexemesOf s with
    | nil => simp [hl] at hk
    | cons l r => exact ⟨l, r, rfl, by simpa [hl] using hk⟩

/-- **The name of a member is read from its lexemes,** with or without documentation. -/
theorem takes_propertyName_documented (h : MemberName s) (d : Option String) :
    Takes Parser.propertyName (documented d (lexemesOf s) ++ us) s us := by
  rcases h.cases with ⟨l, hl, -, hk⟩ | ⟨hc, l, r, hl, hk⟩
  · rw [hl]
    exact Names.takes_propertyName (l := { l with doc := d }) hk
  · refine takes_peek.bind ?_
    have hhead : kindAt (documented d (lexemesOf s) ++ us) 0 = .lbracket := by
      rw [hl]
      exact hk
    rw [hhead]
    exact takes_computedName hc d

theorem takes_propertyName (h : MemberName s) :
    Takes Parser.propertyName (lexemesOf s ++ us) s us := by
  obtain ⟨d, hd⟩ := exists_documented (lexemesOf s)
  have : Takes _ _ _ us := takes_propertyName_documented h d
  rwa [hd] at this

theorem Word.memberName (h : Word s) : MemberName s := .inl h

theorem takes_memberName? (h : MemberName s) (d : Option String) :
    Takes Parser.memberName? (documented d (lexemesOf s) ++ us) (some s) us := by
  intro c hc
  obtain ⟨c', hp, hs⟩ := takes_propertyName_documented h d c hc
  exact ⟨c', by rw [Parser.memberName?, hp], hs⟩

end Ambient
