import Ambient.Proofs.Token.LineStyle

/-!
# A source and its other style of line endings

The tokens of a source and of the same source with a carriage return before each line feed are those
of twins (`twin_crlf`), as long as no quoted literal reaches over the end of a line: a parser does
the same on both. What it keeps as written cannot be told apart once all line endings are written in
one way, for such a text starts with a token, and no token starts with a line feed.
-/

namespace Ambient

open Text (crlf dropReturns dropReturns_append dropReturns_crlf)

/-! ## Tokens -/

/-- Tokens with the same characters but for carriage returns that mean the same, whatever the style
of line endings. -/
structure Token.Restyled (t t' : Token) : Prop where
  kind : t.kind.Like SameEndings t'.kind
  doc : t.doc = t'.doc
  gap : dropReturns t'.gap = t.gap
  text : dropReturns t'.text = t.text

/-- Tokens found so far in both styles. -/
structure LexState.Restyled (s s' : LexState) : Prop where
  tokens : List.Forall₂ Token.Restyled s.tokens.toList s'.tokens.toList
  skipped : dropReturns s'.skipped = s.skipped
  doc : s.doc = s'.doc

theorem Text.dropReturns_reverse (cs : List Char) :
    dropReturns cs.reverse = (dropReturns cs).reverse :=
  List.filter_reverse ..

theorem LexState.restyled_step {s s' : LexState} {p p' : Piece} (h : s.Restyled s')
    (hp : p.Restyled p') : (s.step p).Restyled (s'.step p') := by
  obtain ⟨htext, hcontent⟩ := hp
  have hskipped : dropReturns (p'.text.reverseAux s'.skipped) = p.text.reverseAux s.skipped := by
    rw [List.reverseAux_eq, List.reverseAux_eq, dropReturns_append, Text.dropReturns_reverse,
      htext, h.skipped]
  unfold step
  generalize p.content = x at hcontent
  generalize p'.content = x' at hcontent
  cases hcontent with
  | skipped => exact ⟨h.tokens, hskipped, h.doc⟩
  | doc d => exact ⟨h.tokens, hskipped, rfl⟩
  | token hk =>
    refine ⟨?_, rfl, rfl⟩
    simp only [Array.toList_push]
    refine List.rel_append h.tokens (.cons ⟨hk, h.doc, ?_, htext⟩ .nil)
    rw [Text.dropReturns_reverse, h.skipped]

theorem LexState.restyled_foldl_step {ps ps' : List Piece} (hp : List.Forall₂ Piece.Restyled ps ps')
    {s s' : LexState} (h : s.Restyled s') : (ps.foldl step s).Restyled (ps'.foldl step s') := by
  induction hp generalizing s s' with
  | nil => exact h
  | cons hp _ ih => exact ih (restyled_step h hp)

/-- No quoted literal of a source reaches over the end of a line. -/
def Lexed.StringsOnLines (l : Lexed) : Prop :=
  ∀ t ∈ l.tokens, ∀ v, t.kind = .string v → '\n' ∉ t.text

/-- Whether a token is a quoted literal that reaches over the end of a line. -/
def Token.overLines (t : Token) : Bool :=
  match t.kind with
  | .string _ => t.text.contains '\n'
  | _ => false

theorem Lexed.stringsOnLines_iff (l : Lexed) :
    l.StringsOnLines ↔ l.tokens.all (fun t => !t.overLines) = true := by
  rw [List.all_eq_true]
  refine forall_congr' fun t => forall_congr' fun _ => ?_
  rw [Token.overLines]
  cases t.kind <;> simp

instance (l : Lexed) : Decidable l.StringsOnLines :=
  decidable_of_iff _ l.stringsOnLines_iff.symm

/-- The tokens of a source in both styles. -/
theorem lexChars_restyled {cs : List Char} (hr : '\r' ∉ cs)
    (hs : (lexChars cs).StringsOnLines) :
    List.Forall₂ Token.Restyled (lexChars cs).tokens (lexChars (crlf cs)).tokens ∧
      (lexChars cs).eof.doc = (lexChars (crlf cs)).eof.doc := by
  have hpieces : List.Forall₂ Piece.Restyled (pieces cs) (pieces (crlf cs)) := by
    refine pieces_restyled hr (fun p hp v hv => ?_) (.inl rfl)
    obtain ⟨t, ht, hkind, htext⟩ := exists_token_of_mem hp hv
    rw [← htext]
    exact hs t ht v hkind
  have hstart : LexState.Restyled {} {} := ⟨.nil, rfl, rfl⟩
  have h := LexState.restyled_foldl_step hpieces hstart
  rw [lexChars_eq_foldl, lexChars_eq_foldl]
  exact ⟨h.tokens, h.doc⟩

/-! ## What is kept as written -/

theorem dropReturns_laid {ts ts' : List Token} (h : List.Forall₂ Token.Restyled ts ts') :
    dropReturns (laid ts') = laid ts := by
  induction h with
  | nil => rfl
  | cons h _ ih =>
    rw [laid_cons, laid_cons, dropReturns_append, dropReturns_append, h.gap, h.text, ih]

theorem laid_cons_eq_span (t : Token) (ts : List Token) :
    laid (t :: ts) = t.gap ++ Token.span (t :: ts) := by
  rw [laid_cons, List.append_assoc]
  rfl

theorem dropReturns_span {t t' : Token} {ts ts' : List Token} (ht : t.Restyled t')
    (hts : List.Forall₂ Token.Restyled ts ts') :
    dropReturns (Token.span (t' :: ts')) = Token.span (t :: ts) := by
  show dropReturns (t'.text ++ laid ts') = t.text ++ laid ts
  rw [dropReturns_append, ht.text, dropReturns_laid hts]

theorem Text.head?_trim_ne {c : Char} (hc : Text.isSpace c = true) (cs : List Char) :
    (Text.trim cs).head? ≠ some c := by
  rcases Text.trim_cases cs with h | ⟨d, ds, h, hd, -⟩
  · rw [h]
    rintro ⟨⟩
  · rw [h]
    rintro ⟨⟩
    cases hc.symm.trans hd

/-- What is kept of some tokens in both styles, from where they stand in the source. The second
style may have a carriage return more at the end, and that is trimmed. -/
theorem written_restyled {cs : List Char} (hr : '\r' ∉ cs) {us us' ts ts' vs vs' : List Token}
    {t t' : Token} (h : laid (us ++ (t :: ts) ++ vs) = cs)
    (h' : laid (us' ++ (t' :: ts') ++ vs') = crlf cs)
    (hus : List.Forall₂ Token.Restyled us us') (ht : t.Restyled t')
    (hts : List.Forall₂ Token.Restyled ts ts') {c : Char} {ds : List Char} (htext : t.text = c :: ds)
    (hc : Text.isSpace c = false) :
    SameEndings (Parser.written (t :: ts).reverse) (Parser.written (t' :: ts').reverse) := by
  have hn : c ≠ '\n' := by
    rintro rfl
    cases hc
  have hspan : Token.span (t :: ts) = c :: (ds ++ laid ts) := by
    show t.text ++ laid ts = _
    rw [htext]
    rfl
  subst h
  simp only [laid_append, laid_cons_eq_span, List.append_assoc] at hr h'
  simp only [← List.append_assoc (laid us), ← List.append_assoc (laid us')] at hr h'
  -- the span starts at the same character in both styles, for that is no line feed
  have hfront : dropReturns (laid us' ++ t'.gap) = laid us ++ t.gap := by
    rw [dropReturns_append, dropReturns_laid hus, ht.gap]
  have hrest : Token.span (t' :: ts') ++ laid vs' = crlf (Token.span (t :: ts) ++ laid vs) := by
    rcases Text.crlf_cut hr h' hfront with ⟨-, hrest⟩ | ⟨es, hes, -⟩
    · exact hrest
    · rw [hspan] at hes
      exact absurd (List.cons.inj hes).1 hn
  have hr' : '\r' ∉ Token.span (t :: ts) ++ laid vs := fun he => hr (List.mem_append_right _ he)
  have htrim : Text.trim (Token.span (t' :: ts')) = crlf (Text.trim (Token.span (t :: ts))) := by
    rw [← Text.trim_crlf]
    rcases Text.crlf_cut hr' hrest (dropReturns_span ht hts) with ⟨hs, -⟩ | ⟨es, -, hs, -⟩
    · rw [hs]
    · have hblank : ∀ d ∈ ['\r'], Text.isSpace d = true := by
        intro d hd
        rw [List.mem_singleton.1 hd]
        rfl
      rw [hs, Text.trim_append_blank hblank]
  have hclean : '\r' ∉ Text.trim (Token.span (t :: ts)) := fun he =>
    hr' (List.mem_append_left _ ((Text.trim_isInfix _).subset he))
  rw [Parser.written, Parser.written, List.reverse_reverse, List.reverse_reverse, htrim]
  exact sameEndings_crlf hclean (Text.head?_trim_ne (by decide) _)

/-- The tokens before a position, between two positions, and behind. -/
theorem Lexed.take_append_between (l : Lexed) {i j : Nat} (hij : i ≤ j) :
    l.tokens.take i ++ l.between i j ++ l.tokens.drop j = l.tokens := by
  have hdrop : l.tokens.drop j = (l.tokens.drop i).drop (j - i) := by
    rw [List.drop_drop]
    congr 1
    omega
  rw [between, List.append_assoc, hdrop, List.take_append_drop, List.take_append_drop]

/-- **A source and its other style of line endings are twins**, as long as no quoted literal reaches
over the end of a line. -/
theorem twin_crlf {cs : List Char} (hr : '\r' ∉ cs) (hs : (lexChars cs).StringsOnLines) :
    Twin SameEndings (lexChars cs) (lexChars (crlf cs)) := by
  obtain ⟨htokens, hdoc⟩ := lexChars_restyled hr hs
  have hlike : List.Forall₂ (Token.Like SameEndings) (lexChars cs).tokens
      (lexChars (crlf cs)).tokens := by
    rw [List.forall₂_iff_zip] at htokens ⊢
    refine ⟨htokens.1, fun {t u} hmem => ?_⟩
    have h := htokens.2 hmem
    exact ⟨h.kind, h.doc, kind_ne_eof_lexChars (List.of_mem_zip hmem).1⟩
  refine ⟨joins_sameEndings, hlike, ⟨rfl, rfl⟩, hdoc, fun {i j} _ hij hj => ?_⟩
  have hfirst := List.forall₂_take i htokens
  have hbetween : List.Forall₂ Token.Restyled ((lexChars cs).between i j)
      ((lexChars (crlf cs)).between i j) := List.forall₂_take _ (List.forall₂_drop i htokens)
  have hlaid (ds : List Char) : laid ((lexChars ds).tokens.take i ++ (lexChars ds).between i j ++
      ((lexChars ds).tokens.drop j ++ [(lexChars ds).eof])) = ds := by
    rw [← List.append_assoc, Lexed.take_append_between _ hij]
    exact laid_toList ds
  have h := hlaid cs
  have h' := hlaid (crlf cs)
  have hmem (t : Token) (ht : t ∈ (lexChars cs).between i j) : t ∈ (lexChars cs).tokens :=
    List.mem_of_mem_drop (List.mem_of_mem_take ht)
  rw [Lexed.written, Lexed.written]
  generalize (lexChars cs).between i j = ts at *
  generalize (lexChars (crlf cs)).between i j = ts' at *
  cases hbetween with
  | nil => exact joins_sameEndings.refl _
  | @cons t t' ts ts' ht hts =>
    have hin := hmem t List.mem_cons_self
    obtain ⟨c, ds, htext⟩ := List.exists_cons_of_ne_nil (text_ne_nil_of_mem hin)
    exact written_restyled hr h h' hfirst ht hts htext (isSpace_head_of_mem hin htext)

end Ambient
