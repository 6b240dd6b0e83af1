import Ambient.Proofs.Token.Layout
import Mathlib.Data.List.TakeWhile

/-!
# Tokens tile a source

The tokens of a source lie one behind the other, and the end of the source behind the last of them
(`Lexed.Tiles`). None of them depends on what stands around it: the part of the source from one
token to another has these tokens again (`lex_tiles`). In front of the part nothing can matter,
since pieces are cut from left to right. Behind it the last token loses the character that showed
where it ends, and ends at the end of the part all the same (`Piece.Stands.alone`): what a piece
consists of is cut off alike if it stands alone (`Piece.first_of_text`).
-/

namespace Ambient

open Text (isSpace byteLength)

/-! ## What a scanner took is taken again -/

theorem numberRest_numberRest (prev : Char) (cs : List Char) :
    numberRest prev (numberRest prev cs) = numberRest prev cs := by
  induction cs generalizing prev with
  | nil => rfl
  | cons c cs ih =>
    cases hc : continuesNumber prev c with
    | false => simp [numberRest, hc]
    | true => simp [numberRest, hc, ih]

theorem stringRest_stringRest {quote : Char} (hq : quote ≠ '\\') (cs : List Char) :
    stringRest quote (stringRest quote cs).1 = stringRest quote cs := by
  fun_induction stringRest quote cs with
  | case1 => rfl
  | case2 => rfl
  | case3 c cs r ih => simp only [stringRest, r, ih]
  | case4 cs => rw [stringRest_cons hq, if_pos rfl]
  | case5 c cs h₁ h₂ hc r ih => rw [stringRest_cons (ne_backslash h₁ h₂), if_neg hc, ih]

theorem templateRest_templateRest (cs : List Char) :
    templateRest (templateRest cs) = templateRest cs := by
  fun_induction templateRest cs with
  | case1 => rfl
  | case2 => rfl
  | case3 c cs ih => simp only [templateRest, ih]
  | case4 cs => rfl
  | case5 c cs h₁ h₂ hc ih => rw [templateRest_cons (ne_backslash h₁ h₂), if_neg hc, ih]

theorem blockBody_blockBody (cs : List Char) :
    blockBody ((blockBody cs).1 ++ if (blockBody cs).2 then ['*', '/'] else []) = blockBody cs := by
  cases h : (blockBody cs).2 with
  | false => simp [blockBody_unclosed h]
  | true =>
    have hbody := blockBody_append_close (closesComment_blockBody cs) []
    rw [if_pos rfl, hbody, ← h]

theorem lineRest_lineRest (cs : List Char) : lineRest (lineRest cs) = lineRest cs :=
  List.takeWhile_idem

namespace Piece

variable {c : Char} {cs ds : List Char}

theorem lineComment_of_text (h : (lineComment cs).text = '/' :: '/' :: ds) :
    lineComment ds = lineComment cs := by
  unfold lineComment at h
  split at h
  · next cs =>
    obtain rfl : '/' :: lineRest cs = ds := by simpa using h
    simp only [lineComment, lineRest_lineRest]
  · next hslash =>
    obtain rfl : lineRest cs = ds := by simpa using h
    -- the first character of the comment is still no third slash
    have hrest (es : List Char) : lineRest cs ≠ '/' :: es := by
      intro he
      obtain ⟨fs, hfs⟩ : lineRest cs <+: cs := List.takeWhile_prefix _
      rw [he] at hfs
      exact hslash _ hfs.symm
    rw [lineComment, lineComment, lineRest_lineRest]
    · exact hslash
    · exact hrest

theorem blockComment_of_text (h : (blockComment cs).text = '/' :: '*' :: ds) :
    blockComment ds = blockComment cs := by
  obtain rfl : (blockBody cs).1 ++ (if (blockBody cs).2 then ['*', '/'] else []) = ds := by
    simpa [blockComment] using h
  simp only [blockComment, blockBody_blockBody]

theorem slash_of_text (h : (slash cs).text = '/' :: ds) : slash ds = slash cs := by
  unfold slash at h
  split at h
  · next cs =>
    obtain ⟨es, rfl⟩ : ∃ es, ds = '/' :: es := by
      unfold lineComment at h
      split at h <;> exact ⟨_, (List.cons.inj h).2.symm⟩
    exact lineComment_of_text h
  · next cs =>
    obtain ⟨es, rfl⟩ : ∃ es, ds = '*' :: es := ⟨_, (List.cons.inj h).2.symm⟩
    exact blockComment_of_text h
  · next hline hblock =>
    obtain rfl : [] = ds := (List.cons.inj h).2
    rw [slash, slash]
    · exact hline
    · exact hblock
    · exact fun cs h => List.cons_ne_nil _ cs h.symm
    · exact fun cs h => List.cons_ne_nil _ cs h.symm

theorem dots_of_text (h : (dots cs).text = '.' :: ds) : dots ds = dots cs := by
  unfold dots at h ⊢
  split at h <;> (cases h; rfl)

theorem equals_of_text (h : (equals cs).text = '=' :: ds) : equals ds = equals cs := by
  unfold equals at h ⊢
  split at h <;> (cases h; rfl)

theorem wordOrNumber_of_text (h : (wordOrNumber c cs).text = c :: ds) :
    wordOrNumber c ds = wordOrNumber c cs := by
  unfold wordOrNumber at h ⊢
  split
  · next hd =>
    rw [if_pos hd] at h
    obtain rfl : numberRest c cs = ds := (List.cons.inj h).2
    simp only [numberRest_numberRest]
  next hd =>
  rw [if_neg hd] at h
  split
  · next hi =>
    rw [if_pos hi] at h
    obtain rfl : cs.takeWhile isIdentRest = ds := (List.cons.inj h).2
    rw [List.takeWhile_idem]
  · rfl

/-- **What a piece consists of is cut off alike if it stands alone.** -/
theorem first_of_text (h : (first c cs).text = c :: ds) : first c ds = first c cs := by
  unfold first at h ⊢
  split
  · next h₀ =>
    rw [if_pos h₀] at h
    obtain rfl : cs.takeWhile isSpace = ds := (List.cons.inj h).2
    rw [List.takeWhile_idem]
  next h₀ =>
  rw [if_neg h₀] at h
  split
  · next h₁ =>
    rw [if_pos h₁] at h
    obtain rfl : (stringRest c cs).1 = ds := (List.cons.inj h).2
    have hc : c ≠ '\\' := by rcases h₁ with rfl | rfl <;> decide
    simp only [stringRest_stringRest hc]
  next h₁ =>
  rw [if_neg h₁] at h
  split
  · next h₂ =>
    rw [if_pos h₂] at h
    obtain rfl : templateRest cs = ds := (List.cons.inj h).2
    simp only [templateRest_templateRest]
  next h₂ =>
  rw [if_neg h₂] at h
  split
  · next h₃ =>
    subst h₃
    exact slash_of_text (by simpa using h)
  next h₃ =>
  rw [if_neg h₃] at h
  split
  · next h₄ =>
    subst h₄
    exact dots_of_text (by simpa using h)
  next h₄ =>
  rw [if_neg h₄] at h
  split
  · next h₅ =>
    subst h₅
    exact equals_of_text (by simpa using h)
  next h₅ =>
  rw [if_neg h₅] at h
  cases hs : Symbol.ofChar? c with
  | some s => rfl
  | none =>
    rw [hs] at h
    exact wordOrNumber_of_text h

/-- **A piece that ends in front of a text ends at the end of one.** -/
theorem Stands.alone {p : Piece} {next : List Char} (h : p.Stands next) : p.Stands [] := by
  obtain ⟨c, cs, ht, hf⟩ := h
  refine ⟨c, cs, ht, ?_⟩
  rw [List.append_nil, first_of_text (hf ▸ ht), hf]

end Piece

/-! ## Pieces side by side -/

theorem Cuts.alone {ps : List Piece} {next : List Char} (h : Cuts ps next) : Cuts ps [] := by
  refine h.of_last fun p hp => ?_
  obtain ⟨qs, rfl⟩ := List.getLast?_eq_some_iff.1 hp
  exact (cuts_append.1 h).2.1.alone

/-- **Some pieces of a source, side by side, are those of their own text.** -/
theorem pieces_textOf {cs : List Char} {qs ps rs : List Piece} (h : pieces cs = qs ++ ps ++ rs) :
    pieces (textOf ps) = ps := by
  have hcuts := cuts_pieces cs
  rw [h, List.append_assoc, cuts_append, cuts_append] at hcuts
  have halone := hcuts.2.1.alone.pieces_append
  rw [List.append_nil] at halone
  exact halone.trans (List.append_nil ps)

namespace LexState

/-- Tokens that were found are not lost. -/
theorem prefix_foldl_step (ps : List Piece) (s : LexState) :
    s.tokens.toList <+: (ps.foldl step s).tokens.toList := by
  have hs : s = ({ s with tokens := #[] } : LexState).behind s.tokens := by simp [behind]
  rw [hs, foldl_step_behind]
  simp [behind]

/-- The pieces up to a token, behind which nothing waits for the next one. -/
theorem exists_front {ps : List Piece} {s : LexState} {j : Nat} {u : Token}
    (hj : s.tokens.size ≤ j) (h : (ps.foldl step s).tokens[j]? = some u) :
    ∃ front rs, ps = front ++ rs ∧ (front.foldl step s).tokens.size = j + 1 ∧
      (front.foldl step s).skipped = [] ∧ (front.foldl step s).doc = none ∧
      (front.foldl step s).offset = u.stop := by
  obtain ⟨qs, m, rs, rfl, hm, hsize, -, htext, hstart, -⟩ := exists_piece hj h
  have hfront : (qs ++ [m]).foldl step s = (qs.foldl step s).step m := by
    rw [List.foldl_append, List.foldl_cons, List.foldl_nil]
  refine ⟨qs ++ [m], rs, by simp, ?_⟩
  rw [hfront, step, hm]
  simp [hsize, Token.stop, htext, hstart]

theorem moved_zero (s : LexState) : s.moved 0 = s := by
  have hzero : Token.moved 0 = id := rfl
  simp [moved, hzero]

/-- **Behind its first token a part is read as it is in the source,** but from the front on. -/
theorem map_moved_finish {s : LexState} {p : Piece} {k : Kind} {ps : List Piece}
    (h : p.content = .token k) (hskipped : ((p :: ps).foldl step s).skipped = [])
    (hdoc : ((p :: ps).foldl step s).doc = none) :
    ((p :: ps).foldl step {}).finish.toList.map (Token.moved s.offset) =
      { kind := k, text := p.text, start := s.offset } ::
        (((p :: ps).foldl step s).tokens.toList.drop (s.tokens.size + 1) ++
          [{ kind := .eof, start := ((p :: ps).foldl step s).offset }]) := by
  rw [foldl_step_token s h] at hskipped hdoc ⊢
  rw [foldl_step_token {} h, moved_zero]
  generalize ps.foldl step { offset := byteLength p.text } = w at *
  have hw : w.skipped = [] ∧ w.doc = none := ⟨hskipped, hdoc⟩
  have hdrop (u : Token) (us : List Token) :
      (s.tokens.toList ++ u :: us).drop (s.tokens.size + 1) = us :=
    List.drop_length_add_append 1
  simp [finish, Lexed.toList, behind, moved, Token.moved, hw, hdrop]

end LexState

/-! ## Tokens and the parts of a source -/

/-- The tokens lie in the source one behind the other, and the end of the source behind the last of
them. -/
structure Lexed.Tiles (l : Lexed) (cs : List Char) : Prop where
  /-- With what stands between them the tokens are the source. -/
  source : l.source = cs
  /-- The text of a token stands where the token is said to stand. -/
  text : ∀ t ∈ l.tokens, slice? t.start t.stop cs = some t.text
  nonempty : ∀ t ∈ l.tokens, t.start < t.stop
  ordered : l.toList.Pairwise fun t u => t.stop ≤ u.start
  kind : ∀ t ∈ l.tokens, t.kind ≠ .eof
  eof : l.eof.kind = .eof ∧ l.eof.start = byteLength cs ∧ l.eof.stop = byteLength cs

theorem tiles_lexChars (cs : List Char) : (lexChars cs).Tiles cs where
  source := source_lexChars cs
  text t ht := slice?_token (List.mem_append_left _ ht)
  nonempty t ht := by
    have hpos : byteLength t.text ≠ 0 := fun h =>
      text_ne_nil_of_mem ht (Text.eq_nil_of_byteLength h)
    rw [Token.stop]
    omega
  ordered := (placed_lexChars cs).pairwise.1
  kind t ht := kind_ne_eof_lexChars ht
  eof := ⟨kind_eof_lexChars cs, start_eof_lexChars cs, start_eof_lexChars cs⟩

/-- The part of a source from one token to another has these tokens and those in between. Nothing
stands in front of the first one there. -/
theorem lexChars_between {cs : List Char} {i j : Nat} {t u : Token} (hij : i ≤ j)
    (ht : (lexChars cs).tokens[i]? = some t) (hu : (lexChars cs).tokens[j]? = some u) :
    ∃ part, slice? t.start u.stop cs = some part ∧
      (lexChars part).toList.map (Token.moved t.start) =
        { t with gap := [], doc := none } :: (((lexChars cs).tokens.take (j + 1)).drop (i + 1) ++
          [{ kind := .eof, start := u.stop }]) := by
  have htokens : (lexChars cs).tokens = ((pieces cs).foldl LexState.step {}).tokens.toList := by
    rw [lexChars_eq_foldl]
    rfl
  rw [htokens] at ht hu ⊢
  -- the pieces up to the last of the tokens, and of these the ones from the first token on
  obtain ⟨front, rs, hpieces, hsize, hskipped, hdoc, hstop⟩ :=
    LexState.exists_front (s := {}) (Nat.zero_le j) (by simpa using hu)
  obtain ⟨more, hmore⟩ := LexState.prefix_foldl_step rs (front.foldl LexState.step {})
  rw [← List.foldl_append, ← hpieces] at hmore
  rw [← hmore] at ht ⊢
  have hlen : (front.foldl LexState.step {}).tokens.toList.length = j + 1 := hsize
  rw [List.getElem?_append_left (by omega)] at ht
  rw [List.take_left' hlen]
  obtain ⟨qs, q, ms, rfl, hq, hi, hgap, htext, hstart, hdoc'⟩ :=
    LexState.exists_piece (s := {}) (Nat.zero_le i) (by simpa using ht)
  have hpart : pieces (textOf (q :: ms)) = q :: ms := pieces_textOf hpieces
  have hsource : cs = textOf qs ++ textOf (q :: ms) ++ textOf rs := by
    rw [← textOf_append, ← textOf_append, ← hpieces]
    exact (flatMap_text_pieces cs).symm
  have hfront : t.start = byteLength (textOf qs) := by
    rw [hstart, LexState.offset_foldl_step, Nat.zero_add]
  have hend : t.start + byteLength (textOf (q :: ms)) = u.stop := by
    rw [← hstop, LexState.offset_foldl_step, textOf_append, Text.byteLength_append, hfront,
      Nat.zero_add]
  refine ⟨textOf (q :: ms), slice?_eq_some_iff.2 ⟨_, _, hsource, hfront.symm, hend⟩, ?_⟩
  rw [LexState.lexChars_eq_run, LexState.run, hpart, htext, hstart, ← hstop, ← hi]
  rw [List.foldl_append] at hskipped hdoc ⊢
  exact LexState.map_moved_finish hq hskipped hdoc

/-- **The tokens of a source tile it, and none depends on what stands around it.** The part of the
source from one token to another is cut into these tokens and those in between, as far from its
front as they are from the first one, and into nothing else. Only what stands in front of the first
one is missing, and so is its documentation. -/
theorem lex_tiles (source : String) :
    (lex source).Tiles source.toList ∧
      ∀ i j t u, i ≤ j → (lex source).tokens[i]? = some t → (lex source).tokens[j]? = some u →
        ∃ part : String, slice? t.start u.stop source.toList = some part.toList ∧
          (lex part).toList.map (Token.moved t.start) =
            { t with gap := [], doc := none } ::
              (((lex source).tokens.take (j + 1)).drop (i + 1) ++
                [{ kind := .eof, start := u.stop }]) := by
  refine ⟨tiles_lexChars source.toList, fun i j t u hij ht hu => ?_⟩
  obtain ⟨part, hslice, htokens⟩ := lexChars_between hij ht hu
  refine ⟨String.ofList part, ?_, ?_⟩
  · rw [String.toList_ofList]
    exact hslice
  · rw [lex, String.toList_ofList]
    exact htokens

/-- Two dots, an equals sign and a number with a sign in it are cut out. A comment between them stays
with the number, one in front of the dots is lost. -/
theorem lex_tiles_dots :
    slice? 18 35 "/** A */ a/** B */.. = /** C */1e-5/x".toList = some ".. = /** C */1e-5".toList ∧
      (lex ".. = /** C */1e-5").toList.map (fun t => (t.kind, t.doc, t.start + 18)) =
        [(.symbol .dot, none, 18), (.symbol .eq, none, 21), (.number "1e-5", some "C", 31),
          (.eof, none, 35)] := by
  have hdots : (lex "/** A */ a/** B */.. = /** C */1e-5/x").tokens[1]? =
      some
        { kind := .symbol .dot, gap := "/** B */".toList, text := "..".toList
          start := 18, doc := some "B" } := by decide
  have hnumber : (lex "/** A */ a/** B */.. = /** C */1e-5/x").tokens[3]? =
      some
        { kind := .number "1e-5", gap := " /** C */".toList, text := "1e-5".toList
          start := 31, doc := some "C" } := by decide
  have hslice : slice? 18 35 "/** A */ a/** B */.. = /** C */1e-5/x".toList =
      some ".. = /** C */1e-5".toList := by decide
  obtain ⟨part, hpart, htokens⟩ := (lex_tiles _).2 1 3 _ _ (by decide) hdots hnumber
  obtain rfl : ".. = /** C */1e-5" = part :=
    String.toList_inj.1 (Option.some.inj (hslice.symm.trans hpart))
  refine ⟨hslice, ?_⟩
  have hkinds := congrArg (List.map fun t => (t.kind, t.doc, t.start)) htokens
  rw [List.map_map] at hkinds
  exact hkinds.trans (by decide)

end Ambient
