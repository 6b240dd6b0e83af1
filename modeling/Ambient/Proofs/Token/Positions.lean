import Ambient.Report
import Ambient.Proofs.Token.Lexeme

/-!
# Positions in a source

Offsets in a source count bytes. A part of the source is cut out between two of them (`slice?`),
which works only where both stand between characters, in order and not behind the end. Every token
knows where it starts: its text stands there (`slice?_token`), and the texts from one token to
another one are again a part of the source (`slice?_span`). The same holds of what is looked at
while the source is cut: the bodies of documentation comments, template literals and references
(`partsOfPieces`).
-/

namespace Ambient

open Text (byteLength trim cleanDoc)

/-! ## Parts of a text -/

@[simp] theorem Text.byteLength_reverse (cs : List Char) :
    byteLength cs.reverse = byteLength cs := by
  induction cs with
  | nil => rfl
  | cons c cs ih =>
    rw [List.reverse_cons, byteLength_append, ih, byteLength_cons, byteLength_cons, byteLength_nil]
    omega

theorem Text.eq_nil_of_byteLength {cs : List Char} (h : byteLength cs = 0) : cs = [] := by
  cases cs with
  | nil => rfl
  | cons c cs =>
    have hpos := c.utf8Size_pos
    rw [byteLength_cons] at h
    omega

/-- The part of a text from one byte offset to another. Nothing, if the offsets are not in order,
lie behind the text or inside of a character. -/
def slice? (start stop : Nat) (cs : List Char) : Option (List Char) :=
  let front := passBytes start [] cs
  let part := passBytes (stop - start) [] front.2
  if start ≤ stop ∧ byteLength front.1 = start ∧ byteLength part.1 = stop - start then
    some part.1.reverse
  else none

theorem passBytes_byteLength (passed cs ds : List Char) :
    passBytes (byteLength cs) passed (cs ++ ds) = (cs.reverse ++ passed, ds) := by
  induction cs generalizing passed with
  | nil =>
    cases ds with
    | nil => rfl
    | cons d ds =>
      have hpos := d.utf8Size_pos
      rw [byteLength, List.foldr_nil, List.nil_append, passBytes, if_neg (by omega)]
      rfl
  | cons c cs ih =>
    rw [List.cons_append, passBytes, if_pos (by simp), Text.byteLength_cons,
      Nat.add_sub_cancel_left, ih]
    simp

/-- A part of a text has a text in front of it and one behind it. -/
theorem slice?_eq_some_iff {start stop : Nat} {cs part : List Char} :
    slice? start stop cs = some part ↔ ∃ before behind, cs = before ++ part ++ behind ∧
      byteLength before = start ∧ start + byteLength part = stop := by
  constructor
  · intro h
    have hfront := passBytes_append start [] cs
    have hpart := passBytes_append (stop - start) [] (passBytes start [] cs).2
    rw [slice?] at h
    split at h
    · next hle =>
      obtain ⟨hle, hstart, hstop⟩ := hle
      cases h
      refine ⟨(passBytes start [] cs).1.reverse,
        (passBytes (stop - start) [] (passBytes start [] cs).2).2, ?_, by simpa using hstart, ?_⟩
      · rw [List.append_assoc, hpart, List.reverse_nil, List.nil_append, hfront]
        rfl
      · rw [Text.byteLength_reverse, hstop]
        omega
    · cases h
  · rintro ⟨before, behind, rfl, rfl, rfl⟩
    have hfront := passBytes_byteLength [] before (part ++ behind)
    have hpart := passBytes_byteLength [] part behind
    rw [← List.append_assoc] at hfront
    rw [slice?, hfront, Nat.add_sub_cancel_left]
    simp only [hpart]
    rw [if_pos ⟨Nat.le_add_right _ _, by simp, by simp⟩]
    simp

theorem slice?_append (before part behind : List Char) :
    slice? (byteLength before) (byteLength before + byteLength part) (before ++ part ++ behind) =
      some part :=
  slice?_eq_some_iff.2 ⟨before, behind, rfl, rfl, rfl⟩

/-! ## Places of tokens -/

/-- Each token starts where its gap ends, `n` bytes standing before the first gap. -/
def Placed : Nat → List Token → Prop
  | _, [] => True
  | n, t :: ts => t.start = n + byteLength t.gap ∧ Placed (t.start + byteLength t.text) ts

theorem placed_append {n : Nat} {ts us : List Token} :
    Placed n (ts ++ us) ↔ Placed n ts ∧ Placed (n + byteLength (laid ts)) us := by
  induction ts generalizing n with
  | nil => simp [Placed]
  | cons t ts ih =>
    simp only [List.cons_append, Placed, ih, laid_cons, Text.byteLength_append, and_assoc]
    refine and_congr_right fun ht => ?_
    rw [ht, Nat.add_assoc, Nat.add_assoc, Nat.add_assoc]

theorem LexState.placed_step {s : LexState} (p : Piece)
    (h : Placed 0 s.tokens.toList ∧ s.offset = byteLength s.source) :
    Placed 0 (s.step p).tokens.toList ∧ (s.step p).offset = byteLength (s.step p).source := by
  refine ⟨?_, ?_⟩
  · rw [step]
    cases p.content with
    | skipped => exact h.1
    | doc d => exact h.1
    | token k =>
      simp only [Array.toList_push, placed_append]
      refine ⟨h.1, ?_, trivial⟩
      rw [h.2, source, Text.byteLength_append, Nat.zero_add]
      rfl
  · rw [source_step, Text.byteLength_append, ← h.2, step]
    cases p.content <;> rfl

theorem LexState.placed_foldl_step (ps : List Piece) {s : LexState}
    (h : Placed 0 s.tokens.toList ∧ s.offset = byteLength s.source) :
    Placed 0 (ps.foldl step s).tokens.toList ∧
      (ps.foldl step s).offset = byteLength (ps.foldl step s).source := by
  induction ps generalizing s with
  | nil => exact h
  | cons p ps ih => exact ih (placed_step p h)

/-- Each token of a source starts where its gap ends. -/
theorem placed_lexChars (cs : List Char) : Placed 0 (lexChars cs).toList := by
  rw [lexChars_eq_foldl, Lexed.toList, placed_append]
  have h := LexState.placed_foldl_step (pieces cs) (s := {}) ⟨trivial, rfl⟩
  refine ⟨h.1, ?_, trivial⟩
  rw [LexState.finish, h.2, LexState.source, Text.byteLength_append, Nat.zero_add]
  rfl

theorem laid_toList (cs : List Char) : laid (lexChars cs).toList = cs :=
  source_lexChars cs

/-- The last of some tokens ends where their texts do. -/
theorem Placed.stop_getLast {n : Nat} {t : Token} {ts : List Token} (h : Placed n (t :: ts)) :
    ((t :: ts).getLast (List.cons_ne_nil t ts)).stop =
      t.start + byteLength (Token.span (t :: ts)) := by
  induction ts generalizing n t with
  | nil => simp [Token.stop, Token.span]
  | cons u us ih =>
    rw [List.getLast_cons (List.cons_ne_nil u us), ih h.2, h.2.1]
    simp only [Token.span, List.flatMap_cons, Text.byteLength_append]
    omega

/-- The texts from one token to another one are a part of the source. -/
theorem slice?_span {cs : List Char} {t : Token} {ts us vs : List Token}
    (h : (lexChars cs).toList = us ++ (t :: ts) ++ vs) :
    slice? t.start ((t :: ts).getLast (List.cons_ne_nil t ts)).stop cs =
      some (Token.span (t :: ts)) := by
  have hplaced := placed_lexChars cs
  have hlaid := laid_toList cs
  rw [h, List.append_assoc, placed_append, List.cons_append, ← List.cons_append,
    placed_append] at hplaced
  obtain ⟨-, ht, -⟩ := hplaced
  have hsource : cs = (laid us ++ t.gap) ++ Token.span (t :: ts) ++ laid vs := by
    rw [← hlaid, h]
    simp [Token.span, laid]
  have hstart : t.start = byteLength (laid us ++ t.gap) := by
    rw [ht.1, Nat.zero_add, Text.byteLength_append]
  rw [ht.stop_getLast, hstart]
  exact slice?_eq_some_iff.2 ⟨_, _, hsource, rfl, rfl⟩

/-- The text of a token stands where the token is said to start. -/
theorem slice?_token {cs : List Char} {t : Token} (h : t ∈ (lexChars cs).toList) :
    slice? t.start t.stop cs = some t.text := by
  obtain ⟨us, vs, h⟩ := List.append_of_mem h
  have hsplit : (lexChars cs).toList = us ++ [t] ++ vs := by simp [h]
  have hspan := slice?_span hsplit
  simpa [Token.span] using hspan

theorem Placed.pairwise {n : Nat} {ts : List Token} (h : Placed n ts) :
    (ts.Pairwise fun t u => t.stop ≤ u.start) ∧ ∀ t ∈ ts, n ≤ t.start := by
  induction ts generalizing n with
  | nil => exact ⟨.nil, by simp⟩
  | cons t ts ih =>
    obtain ⟨ht, h⟩ := h
    obtain ⟨hpair, hle⟩ := ih h
    refine ⟨.cons hle hpair, fun u hu => ?_⟩
    rcases List.mem_cons.1 hu with rfl | hu
    · omega
    · have := hle u hu
      omega

theorem start_eof_lexChars (cs : List Char) : (lexChars cs).eof.start = byteLength cs := by
  have hstart := (placed_append.1 (placed_lexChars cs)).2.1
  have hlength := congrArg byteLength (laid_toList cs)
  have htext : (lexChars cs).eof.text = [] := rfl
  simp only [Lexed.toList, laid_append, laid_cons, laid_nil, htext, List.append_nil,
    Text.byteLength_append] at hlength
  rw [hstart, ← hlength, Nat.zero_add]

/-! ## Tokens and pieces -/

/-- The tokens of some pieces have the kinds and the texts of the pieces. -/
theorem content_of_mem_gather {gap : List Char} {doc : Option String} {ps : List Piece} {t : Token}
    (h : t ∈ gather gap doc ps) : ∃ p ∈ ps, p.content = .token t.kind ∧ p.text = t.text := by
  induction ps generalizing gap doc with
  | nil => cases h
  | cons p ps ih =>
    have hrest {gap : List Char} {doc : Option String} (h : t ∈ gather gap doc ps) :
        ∃ q ∈ p :: ps, q.content = .token t.kind ∧ q.text = t.text := by
      obtain ⟨q, hq, ht⟩ := ih h
      exact ⟨q, List.mem_cons_of_mem p hq, ht⟩
    rw [gather] at h
    cases hp : p.content with
    | skipped =>
      rw [hp] at h
      exact hrest h
    | doc d =>
      rw [hp] at h
      exact hrest h
    | token k =>
      rw [hp] at h
      rcases List.mem_cons.1 h with rfl | h
      · exact ⟨p, List.mem_cons_self, hp, rfl⟩
      · exact hrest h

/-- Each piece that is a token becomes one. -/
theorem exists_mem_gather (gap : List Char) (doc : Option String) {ps : List Piece} {p : Piece}
    {k : Kind} (h : p ∈ ps) (hk : p.content = .token k) :
    ∃ t ∈ gather gap doc ps, t.kind = k ∧ t.text = p.text := by
  induction ps generalizing gap doc with
  | nil => cases h
  | cons q ps ih =>
    rw [gather]
    rcases List.mem_cons.1 h with rfl | h
    · rw [hk]
      exact ⟨_, List.mem_cons_self, rfl, rfl⟩
    · cases q.content with
      | skipped => exact ih _ _ h
      | doc d => exact ih _ _ h
      | token k' =>
        obtain ⟨t, ht, he⟩ := ih [] none h
        exact ⟨t, List.mem_cons_of_mem _ ht, he⟩

/-- A token of a source is one of its pieces. -/
theorem exists_piece_of_mem {cs : List Char} {t : Token} (h : t ∈ (lexChars cs).tokens) :
    ∃ p ∈ pieces cs, p.content = .token t.kind ∧ p.text = t.text := by
  have hbare : t.bare ∈ scan [] none cs := by
    rw [← map_bare_lexChars]
    exact List.mem_map_of_mem h
  obtain ⟨p, hp, hkind, htext⟩ := content_of_mem_gather hbare
  exact ⟨p, hp, hkind, htext⟩

theorem exists_token_of_mem {cs : List Char} {p : Piece} {k : Kind} (h : p ∈ pieces cs)
    (hk : p.content = .token k) : ∃ t ∈ (lexChars cs).tokens, t.kind = k ∧ t.text = p.text := by
  obtain ⟨b, hb, hkind, htext⟩ := exists_mem_gather [] none h hk
  have hbare : b ∈ (lexChars cs).tokens.map Token.bare := by
    rw [map_bare_lexChars]
    exact hb
  obtain ⟨t, ht, rfl⟩ := List.mem_map.1 hbare
  exact ⟨t, ht, hkind, htext⟩

theorem exists_first_of_mem_pieces {cs : List Char} {p : Piece} (h : p ∈ pieces cs) :
    ∃ c ds, p = Piece.first c ds := by
  have hafter (n : Nat) (cs : List Char) (h : p ∈ piecesAfter n cs) :
      ∃ c ds, p = Piece.first c ds := by
    induction cs generalizing n with
    | nil => cases n <;> cases h
    | cons c cs ih =>
      cases n with
      | succ n => exact ih n h
      | zero =>
        rcases List.mem_cons.1 h with rfl | h
        · exact ⟨c, cs, rfl⟩
        · exact ih _ h
  exact hafter 0 cs h

theorem text_ne_nil_of_mem {cs : List Char} {t : Token} (h : t ∈ (lexChars cs).tokens) :
    t.text ≠ [] := by
  obtain ⟨p, hp, -, ht⟩ := exists_piece_of_mem h
  obtain ⟨c, ds, rfl⟩ := exists_first_of_mem_pieces hp
  rw [← ht]
  exact Piece.text_ne_nil c ds

/-- No token starts with white space. -/
theorem isSpace_head_of_mem {cs : List Char} {t : Token} {c : Char} {ds : List Char}
    (h : t ∈ (lexChars cs).tokens) (ht : t.text = c :: ds) : Text.isSpace c = false := by
  obtain ⟨p, hp, hkind, htext⟩ := exists_piece_of_mem h
  obtain ⟨d, es, rfl⟩ := exists_first_of_mem_pieces hp
  obtain ⟨rest, hrest⟩ := Piece.text_prefix d es
  rw [htext, ht] at hrest
  obtain ⟨rfl, -⟩ := List.cons.inj hrest
  cases hc : Text.isSpace c with
  | false => rfl
  | true =>
    rw [Piece.first, if_pos hc] at hkind
    cases hkind

/-- No piece is the end of a source. -/
theorem Piece.content_ne_eof (c : Char) (cs : List Char) : (first c cs).content ≠ .token .eof := by
  unfold first
  repeat' split
  all_goals try simp [ofKind, ofSymbol]
  -- what is left are the pieces that start with a slash, a dot, an equals sign, or no symbol
  · unfold slash lineComment
    repeat' split
    all_goals simp [ofSymbol, blockComment]
    repeat' split
    all_goals simp
  · unfold dots
    repeat' split
    all_goals simp [ofSymbol]
  · unfold equals
    repeat' split
    all_goals simp [ofSymbol]
  · unfold wordOrNumber
    repeat' split
    all_goals simp [ofKind, word]
    split <;> simp

theorem kind_ne_eof_lexChars {cs : List Char} {t : Token} (h : t ∈ (lexChars cs).tokens) :
    t.kind ≠ .eof := by
  obtain ⟨p, hp, hkind, -⟩ := exists_piece_of_mem h
  obtain ⟨c, ds, rfl⟩ := exists_first_of_mem_pieces hp
  intro he
  exact Piece.content_ne_eof c ds (hkind.trans (congrArg _ he))

/-! ## What is looked at while a source is cut -/

theorem after?_suffix {pattern cs r : List Char} (h : after? pattern cs = some r) : r <:+ cs := by
  induction cs with
  | nil =>
    rw [after?] at h
    split at h
    · cases h
      exact List.suffix_refl _
    · cases h
  | cons c cs ih =>
    rw [after?] at h
    split at h
    · cases h
      exact List.drop_suffix _ _
    · exact (ih h).trans (List.suffix_cons c cs)

/-- The value of an attribute is a part of the text that it is looked for in. -/
theorem attributeValue?_infix {name v : String} {cs : List Char}
    (h : attributeValue? name cs = some v) :
    ∃ before value behind, cs = before ++ value ++ behind ∧ v = String.ofList value := by
  obtain ⟨r, hr, hv⟩ := Option.bind_eq_some_iff.1 h
  obtain ⟨before, rfl⟩ := after?_suffix hr
  split at hv
  · cases hv
    refine ⟨before, r.takeWhile (· != '"'), r.dropWhile (· != '"'), ?_, rfl⟩
    rw [List.append_assoc, List.takeWhile_append_dropWhile]
  · cases hv

/-- The target of a reference is a part of its line behind the name of an attribute. -/
theorem reference?_infix {line : List Char} {target : String} (h : reference? line = some target) :
    ∃ name before value behind, line = before ++ value ++ behind ∧
      target = name ++ ":" ++ String.ofList value := by
  rw [reference?] at h
  split at h
  · obtain ⟨name, -, hname⟩ := List.exists_of_findSome?_eq_some h
    obtain ⟨v, hv, rfl⟩ := Option.map_eq_some_iff.1 hname
    obtain ⟨before, value, behind, hcontent, rfl⟩ := attributeValue?_infix hv
    refine ⟨name, line.takeWhile (fun c => c == ' ' || c == '\t') ++ before, value, behind, ?_, rfl⟩
    rw [List.append_assoc, List.append_assoc, ← List.append_assoc before, ← hcontent,
      List.takeWhile_append_dropWhile]
  · cases h

namespace Piece

theorem eq_blockComment {c : Char} {cs : List Char} {d : String}
    (h : (first c cs).content = .doc d) : ∃ rest body, first c cs = blockComment rest ∧
      (blockBody rest).1 = '*' :: body ∧ d = String.ofList (cleanDoc body) := by
  have hslash : ∃ ds, first c cs = slash ds := by
    unfold first at h ⊢
    repeat' split at h
    all_goals try simp [ofKind, ofSymbol] at h
    · exact ⟨cs, by simp_all⟩
    · unfold dots at h
      repeat' split at h
      all_goals simp [ofSymbol] at h
    · unfold equals at h
      repeat' split at h
      all_goals simp [ofSymbol] at h
    · unfold wordOrNumber at h
      repeat' split at h
      all_goals simp [ofKind, word] at h
  obtain ⟨ds, hds⟩ := hslash
  rw [hds] at h ⊢
  unfold slash lineComment at h ⊢
  split at h
  · repeat' split at h
    all_goals simp at h
    split at h <;> cases h
  · next rest =>
    refine ⟨rest, ?_⟩
    simp only [blockComment] at h
    split at h
    · next body hbody =>
      refine ⟨body, rfl, hbody, ?_⟩
      split at h
      · cases h
      · simpa using h.symm
    · cases h
  · simp [ofSymbol] at h

/-- A template literal is kept as it is written. -/
theorem eq_template {c : Char} {cs : List Char} {s : String}
    (h : (first c cs).content = .token (.template s)) : s = String.ofList (first c cs).text := by
  unfold first at h ⊢
  repeat' split at h
  all_goals try simp [ofKind, ofSymbol] at h
  · simp_all [ofKind]
  · unfold slash lineComment at h
    repeat' split at h
    all_goals simp [ofSymbol, blockComment] at h
    all_goals repeat' split at h
    all_goals simp at h
  · unfold dots at h
    repeat' split at h
    all_goals simp [ofSymbol] at h
  · unfold equals at h
    repeat' split at h
    all_goals simp [ofSymbol] at h
  · unfold wordOrNumber at h
    repeat' split at h
    all_goals simp [ofKind, word] at h
    split at h <;> simp at h

/-- A reference stands in a comment of one line with three slashes. -/
theorem eq_reference {c : Char} {cs : List Char} {target : String}
    (h : (first c cs).content = .token (.reference target)) :
    ∃ line, (first c cs).text = '/' :: '/' :: '/' :: line ∧ reference? line = some target := by
  have hslash : ∃ ds, first c cs = slash ds := by
    unfold first at h ⊢
    repeat' split at h
    all_goals try simp [ofKind, ofSymbol] at h
    · exact ⟨cs, by simp_all⟩
    · unfold dots at h
      repeat' split at h
      all_goals simp [ofSymbol] at h
    · unfold equals at h
      repeat' split at h
      all_goals simp [ofSymbol] at h
    · unfold wordOrNumber at h
      repeat' split at h
      all_goals simp [ofKind, word] at h
      split at h <;> simp at h
  obtain ⟨ds, hds⟩ := hslash
  rw [hds] at h ⊢
  unfold slash lineComment at h ⊢
  split at h
  · split at h
    · next rest =>
      simp only at h
      split at h
      · next found hfound =>
        cases h
        exact ⟨_, rfl, hfound⟩
      · cases h
    · cases h
  · simp only [blockComment] at h
    repeat' split at h
    all_goals cases h
  · simp [ofSymbol] at h

end Piece

/-- The parts of a source that are looked at while the piece `p` is cut, which starts `n` bytes
behind the front of the source: the piece itself, the body of a documentation comment, the line of a
comment with three slashes, and the value in it that a reference names. -/
structure Piece.LooksAt (p : Piece) (n : Nat) (cs : List Char) : Prop where
  text : slice? n (n + byteLength p.text) cs = some p.text
  comment {rest body : List Char} (hp : p = Piece.blockComment rest)
    (hb : (blockBody rest).1 = '*' :: body) :
    slice? (n + 3) (n + 3 + byteLength body) cs = some body
  doc {d : String} (hd : p.content = .doc d) : ∃ rest body, p = Piece.blockComment rest ∧
    (blockBody rest).1 = '*' :: body ∧ d = String.ofList (cleanDoc body)
  template {s : String} (hs : p.content = .token (.template s)) : s = String.ofList p.text
  line {line before behind : List Char} (hp : p.text = '/' :: '/' :: '/' :: line)
    (hl : line = before ++ behind) :
    slice? (n + 3 + byteLength before) (n + byteLength p.text) cs = some behind
  reference {target : String} (ht : p.content = .token (.reference target)) :
    ∃ name value start, target = name ++ ":" ++ String.ofList value ∧ n + 3 ≤ start ∧
      start + byteLength value ≤ n + byteLength p.text ∧
      slice? start (start + byteLength value) cs = some value

theorem byteLength_slashes (cs : List Char) :
    byteLength ('/' :: '/' :: '/' :: cs) = 3 + byteLength cs := by
  have hsize : '/'.utf8Size = 1 := by decide
  simp only [Text.byteLength_cons]
  omega

/-- A part of a part of a text. -/
theorem slice?_inside {n : Nat} {as bs before part behind cs : List Char}
    (h : cs = as ++ (before ++ part ++ behind) ++ bs) (hn : byteLength as = n) :
    slice? (n + byteLength before) (n + byteLength before + byteLength part) cs = some part := by
  refine slice?_eq_some_iff.2 ⟨as ++ before, behind ++ bs, ?_, by simp [hn], rfl⟩
  rw [h]
  simp

/-- Every piece of a source is cut from parts that stand between characters of it. -/
theorem looksAt_of_pieces {cs : List Char} {p : Piece} {ps qs : List Piece}
    (h : pieces cs = ps ++ p :: qs) : p.LooksAt (byteLength (textOf ps)) cs := by
  have hcs : cs = textOf ps ++ p.text ++ textOf qs := by
    rw [← flatMap_text_pieces cs, h]
    simp [textOf]
  obtain ⟨c, ds, hp⟩ := exists_first_of_mem_pieces (h ▸ List.mem_append_right ps List.mem_cons_self)
  constructor
  case text =>
    rw [hcs]
    exact slice?_append _ _ _
  case comment =>
    intro rest body hp hb
    have htext : p.text = ['/', '*', '*'] ++ body ++
        if (blockBody rest).2 then ['*', '/'] else [] := by
      rw [hp, Piece.blockComment, hb]
      rfl
    rw [htext] at hcs
    exact slice?_inside hcs rfl
  case doc =>
    intro d hd
    rw [hp] at hd ⊢
    exact Piece.eq_blockComment hd
  case template =>
    intro s hs
    rw [hp] at hs ⊢
    exact Piece.eq_template hs
  case line =>
    intro line before behind hp hl
    have htext : p.text = ('/' :: '/' :: '/' :: before) ++ behind ++ [] := by
      rw [hp, hl]
      simp
    have hstop : byteLength (textOf ps) + byteLength p.text =
        byteLength (textOf ps) + (3 + byteLength before) + byteLength behind := by
      rw [htext, Text.byteLength_append, Text.byteLength_append, byteLength_slashes,
        Text.byteLength_nil]
      omega
    rw [htext] at hcs
    have hslice := slice?_inside hcs rfl
    rw [byteLength_slashes] at hslice
    rwa [hstop, Nat.add_assoc]
  case reference =>
    intro target ht
    rw [hp] at ht
    obtain ⟨line, htext, href⟩ := Piece.eq_reference ht
    obtain ⟨name, before, value, behind, rfl, rfl⟩ := reference?_infix href
    rw [← hp] at htext
    have hpart : p.text = ('/' :: '/' :: '/' :: before) ++ value ++ behind := by
      rw [htext]
      simp
    refine ⟨name, value, byteLength (textOf ps) + byteLength ('/' :: '/' :: '/' :: before), rfl,
      ?_, ?_, ?_⟩
    · rw [byteLength_slashes]
      omega
    · rw [hpart]
      simp only [Text.byteLength_append]
      omega
    · rw [hpart] at hcs
      exact slice?_inside hcs rfl

end Ambient
