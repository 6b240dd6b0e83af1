import Ambient.Proofs.Token.Documentation
import Ambient.Proofs.Token.Positions

/-!
# Layout between tokens

White space and plain comments between two tokens have no influence on the tokens (`lexChars_insert`):
if they are put in front of a token, this token has a longer gap, it and all tokens behind it start
later, and that is all. No piece in front of the place reaches into the new text, since that starts
with white space (`Piece.Stands.before_blank`), and the new text ends where it ended before, since it
ends with white space as well.
-/

namespace Ambient

open Text (isSpace isAlphabetic isAlphanumeric isNumeric byteLength)

/-! ## White space -/

/-- The code points of white space. -/
def spaceCodes : List Nat :=
  [9, 10, 11, 12, 13, 0x20, 0x85, 0xA0, 0x1680, 0x2000, 0x2001, 0x2002, 0x2003, 0x2004, 0x2005,
   0x2006, 0x2007, 0x2008, 0x2009, 0x200A, 0x2028, 0x2029, 0x202F, 0x205F, 0x3000]

theorem toNat_mem_spaceCodes {c : Char} (h : isSpace c = true) : c.toNat ∈ spaceCodes := by
  simp only [isSpace, Bool.or_eq_true, Bool.and_eq_true, decide_eq_true_eq, beq_iff_eq] at h
  simp only [spaceCodes, List.mem_cons, List.not_mem_nil, or_false]
  omega

/-- What holds of the characters of all these code points holds of white space. -/
theorem of_isSpace {p : Char → Bool} (hp : spaceCodes.all (fun n => p (Char.ofNat n)) = true)
    {c : Char} (h : isSpace c = true) : p c = true := by
  have hc := List.all_eq_true.1 hp _ (toNat_mem_spaceCodes h)
  rwa [Char.ofNat_toNat] at hc

theorem isIdentRest_of_isSpace {c : Char} (h : isSpace c = true) : isIdentRest c = false := by
  have hall : spaceCodes.all (fun n => !isIdentRest (Char.ofNat n)) = true := by decide +kernel
  simpa using of_isSpace (p := fun c => !isIdentRest c) hall h

theorem continuesNumber_of_isSpace {c : Char} (h : isSpace c = true) (prev : Char) :
    continuesNumber prev c = false := by
  have hall : spaceCodes.all (fun n => decide ((Char.ofNat n).isAlphanum = false ∧
      Char.ofNat n ≠ '.' ∧ Char.ofNat n ≠ '_' ∧ Char.ofNat n ≠ '-' ∧ Char.ofNat n ≠ '+')) =
        true := by decide +kernel
  have hc := of_isSpace (p := fun c => decide (c.isAlphanum = false ∧ c ≠ '.' ∧ c ≠ '_' ∧
    c ≠ '-' ∧ c ≠ '+')) hall h
  obtain ⟨h₁, h₂, h₃, h₄, h₅⟩ := of_decide_eq_true hc
  simp [continuesNumber, h₁, h₂, h₃, h₄, h₅]

/-! ## Pieces in front of white space -/

theorem closesComment_blockBody (cs : List Char) : closesComment (blockBody cs).1 = false := by
  fun_induction blockBody cs with
  | case1 => rfl
  | case2 => rfl
  | case3 c cs hc r ih =>
    refine closesComment_cons ih fun he hhead => ?_
    -- the body goes on with the character behind the star, which is no slash
    obtain ⟨body, hbody⟩ := List.head?_eq_some_iff.1 hhead
    obtain ⟨rest, hrest⟩ := blockBody_prefix cs
    rw [hbody] at hrest
    exact hc _ he hrest.symm

theorem blockBody_unclosed {cs : List Char} (h : (blockBody cs).2 = false) :
    (blockBody cs).1 = cs := by
  fun_induction blockBody cs with
  | case1 => rfl
  | case2 => cases h
  | case3 c cs hc r ih => exact congrArg _ (ih h)

namespace Piece

variable {p : Piece} {c d : Char} {cs ds next : List Char}

/-- A comment that ends in front of a text has found its closing mark. -/
theorem blockComment_append_closed
    (h : (blockComment (cs ++ d :: ds)).text = '/' :: '*' :: cs) (next : List Char) :
    blockComment (cs ++ next) = blockComment (cs ++ d :: ds) := by
  have hclosed : (blockBody (cs ++ d :: ds)).2 = true := by
    cases hb : (blockBody (cs ++ d :: ds)).2 with
    | true => rfl
    | false =>
      simp [blockComment, hb, blockBody_unclosed hb] at h
  have hcs : (blockBody (cs ++ d :: ds)).1 ++ ['*', '/'] = cs := by
    simpa [blockComment, hclosed] using h
  have hbody (zs : List Char) :
      blockBody (cs ++ zs) = ((blockBody (cs ++ d :: ds)).1, true) := by
    have happend : cs ++ zs = (blockBody (cs ++ d :: ds)).1 ++ '*' :: '/' :: zs := by
      conv_lhs => rw [← hcs]
      simp
    rw [happend]
    exact blockBody_append_close (closesComment_blockBody _) zs
  rw [blockComment, blockComment, hbody next, hbody (d :: ds)]

theorem dots_before_blank (h : (dots (cs ++ d :: ds)).text = '.' :: cs) (hc : c ≠ '.') :
    dots (cs ++ c :: next) = dots (cs ++ d :: ds) := by
  have one (c : Char) (r : List Char) (hc : c ≠ '.') : dots (c :: r) = ofSymbol ['.'] .dot := by
    simp [dots, hc]
  have two (c : Char) (r : List Char) (hc : c ≠ '.') :
      dots ('.' :: c :: r) = ofSymbol ['.', '.'] .dot := by
    simp [dots, hc]
  have three (r : List Char) : dots ('.' :: '.' :: r) = ofSymbol ['.', '.', '.'] .ellipsis := rfl
  rcases cs with _ | ⟨x, _ | ⟨y, cs⟩⟩
  · have hd : d ≠ '.' := by
      rintro rfl
      cases ds with
      | nil => cases h
      | cons e es =>
        by_cases he : e = '.'
        · rw [he, List.nil_append, three] at h
          cases h
        · rw [List.nil_append, two e es he] at h
          cases h
    exact (one c next hc).trans (one d ds hd).symm
  · obtain rfl : x = '.' := by
      by_contra hx
      rw [List.singleton_append, one x _ hx] at h
      cases h
    have hd : d ≠ '.' := by
      rintro rfl
      cases h
    exact (two c next hc).trans (two d ds hd).symm
  · obtain rfl : x = '.' := by
      by_contra hx
      rw [List.cons_append, one x _ hx] at h
      cases h
    obtain rfl : y = '.' := by
      by_contra hy
      rw [List.cons_append, List.cons_append, two y _ hy] at h
      cases h
    rfl

theorem equals_before_blank (h : (equals (cs ++ d :: ds)).text = '=' :: cs) (hc : c ≠ '>') :
    equals (cs ++ c :: next) = equals (cs ++ d :: ds) := by
  have one (c : Char) (r : List Char) (hc : c ≠ '>') : equals (c :: r) = ofSymbol ['='] .eq := by
    simp [equals, hc]
  cases cs with
  | nil =>
    have hd : d ≠ '>' := by
      rintro rfl
      cases h
    exact (one c next hc).trans (one d ds hd).symm
  | cons x cs =>
    obtain rfl : x = '>' := by
      by_contra hx
      rw [List.cons_append, one x _ hx] at h
      cases h
    rfl

/-- A comment of one line ends in front of the end of the line only. -/
theorem lineComment_ne (hd : d ≠ '\n') :
    (lineComment (cs ++ d :: ds)).text ≠ '/' :: '/' :: cs := by
  have stops (xs : List Char) : lineRest (xs ++ d :: ds) ≠ xs := by
    intro hxs
    exact hd (by simpa using stop_of_takeWhile_append hxs)
  cases cs with
  | nil =>
    unfold lineComment
    split
    · simp
    · simpa using stops []
  | cons x cs =>
    by_cases hx : x = '/'
    · subst hx
      simpa [lineComment] using stops cs
    · simpa [lineComment, hx] using stops (x :: cs)

theorem slash_before_blank (h : (slash (cs ++ d :: ds)).text = '/' :: cs) (hd : d ≠ '\n')
    (hc : c ≠ '/' ∧ c ≠ '*') :
    slash (cs ++ c :: next) = slash (cs ++ d :: ds) := by
  have symbol (c : Char) (r : List Char) (hc : c ≠ '/' ∧ c ≠ '*') :
      slash (c :: r) = ofSymbol ['/'] .slash := by
    simp [slash, hc.1, hc.2]
  cases cs with
  | nil =>
    have hd' : d ≠ '/' ∧ d ≠ '*' := by
      constructor
      · rintro rfl
        have hline : (lineComment ds).text = ['/'] := h
        unfold lineComment at hline
        split at hline <;> cases hline
      · rintro rfl
        cases h
    exact (symbol c next hc).trans (symbol d ds hd').symm
  | cons x cs =>
    by_cases h₁ : x = '/'
    · subst h₁
      have hline : (lineComment (cs ++ d :: ds)).text = '/' :: '/' :: cs := h
      exact absurd hline (lineComment_ne hd)
    by_cases h₂ : x = '*'
    · subst h₂
      exact blockComment_append_closed h (c :: next)
    · rw [List.cons_append, symbol x _ ⟨h₁, h₂⟩] at h
      cases h

theorem wordOrNumber_before_blank {x : Char} (h : (wordOrNumber x (cs ++ d :: ds)).text = x :: cs)
    (hc : isSpace c = true) :
    wordOrNumber x (cs ++ c :: next) = wordOrNumber x (cs ++ d :: ds) := by
  unfold wordOrNumber at h ⊢
  split
  · next hx =>
    rw [if_pos hx] at h
    have hr : numberRest x (cs ++ d :: ds) = cs := (List.cons.inj h).2
    rw [numberRest_append_stop hr (by simpa using continuesNumber_of_isSpace hc), hr]
  next hx =>
  rw [if_neg hx] at h
  split
  · next hi =>
    rw [if_pos hi] at h
    have hr : (cs ++ d :: ds).takeWhile isIdentRest = cs := (List.cons.inj h).2
    rw [takeWhile_append_stop hr (by simpa using isIdentRest_of_isSpace hc), hr]
  · rfl

/-- **A piece that is no white space itself ends in front of white space** where it ends in front
of something else. -/
theorem Stands.before_blank (h : p.Stands (d :: ds)) (hd : isSpace d = false)
    (hp : ∀ c ∈ p.text.head?, isSpace c = false) (hc : isSpace c = true) :
    p.Stands (c :: next) := by
  obtain ⟨x, xs, ht, hf⟩ := h
  refine ⟨x, xs, ht, ?_⟩
  subst hf
  have hx : ¬isSpace x = true := by
    rw [Bool.not_eq_true]
    exact hp x (by simp [ht])
  have hne (y : Char) (hy : isSpace y = false) : c ≠ y := by
    rintro rfl
    cases hc.symm.trans hy
  unfold first at ht ⊢
  simp only [if_neg hx] at ht ⊢
  split
  · next h₁ =>
    simp only [if_pos h₁] at ht
    have hq : x ≠ '\\' := by rcases h₁ with rfl | rfl <;> decide
    rw [stringRest_append_closed hq (List.cons.inj ht).2]
  next h₁ =>
  simp only [if_neg h₁] at ht
  split
  · next h₂ =>
    simp only [if_pos h₂] at ht
    rw [templateRest_append_closed (List.cons.inj ht).2, (List.cons.inj ht).2]
  next h₂ =>
  simp only [if_neg h₂] at ht
  split
  · next h₃ =>
    subst h₃
    simp only [if_pos] at ht
    refine slash_before_blank ht ?_ ⟨hne _ (by decide), hne _ (by decide)⟩
    rintro rfl
    cases hd
  next h₃ =>
  simp only [if_neg h₃] at ht
  split
  · next h₄ =>
    subst h₄
    simp only [if_pos] at ht
    exact dots_before_blank ht (hne _ (by decide))
  next h₄ =>
  simp only [if_neg h₄] at ht
  split
  · next h₅ =>
    subst h₅
    simp only [if_pos] at ht
    exact equals_before_blank ht (hne _ (by decide))
  next h₅ =>
  simp only [if_neg h₅] at ht
  cases hs : Symbol.ofChar? x with
  | some s => rfl
  | none =>
    rw [hs] at ht
    exact wordOrNumber_before_blank ht hc

end Piece

/-! ## Text between tokens -/

/-- White space and comments that say nothing: neither do they document what follows nor can they
be references. -/
inductive Filler : List Char → Prop
  | nil : Filler []
  | blank {c : Char} {w : List Char} (hc : isSpace c = true) (h : Filler w) : Filler (c :: w)
  | block {body w : List Char} (hstar : body.head? ≠ some '*') (hend : closesComment body = false)
    (h : Filler w) : Filler ('/' :: '*' :: (body ++ '*' :: '/' :: w))
  | line {body w : List Char} (hslash : body.head? ≠ some '/') (hend : '\n' ∉ body)
    (h : Filler w) : Filler ('/' :: '/' :: (body ++ '\n' :: w))

/-- Text that can be put between tokens: filler with white space at both ends. -/
structure Layout (w : List Char) : Prop where
  filler : Filler w
  head : ∃ c ∈ w.head?, isSpace c = true
  last : ∃ c ∈ w.getLast?, isSpace c = true

/-- Only the first character behind some pieces matters. -/
theorem Cuts.congr {ps : List Piece} {next next' : List Char} (h : Cuts ps next)
    (hn : next.take 1 = next'.take 1) : Cuts ps next' := by
  induction ps with
  | nil => trivial
  | cons p ps ih =>
    refine ⟨h.1.congr ?_, ih h.2⟩
    cases textOf ps with
    | nil => exact hn
    | cons c cs => rfl

namespace LexState

/-- The tokens of a text behind those found so far. -/
def run (s : LexState) (cs : List Char) : LexState :=
  (pieces cs).foldl step s

/-- Characters that mean nothing. -/
def skip (s : LexState) (w : List Char) : LexState :=
  { s with skipped := w.reverse ++ s.skipped, offset := s.offset + byteLength w }

theorem lexChars_eq_run (cs : List Char) : lexChars cs = (run {} cs).finish :=
  lexChars_eq_foldl cs

theorem step_skipped (s : LexState) {p : Piece} (h : p.content = .skipped) :
    s.step p = s.skip p.text := by
  simp only [step, h, skip, List.reverseAux_eq]

theorem skip_append (s : LexState) (v w : List Char) : s.skip (v ++ w) = (s.skip v).skip w := by
  simp [skip, Nat.add_assoc]

theorem run_append {ps : List Piece} {next : List Char} (h : Cuts ps next) (s : LexState) :
    s.run (textOf ps ++ next) = (ps.foldl step s).run next := by
  rw [run, h.pieces_append, List.foldl_append, run]

theorem run_skipped {p : Piece} {next : List Char} (h : p.Stands next) (hp : p.content = .skipped)
    (s : LexState) : s.run (p.text ++ next) = (s.skip p.text).run next := by
  rw [run, h.pieces_append, List.foldl_cons, step_skipped s hp, run]

theorem run_blank {c : Char} (hc : isSpace c = true) (s : LexState) (next : List Char) :
    s.run (c :: next) = (s.skip [c]).run next := by
  have cut (s : LexState) (d : Char) (ds : List Char) (hd : isSpace d = true) :
      s.run (d :: ds) = (s.skip (d :: ds.takeWhile isSpace)).run
        (ds.drop (ds.takeWhile isSpace).length) := by
    have hfirst : Piece.first d ds = ⟨d :: ds.takeWhile isSpace, .skipped⟩ := if_pos hd
    rw [run, pieces_cons, hfirst, List.foldl_cons, step_skipped s rfl]
    rfl
  rw [cut s c next hc]
  cases next with
  | nil => rfl
  | cons d ds =>
    cases hd : isSpace d with
    | false => simp [hd]
    | true =>
      rw [cut _ d ds hd, ← skip_append]
      simp [hd]

theorem filler_of_blank {w : List Char} (h : ∀ c ∈ w, isSpace c = true) : Filler w := by
  induction w with
  | nil => exact .nil
  | cons c w ih =>
    exact .blank (h c List.mem_cons_self) (ih fun d hd => h d (List.mem_cons_of_mem c hd))

/-- **Filler is skipped as a whole,** whatever stands behind it. -/
theorem run_filler {w : List Char} (h : Filler w) (s : LexState) (next : List Char) :
    s.run (w ++ next) = (s.skip w).run next := by
  induction h generalizing s with
  | nil => simp [skip]
  | @blank c w hc _ ih =>
    rw [List.cons_append, run_blank hc, ih, ← skip_append]
    rfl
  | @block body w hstar hend _ ih =>
    have hbody (next : List Char) : blockBody (body ++ '*' :: '/' :: next) = (body, true) :=
      blockBody_append_close hend next
    have hcontent (next : List Char) : Piece.first '/' ('*' :: (body ++ '*' :: '/' :: next)) =
        ⟨'/' :: '*' :: (body ++ ['*', '/']), .skipped⟩ := by
      show Piece.blockComment _ = _
      rw [Piece.blockComment, hbody]
      cases body with
      | nil => rfl
      | cons c cs =>
        have hc : c ≠ '*' := fun he => hstar (by rw [he]; rfl)
        simp [hc]
    have hstands : Piece.Stands ⟨'/' :: '*' :: (body ++ ['*', '/']), .skipped⟩ (w ++ next) :=
      ⟨'/', _, rfl, by simpa using hcontent (w ++ next)⟩
    have h := run_skipped hstands rfl s
    rw [ih, ← skip_append] at h
    simpa using h
  | @line body w hslash hend _ ih =>
    have hline (next : List Char) : Piece.first '/' ('/' :: (body ++ '\n' :: next)) =
        ⟨'/' :: '/' :: body, .skipped⟩ := by
      have hrest : lineRest (body ++ '\n' :: next) = body := by
        rw [lineRest, List.takeWhile_append_of_pos]
        · simp
        · intro c hc
          have hne : c ≠ '\n' := fun he => hend (he ▸ hc)
          simpa using hne
      show Piece.lineComment _ = _
      cases body with
      | nil => simpa [Piece.lineComment] using hrest
      | cons c cs =>
        have hc : c ≠ '/' := fun he => hslash (by rw [he]; rfl)
        simpa [Piece.lineComment, hc] using hrest
    have hstands : Piece.Stands ⟨'/' :: '/' :: body, .skipped⟩ ('\n' :: (w ++ next)) :=
      ⟨'/', _, rfl, by simpa using hline (w ++ next)⟩
    have h := run_skipped hstands rfl s
    rw [run_blank (by decide), ih, ← skip_append, ← skip_append] at h
    simpa using h

/-- What stands in front of a token is taken in as before if layout follows it. -/
theorem run_layout {ps : List Piece} {w : List Char} {d : Char} {ds : List Char}
    (hps : Cuts ps (d :: ds)) (hd : isSpace d = false) (hw : Layout w) (s : LexState)
    (next : List Char) :
    s.run (textOf ps ++ (w ++ next)) = ((ps.foldl step s).skip w).run next := by
  rcases List.eq_nil_or_concat ps with rfl | ⟨qs, p, rfl⟩
  · exact run_filler hw.filler s next
  rw [List.concat_eq_append] at hps ⊢
  obtain ⟨hqs, hp, -⟩ := cuts_append.1 hps
  obtain ⟨x, xs, htext, hfirst⟩ := id hp
  simp only [textOf_cons, textOf_nil, List.append_nil, List.nil_append] at hqs hp hfirst
  have hqs' : Cuts qs (p.text ++ (w ++ next)) := hqs.congr (by rw [htext]; rfl)
  rw [List.foldl_append, List.foldl_cons, List.foldl_nil]
  by_cases hx : isSpace x = true
  · -- white space in front of the place goes on into the layout
    rw [Piece.first, if_pos hx] at hfirst
    have hblank : Filler p.text := by
      rw [← hfirst]
      refine filler_of_blank fun c hc => ?_
      rcases List.mem_cons.1 hc with rfl | hc
      · exact hx
      · exact List.all_eq_true.1 List.all_takeWhile c hc
    have hskipped : p.content = .skipped := by rw [← hfirst]
    rw [textOf_append, textOf_cons, textOf_nil, List.append_nil, List.append_assoc,
      run_append hqs', run_filler hblank, run_filler hw.filler, step_skipped _ hskipped]
  · obtain ⟨c, hc, hspace⟩ := hw.head
    obtain ⟨w', rfl⟩ := List.head?_eq_some_iff.1 hc
    have hp' : p.Stands (c :: (w' ++ next)) :=
      hp.before_blank hd (by simpa [htext] using hx) hspace
    have hcuts : Cuts (qs ++ [p]) (c :: w' ++ next) :=
      cuts_append.2 ⟨by simpa using hqs', by simpa [Cuts] using hp'⟩
    rw [run_append hcuts, run_filler hw.filler, List.foldl_append]
    rfl

/-! ## Tokens behind the layout -/

end LexState

/-- The token somewhat later. -/
def Token.moved (n : Nat) (t : Token) : Token :=
  { t with start := t.start + n }

namespace LexState

/-- The tokens somewhat later. -/
def moved (n : Nat) (s : LexState) : LexState :=
  { s with tokens := s.tokens.map (Token.moved n), offset := s.offset + n }

/-- The tokens with others in front of them. -/
def behind (ts : Array Token) (s : LexState) : LexState :=
  { s with tokens := ts ++ s.tokens }

theorem step_moved (n : Nat) (s : LexState) (p : Piece) :
    (s.moved n).step p = (s.step p).moved n := by
  unfold step
  cases p.content <;> simp [moved, Token.moved, Nat.add_right_comm]

theorem step_behind (ts : Array Token) (s : LexState) (p : Piece) :
    (s.behind ts).step p = (s.step p).behind ts := by
  unfold step
  cases p.content <;> simp [behind]

theorem foldl_step_moved (n : Nat) (ps : List Piece) (s : LexState) :
    ps.foldl step (s.moved n) = (ps.foldl step s).moved n := by
  induction ps generalizing s with
  | nil => rfl
  | cons p ps ih => rw [List.foldl_cons, List.foldl_cons, step_moved, ih]

theorem foldl_step_behind (ts : Array Token) (ps : List Piece) (s : LexState) :
    ps.foldl step (s.behind ts) = (ps.foldl step s).behind ts := by
  induction ps generalizing s with
  | nil => rfl
  | cons p ps ih => rw [List.foldl_cons, List.foldl_cons, step_behind, ih]

/-- A token is put behind those before it, and everything starts anew. -/
theorem step_token (s : LexState) {p : Piece} {k : Kind} (h : p.content = .token k) :
    s.step p = (⟨#[], [], s.offset + byteLength p.text, none⟩ : LexState).behind (s.tokens.push
      { kind := k, gap := s.skipped.reverse, text := p.text, start := s.offset, doc := s.doc }) := by
  simp [step, h, behind]

theorem moved_moved (m n : Nat) (s : LexState) : (s.moved m).moved n = s.moved (m + n) := by
  simp [moved, Function.comp_def, Token.moved, Nat.add_assoc]

/-- **Behind a token all is as at the front of a source,** but for where it stands. -/
theorem foldl_step_token (s : LexState) {p : Piece} {k : Kind} (h : p.content = .token k)
    (ps : List Piece) :
    (p :: ps).foldl step s =
      ((ps.foldl step { offset := byteLength p.text }).moved s.offset).behind (s.tokens.push
        { kind := k, gap := s.skipped.reverse, text := p.text, start := s.offset, doc := s.doc }) := by
  have hfront : (⟨#[], [], s.offset + byteLength p.text, none⟩ : LexState) =
      moved s.offset { offset := byteLength p.text } := by
    simp [moved, Nat.add_comm]
  rw [List.foldl_cons, step_token s h, hfront, foldl_step_behind, foldl_step_moved]

theorem getElem?_foldl_step {s : LexState} {i : Nat} (hi : i < s.tokens.size) (ps : List Piece) :
    (ps.foldl step s).tokens[i]? = s.tokens[i]? := by
  have hs : s = ({ s with tokens := #[] } : LexState).behind s.tokens := by simp [behind]
  conv_lhs => rw [hs]
  rw [foldl_step_behind, behind, Array.getElem?_append_left hi]

theorem offset_foldl_step (ps : List Piece) (s : LexState) :
    (ps.foldl step s).offset = s.offset + byteLength (textOf ps) := by
  induction ps generalizing s with
  | nil => rfl
  | cons p ps ih =>
    have hstep : (s.step p).offset = s.offset + byteLength p.text := by
      unfold step
      cases p.content <;> rfl
    rw [List.foldl_cons, ih, hstep, textOf_cons, Text.byteLength_append, Nat.add_assoc]

/-- Each token comes from a piece, and is made of it and of what was found in front of it. -/
theorem exists_piece {ps : List Piece} {s : LexState} {i : Nat} {t : Token}
    (hi : s.tokens.size ≤ i) (h : (ps.foldl step s).tokens[i]? = some t) :
    ∃ qs q rs, ps = qs ++ q :: rs ∧ q.content = .token t.kind ∧
      (qs.foldl step s).tokens.size = i ∧ t.gap = (qs.foldl step s).skipped.reverse ∧
      t.text = q.text ∧ t.start = (qs.foldl step s).offset ∧ t.doc = (qs.foldl step s).doc := by
  induction ps generalizing s with
  | nil =>
    rw [List.foldl_nil, Array.getElem?_eq_none hi] at h
    cases h
  | cons p ps ih =>
    have later (hi' : (s.step p).tokens.size ≤ i) : ∃ qs q rs, p :: ps = qs ++ q :: rs ∧
        q.content = .token t.kind ∧ (qs.foldl step s).tokens.size = i ∧
        t.gap = (qs.foldl step s).skipped.reverse ∧ t.text = q.text ∧
        t.start = (qs.foldl step s).offset ∧ t.doc = (qs.foldl step s).doc := by
      obtain ⟨qs, q, rs, rfl, hq⟩ := ih hi' h
      exact ⟨p :: qs, q, rs, rfl, hq⟩
    cases hp : p.content with
    | skipped => exact later (by simpa [step, hp] using hi)
    | doc d => exact later (by simpa [step, hp] using hi)
    | token k =>
      rcases Nat.lt_or_eq_of_le hi with hlt | rfl
      · exact later (by simpa [step, hp] using Nat.succ_le_of_lt hlt)
      · have hsize : s.tokens.size < (s.step p).tokens.size := by simp [step, hp]
        rw [List.foldl_cons, getElem?_foldl_step hsize, step, hp] at h
        obtain rfl : _ = t := by simpa using h
        exact ⟨[], p, ps, rfl, hp, rfl, rfl, rfl, rfl, rfl⟩

end LexState

/-! ## Sources with layout more -/

namespace Lexed

/-- The tokens with other characters in front of one of them. -/
def withGap (l : Lexed) (i : Nat) (gap : List Char) : Lexed :=
  { l with tokens := l.tokens.modify i fun t => { t with gap } }

/-- The tokens from one on stand somewhat later. -/
def movedFrom (l : Lexed) (i n : Nat) : Lexed where
  tokens := l.tokens.take i ++ (l.tokens.drop i).map (Token.moved n)
  eof := l.eof.moved n

end Lexed

theorem modify_append_cons {α : Type} (as : List α) (a : α) (bs : List α) (f : α → α) :
    (as ++ a :: bs).modify as.length f = as ++ f a :: bs := by
  induction as with
  | nil => rfl
  | cons b as ih => simpa using ih

theorem Text.append_inj_of_byteLength {as bs cs ds : List Char} (h : as ++ bs = cs ++ ds)
    (hlen : byteLength as = byteLength cs) : as = cs ∧ bs = ds := by
  rcases List.append_eq_append_iff.1 h with ⟨es, rfl, rfl⟩ | ⟨es, rfl, rfl⟩
  · rw [byteLength_append] at hlen
    obtain rfl : es = [] := eq_nil_of_byteLength (by omega)
    simp
  · rw [byteLength_append] at hlen
    obtain rfl : es = [] := eq_nil_of_byteLength (by omega)
    simp

/-- **Layout in front of a token goes into the gap before it.** Nothing else changes but where this
token and those behind it start. -/
theorem lexChars_insert {front behind w : List Char} {i : Nat} {t : Token}
    (ht : (lexChars (front ++ behind)).tokens[i]? = some t) (hstart : t.start = byteLength front)
    (hw : Layout w) :
    lexChars (front ++ w ++ behind) =
      ((lexChars (front ++ behind)).withGap i (t.gap ++ w)).movedFrom i (byteLength w) := by
  rw [lexChars_eq_foldl] at ht
  obtain ⟨qs, q, rs, hpieces, hq, hsize, hgap, htext, hoffset, hdoc⟩ :=
    LexState.exists_piece (s := {}) (Nat.zero_le i) (by simpa [LexState.finish] using ht)
  have hall : textOf qs ++ textOf (q :: rs) = front ++ behind := by
    rw [← textOf_append, ← hpieces]
    exact flatMap_text_pieces _
  have hlength : byteLength (textOf qs) = byteLength front := by
    rw [← hstart, hoffset, LexState.offset_foldl_step, Nat.zero_add]
  obtain ⟨hfront, hbehind⟩ := Text.append_inj_of_byteLength hall hlength
  have hcuts := cuts_pieces (front ++ behind)
  rw [hpieces] at hcuts
  obtain ⟨hqs, hrs⟩ := cuts_append.1 hcuts
  rw [List.append_nil] at hqs
  obtain ⟨d, ds, hd, hfirst⟩ := hrs.1
  have hspace : isSpace d = false := by
    cases hspace : isSpace d with
    | false => rfl
    | true =>
      rw [← hfirst, Piece.first, if_pos hspace] at hq
      cases hq
  have hrest : pieces behind = q :: rs := by
    have h := hrs.pieces_append
    rw [List.append_nil, hbehind] at h
    exact h.trans (List.append_nil _)
  have hbefore : Cuts qs (d :: (ds ++ textOf rs)) := by simpa [hd] using hqs
  have hinsert := LexState.run_layout hbefore hspace hw {} behind
  rw [hfront] at hinsert
  have hplain : LexState.run {} (front ++ behind) =
      (q :: rs).foldl LexState.step (qs.foldl LexState.step {}) := by
    rw [LexState.run, hpieces, List.foldl_append]
  generalize qs.foldl LexState.step {} = s at *
  have hinserted : LexState.run {} (front ++ w ++ behind) =
      (q :: rs).foldl LexState.step (s.skip w) := by
    rw [List.append_assoc, hinsert, LexState.run, hrest]
  have htoken : (q :: rs).foldl LexState.step s =
      ((rs.foldl LexState.step { offset := byteLength q.text }).moved s.offset).behind
        (s.tokens.push t) := by
    rw [LexState.foldl_step_token s hq, ← hgap, ← htext, ← hoffset, ← hdoc]
  have hlater : (q :: rs).foldl LexState.step (s.skip w) =
      (((rs.foldl LexState.step { offset := byteLength q.text }).moved s.offset).moved
        (byteLength w)).behind
        (s.tokens.push { t.moved (byteLength w) with gap := t.gap ++ w }) := by
    rw [LexState.foldl_step_token _ hq, LexState.moved_moved, hgap, Token.moved, htext, hoffset,
      hdoc]
    simp [LexState.skip]
  rw [LexState.lexChars_eq_run, LexState.lexChars_eq_run, hplain, hinserted, htoken, hlater]
  generalize (rs.foldl LexState.step { offset := byteLength q.text }).moved s.offset = u
  have hlen : s.tokens.toList.length = i := hsize
  have htokens (t : Token) (u : LexState) : (u.behind (s.tokens.push t)).tokens.toList =
      s.tokens.toList ++ t :: u.tokens.toList := by simp [LexState.behind]
  simp only [LexState.finish, Lexed.withGap, Lexed.movedFrom, htokens]
  rw [← hlen, modify_append_cons, List.take_left, List.drop_left]
  simp [LexState.behind, LexState.moved, Token.moved]

end Ambient
