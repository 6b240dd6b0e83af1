import Ambient.Proofs.Token.Delimiter
import Mathlib.Data.List.Forall2

/-!
# Lexemes

A `Lexeme` is what is known of a token before its text is laid out: the kind and the documentation
comment, and where text is kept as written also the characters of the token and those before it.
`Spells s ls next` says that the text `s` is cut into tokens that match the lexemes `ls` when
`next` stands behind it, and that nothing of it reaches into `next`. Texts that spell their lexemes
can be put one after the other (`Spells.append`).
-/

namespace Ambient

open Text (isSpace)

/-! ## Tokens of pieces -/

/-- The tokens of some pieces. The first token stands behind a gap and has a documentation comment,
unless another comment comes later. -/
def gather (gap : List Char) (doc : Option String) : List Piece → List Token
  | [] => []
  | p :: ps =>
    match p.content with
    | .skipped => gather (gap ++ p.text) doc ps
    | .doc d => gather (gap ++ p.text) (some d) ps
    | .token kind => { kind, gap, text := p.text, start := 0, doc } :: gather [] none ps

/-- A token without its place in the source. -/
def Token.bare (t : Token) : Token :=
  { t with start := 0 }

theorem LexState.map_bare_foldl_step (ps : List Piece) (s : LexState) :
    (ps.foldl step s).finish.tokens.map Token.bare =
      s.tokens.toList.map Token.bare ++ gather s.skipped.reverse s.doc ps := by
  induction ps generalizing s with
  | nil => simp [finish, gather]
  | cons p ps ih =>
    rw [List.foldl_cons, ih, gather]
    unfold step
    cases p.content <;> simp [List.reverseAux_eq, Token.bare]

/-- The tokens of a text behind a gap and a documentation comment. -/
def scan (gap : List Char) (doc : Option String) (cs : List Char) : List Token :=
  gather gap doc (pieces cs)

/-- The tokens of a source but for their places. -/
theorem map_bare_lexChars (cs : List Char) :
    (lexChars cs).tokens.map Token.bare = scan [] none cs := by
  rw [lexChars_eq_foldl, LexState.map_bare_foldl_step]
  rfl

theorem kind_eof_lexChars (cs : List Char) : (lexChars cs).eof.kind = .eof := rfl

theorem gather_append (gap : List Char) (doc : Option String) (ps qs : List Piece) :
    ∃ gap' doc', gather gap doc (ps ++ qs) = gather gap doc ps ++ gather gap' doc' qs := by
  induction ps generalizing gap doc with
  | nil => exact ⟨gap, doc, rfl⟩
  | cons p ps ih =>
    simp only [List.cons_append, gather]
    cases p.content with
    | skipped => exact ih _ _
    | doc d => exact ih _ _
    | token kind =>
      obtain ⟨gap', doc', h⟩ := ih [] none
      exact ⟨gap', doc', by rw [h, List.cons_append]⟩

/-- A documentation comment goes to the first token that has none. -/
theorem gather_doc (gap : List Char) (d : Option String) (ps : List Piece) :
    gather gap d ps =
      (gather gap none ps).modifyHead fun t => { t with doc := t.doc.or d } := by
  induction ps generalizing gap d with
  | nil => rfl
  | cons p ps ih =>
    simp only [gather]
    cases p.content with
    | skipped => exact ih _ _
    | doc d' =>
      show gather _ (some d') ps = (gather _ (some d') ps).modifyHead _
      rw [ih _ (some d')]
      cases gather (gap ++ p.text) none ps <;> simp
    | token kind => simp

namespace Piece.Stands

variable {p : Piece} {gap next : List Char} {doc : Option String} (h : p.Stands next)

include h

theorem scan_append :
    scan gap doc (p.text ++ next) = gather gap doc (p :: pieces next) := by
  rw [scan, h.pieces_append]

theorem scan_token {k : Kind} (hk : p.content = .token k) :
    scan gap doc (p.text ++ next) =
      { kind := k, gap, text := p.text, start := 0, doc } :: scan [] none next := by
  rw [h.scan_append, gather, hk]
  rfl

theorem scan_skipped (hk : p.content = .skipped) :
    scan gap doc (p.text ++ next) = scan (gap ++ p.text) doc next := by
  rw [h.scan_append, gather, hk]
  rfl

theorem scan_doc {d : String} (hk : p.content = .doc d) :
    scan gap doc (p.text ++ next) = scan (gap ++ p.text) (some d) next := by
  rw [h.scan_append, gather, hk]
  rfl

end Piece.Stands

/-- White space goes into the gap character by character. -/
theorem scan_blank {c : Char} (hc : isSpace c = true) (gap next : List Char) (doc : Option String) :
    scan gap doc (c :: next) = scan (gap ++ [c]) doc next := by
  have first (d : Char) (ds : List Char) (hd : isSpace d = true) :
      Piece.first d ds = ⟨d :: ds.takeWhile isSpace, .skipped⟩ := if_pos hd
  have cut (d : Char) (ds : List Char) (hd : isSpace d = true) (g : List Char) :
      scan g doc (d :: ds) = scan (g ++ d :: ds.takeWhile isSpace) doc
        (ds.drop (ds.takeWhile isSpace).length) := by
    rw [scan, pieces_cons, first d ds hd, gather]
    rfl
  rw [cut c next hc]
  cases next with
  | nil => rfl
  | cons d ds =>
    cases hd : isSpace d
    · simp [hd]
    · rw [cut d ds hd]
      simp [hd]

theorem scan_blanks {bs : List Char} (hb : ∀ c ∈ bs, isSpace c = true) (gap next : List Char)
    (doc : Option String) : scan gap doc (bs ++ next) = scan (gap ++ bs) doc next := by
  induction bs generalizing gap with
  | nil => simp
  | cons b bs ih =>
    rw [List.cons_append, scan_blank (hb b List.mem_cons_self),
      ih fun c hc => hb c (List.mem_cons_of_mem b hc), List.append_assoc]
    rfl

/-! ## Lexemes -/

/-- What is known of a token. -/
structure Lexeme where
  kind : Kind
  doc : Option String := none
  /-- The characters before the token, where they matter. -/
  gap : Option (List Char) := none
  /-- The characters of the token, where they matter. -/
  text : Option (List Char) := none
  deriving DecidableEq, Repr

namespace Lexeme

/-- A reserved word. -/
def kw (k : Keyword) : Lexeme :=
  { kind := .keyword k }

/-- A symbol. -/
def sym (s : Symbol) : Lexeme :=
  { kind := .symbol s }

/-- The token is as the lexeme says. -/
def Describes (l : Lexeme) (t : Token) : Prop :=
  t.kind = l.kind ∧ t.doc = l.doc ∧ (∀ g ∈ l.gap, t.gap = g) ∧ ∀ x ∈ l.text, t.text = x

@[simp] theorem kind_kw (k : Keyword) : (kw k).kind = .keyword k := rfl

@[simp] theorem kind_sym (s : Symbol) : (sym s).kind = .symbol s := rfl

end Lexeme

theorem map_kind_of_describes {ls : List Lexeme} {ts : List Token}
    (h : List.Forall₂ Lexeme.Describes ls ts) : ts.map Token.kind = ls.map Lexeme.kind := by
  induction h with
  | nil => rfl
  | cons hl _ ih => rw [List.map_cons, List.map_cons, hl.1, ih]

/-- The first lexeme gets a documentation comment. -/
def documented (d : Option String) : List Lexeme → List Lexeme
  | [] => []
  | l :: ls => { l with doc := d } :: ls

theorem documented_append {d : Option String} {ls : List Lexeme} (h : ls ≠ []) (ms : List Lexeme) :
    documented d (ls ++ ms) = documented d ls ++ ms := by
  cases ls with
  | nil => exact absurd rfl h
  | cons l ls => rfl

theorem exists_documented (ls : List Lexeme) : ∃ d, documented d ls = ls := by
  cases ls with
  | nil => exact ⟨none, rfl⟩
  | cons l ls => exact ⟨l.doc, rfl⟩

/-- Tokens but for the documentation comment of the first one. -/
theorem describes_documented {d : Option String} {ls : List Lexeme} {ts : List Token}
    (h : List.Forall₂ Lexeme.Describes (documented d ls) ts) :
    ∃ us, List.Forall₂ Lexeme.Describes ls us ∧ us.map Token.kind = ts.map Token.kind ∧
      Token.span us = Token.span ts := by
  cases ls with
  | nil =>
    cases h
    exact ⟨[], .nil, rfl, rfl⟩
  | cons l ls =>
    cases h with
    | cons ht h =>
      rename_i t ts
      exact ⟨{ t with doc := l.doc } :: ts, .cons ⟨ht.1, rfl, ht.2.2⟩ h, rfl, rfl⟩

/-- Lists of lexemes with a symbol between neighbours. -/
def separated (s : Symbol) : List (List Lexeme) → List Lexeme
  | [] => []
  | [x] => x
  | x :: y :: r => x ++ [.sym s] ++ separated s (y :: r)

/-- The characters of some tokens with the gaps before them. -/
def laid (ts : List Token) : List Char :=
  ts.flatMap fun t => t.gap ++ t.text

@[simp] theorem laid_nil : laid [] = [] := rfl

@[simp] theorem laid_cons (t : Token) (ts : List Token) :
    laid (t :: ts) = t.gap ++ t.text ++ laid ts := rfl

@[simp] theorem laid_append (ts us : List Token) : laid (ts ++ us) = laid ts ++ laid us :=
  List.flatMap_append

/-- The text is cut into tokens that match the lexemes when `next` stands behind it. The tokens lie
in the text, and what is left of it goes into the next gap. -/
def Spells (s : String) (ls : List Lexeme) (next : List Char) : Prop :=
  ∀ gap, ∃ ts gap', scan gap none (s.toList ++ next) = ts ++ scan gap' none next ∧
    List.Forall₂ Lexeme.Describes ls ts ∧ laid ts ++ gap' = gap ++ s.toList

namespace Spells

variable {s t : String} {ls ms : List Lexeme} {next : List Char}

/-- **A text and the one behind it spell their lexemes in turn.** -/
theorem append (hs : Spells s ls (t.toList ++ next)) (ht : Spells t ms next) :
    Spells (s ++ t) (ls ++ ms) next := by
  intro gap
  obtain ⟨ts, gap', hts, hls, hgap⟩ := hs gap
  obtain ⟨us, gap'', hus, hms, hgap'⟩ := ht gap'
  refine ⟨ts ++ us, gap'', ?_, List.rel_append hls hms, ?_⟩
  · rw [String.toList_append, List.append_assoc, hts, hus, List.append_assoc]
  · rw [laid_append, List.append_assoc, hgap', ← List.append_assoc, hgap, String.toList_append,
      List.append_assoc]

theorem nil : Spells "" [] next :=
  fun gap => ⟨[], gap, rfl, .nil, by simp⟩

/-- White space spells nothing. -/
theorem blank (h : ∀ c ∈ s.toList, isSpace c = true) : Spells s [] next :=
  fun gap => ⟨[], _, scan_blanks h gap next none, .nil, rfl⟩

/-- A token spells itself. -/
theorem token {k : Kind} {x : Option (List Char)} (h : Piece.Stands ⟨s.toList, .token k⟩ next)
    (hx : ∀ y ∈ x, y = s.toList) : Spells s [{ kind := k, text := x }] next := by
  intro gap
  refine ⟨[_], [], h.scan_token rfl, .cons ⟨rfl, rfl, ?_, ?_⟩ .nil, by simp⟩
  · simp
  · exact fun y hy => (hx y hy).symm

end Spells

end Ambient
