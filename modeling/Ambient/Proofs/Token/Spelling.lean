import Ambient.Proofs.Token.Lexeme

/-!
# What fixed texts, names and literals spell

`Spells.literal` decides what the fixed texts of the printer spell. A text that is one token
(`Spelled`) spells it in front of every delimiter, and a text that is kept as written spells the
tokens that it has on its own (`lexemesOf`).
-/

namespace Ambient

open Text (isSpace quote)

/-! ## Fixed texts -/

namespace Piece

/-- The piece of a symbol. -/
def ofMark (s : Symbol) : Piece :=
  ⟨s.text.toList, .token (.symbol s)⟩

/-- Symbols that are no part of a longer symbol or of a comment. -/
def standsAlone (s : Symbol) : Bool :=
  s ≠ .dot && s ≠ .eq && s ≠ .slash

theorem stands_ofMark {s : Symbol} (h : standsAlone s = true) (next : List Char) :
    (ofMark s).Stands next := by
  cases s <;> first | exact ⟨_, _, rfl, rfl⟩ | simp [standsAlone] at h

theorem Stands.text_ne_nil {p : Piece} {next : List Char} (h : p.Stands next) : p.text ≠ [] := by
  obtain ⟨c, cs, ht, -⟩ := h
  simp [ht]

end Piece

/-- What the pieces of a fixed text spell. The last piece has to be a blank or a symbol that stands
alone. -/
def fixedLexemes? : List Piece → Option (List Lexeme)
  | [] => some []
  | [p] =>
    match p.content with
    | .token (.symbol s) =>
      if Piece.standsAlone s && p.text = s.text.toList then some [.sym s] else none
    | _ => if p.text.all isSpace then some [] else none
  | p :: q :: ps =>
    match p.content with
    | .skipped => fixedLexemes? (q :: ps)
    | .token k => (fixedLexemes? (q :: ps)).map ({ kind := k } :: ·)
    | .doc _ => none

/-- White space is cut as far as it reaches. -/
theorem Spells.skipped {p : Piece} {s : String} {ls : List Lexeme} {next : List Char}
    (hp : p.Stands (s.toList ++ next)) (hk : p.content = .skipped) (h : Spells s ls next) :
    Spells (String.ofList p.text ++ s) ls next := by
  intro gap
  obtain ⟨ts, gap', hts, hls, hgap⟩ := h (gap ++ p.text)
  refine ⟨ts, gap', ?_, hls, ?_⟩
  · rw [String.toList_append, String.toList_ofList, List.append_assoc, hp.scan_skipped hk, hts]
  · rw [hgap, String.toList_append, String.toList_ofList, List.append_assoc]

/-- A fixed text spells its lexemes whatever stands behind it. -/
theorem spells_fixedLexemes {ps : List Piece} {ls : List Lexeme} (h : fixedLexemes? ps = some ls)
    (hc : Cuts ps []) (next : List Char) : Spells (String.ofList (textOf ps)) ls next := by
  have onward {p q : Piece} {ps : List Piece} (hc : Cuts (p :: q :: ps) []) :
      p.Stands ((String.ofList (textOf (q :: ps))).toList ++ next) := by
    refine hc.1.congr ?_
    obtain ⟨c, cs, ht⟩ := List.exists_cons_of_ne_nil hc.2.text_ne_nil
    simp [ht]
  fun_induction fixedLexemes? ps generalizing ls with
  | case1 =>
    obtain rfl : [] = ls := by simpa using h
    exact .nil
  | case2 p s hk hs =>
    obtain rfl : [.sym s] = ls := by simpa using h
    obtain ⟨ha, ht⟩ : Piece.standsAlone s = true ∧ p.text = s.text.toList := by simpa using hs
    refine .token (x := none) (k := .symbol s) ?_ (by simp)
    simpa [Piece.ofMark, ht] using Piece.stands_ofMark ha next
  | case3 p s hk hs => simp at h
  | case4 p hs hk =>
    obtain rfl : [] = ls := by simpa using h
    exact .blank (by simpa using hs)
  | case5 p hs hk => simp at h
  | case6 p q ps hk ih =>
    rw [textOf_cons, String.ofList_append]
    exact .skipped (onward hc) hk (ih h hc.2)
  | case7 p q ps k hk ih =>
    obtain ⟨ms, hms, rfl⟩ := Option.map_eq_some_iff.1 h
    rw [textOf_cons, String.ofList_append]
    show Spells _ ([{ kind := k }] ++ ms) next
    refine .append (.token (x := none) ?_ (by simp)) (ih hms hc.2)
    have hp := onward hc
    rwa [String.toList_ofList, ← hk]
  | case8 p q ps hk => simp at h

/-- **A fixed text spells what it is cut into.** -/
theorem Spells.fixed {s : String} {ls : List Lexeme} {next : List Char}
    (h : fixedLexemes? (pieces s.toList) = some ls) : Spells s ls next := by
  have := spells_fixedLexemes h (cuts_pieces s.toList) next
  rwa [textOf, flatMap_text_pieces, String.ofList_toList] at this

/-! ## Words and literals -/

/-- The text is one token of the kind when a blank stands behind it. -/
def Spelled (s : String) (k : Kind) : Prop :=
  Piece.Stands ⟨s.toList, .token k⟩ [' ']

theorem Spelled.unique {s : String} {k k' : Kind} (h : Spelled s k) (h' : Spelled s k') :
    k = k' := by
  obtain ⟨c, cs, ht, hf⟩ := h
  obtain ⟨c', cs', ht', hf'⟩ := h'
  obtain ⟨rfl, rfl⟩ := List.cons.inj (ht.symm.trans ht')
  simpa using hf.symm.trans hf'

theorem Delimited.fixed {s : String} {next : List Char}
    (h : ∃ d ∈ s.toList.head?, d ∈ delimiters) : Delimited (s.toList ++ next) := by
  obtain ⟨d, hd, hm⟩ := h
  obtain ⟨ds, hs⟩ := List.head?_eq_some_iff.1 hd
  intro c hc
  rw [hs, List.cons_append, List.head?_cons, Option.mem_some] at hc
  exact hc ▸ hm

/-- A word or literal spells itself in front of a delimiter. -/
theorem Spells.spelled {s : String} {k : Kind} {x : Option (List Char)} {next : List Char}
    (h : Spelled s k) (hn : Delimited next) (hk : k ≠ .symbol .eq := by simp)
    (hx : ∀ y ∈ x, y = s.toList := by simp) : Spells s [{ kind := k, text := x }] next := by
  exact .token (h.of_blank rfl (fun d hd => .inl (hn d hd)) fun e => absurd e hk) hx

theorem spelled_keyword (k : Keyword) : Spelled k.text (.keyword k) := by
  have all : Keyword.all.all (fun k => k.text.toList.head?.all fun c =>
      Piece.first c (k.text.toList.tail ++ [' ']) = ⟨k.text.toList, .token (.keyword k)⟩) =
        true := by
    decide +kernel
  obtain ⟨c, cs, hc⟩ : ∃ c cs, k.text.toList = c :: cs := by
    cases k <;> exact ⟨_, _, rfl⟩
  refine ⟨c, cs, hc, ?_⟩
  have := List.all_eq_true.1 all k k.mem_all
  rw [hc] at this ⊢
  exact of_decide_eq_true this

/-- A reserved word in front of a delimiter. -/
theorem Spells.kw (k : Keyword) {next : List Char} (hn : Delimited next) :
    Spells k.text [.kw k] next :=
  .spelled (x := none) (spelled_keyword k) hn

/-! ## Quoted texts -/

theorem stringRest_escapeChar (c : Char) (cs : List Char) :
    stringRest '"' (Text.escapeChar c ++ cs) =
      (Text.escapeChar c ++ (stringRest '"' cs).1, c :: (stringRest '"' cs).2) := by
  unfold Text.escapeChar
  split
  · rename_i h; subst h; rfl
  split
  · rename_i h; subst h; rfl
  split
  · rename_i h; subst h; rfl
  split
  · rename_i h; subst h; rfl
  split
  · rename_i h; subst h; rfl
  · rename_i h₁ h₂ _ _ _
    rw [List.singleton_append, stringRest_cons h₂, if_neg h₁]
    rfl

/-- A quoted text stands for itself. -/
theorem stringRest_quoteChars (cs next : List Char) :
    stringRest '"' (cs.flatMap Text.escapeChar ++ '"' :: next) =
      (cs.flatMap Text.escapeChar ++ ['"'], cs) := by
  induction cs with
  | nil => simp [stringRest]
  | cons c cs ih =>
    rw [List.flatMap_cons, List.append_assoc, stringRest_escapeChar, ih]
    simp

theorem stands_quote (v : String) (next : List Char) :
    Piece.Stands ⟨(quote v).toList, .token (.string v)⟩ next := by
  refine ⟨'"', v.toList.flatMap Text.escapeChar ++ ['"'], ?_, ?_⟩
  · simp [quote, Text.quoteChars]
  · rw [List.append_assoc, List.singleton_append]
    simp only [Piece.first, show isSpace '"' = false from rfl, Bool.false_eq_true, if_false,
      true_or, if_true, stringRest_quoteChars]
    simp [Piece.ofKind, quote, Text.quoteChars]

theorem spelled_quote (v : String) : Spelled (quote v) (.string v) :=
  stands_quote v [' ']

/-- A quoted text in front of anything. -/
theorem Spells.quote (v : String) {next : List Char} :
    Spells (quote v) [{ kind := .string v }] next :=
  .token (x := none) (stands_quote v next) (by simp)

/-! ## Texts that are kept as written -/

/-- The whole token, but for its place. -/
def Lexeme.ofToken (t : Token) : Lexeme :=
  { kind := t.kind, doc := t.doc, gap := some t.gap, text := some t.text }

/-- The lexemes of some tokens, the first of which may stand behind any gap. -/
def lexemesOfTokens : List Token → List Lexeme
  | [] => []
  | t :: ts => { Lexeme.ofToken t with gap := none } :: ts.map Lexeme.ofToken

/-- The lexemes of a text on its own, with a blank behind it. -/
def lexemesOf (s : String) : List Lexeme :=
  lexemesOfTokens (scan [] none (s.toList ++ [' ']))

/-- Whether a piece is a token. -/
def Piece.IsToken (p : Piece) : Prop :=
  ∃ k, p.content = .token k

/-- The pieces of a text that starts and ends with tokens, none of which reaches beyond the text.
The text may be empty. -/
structure Kept (s : String) (ps : List Piece) : Prop where
  text : textOf ps = s.toList
  cuts : Cuts ps [' ']
  head : ∀ p ∈ ps.head?, p.IsToken
  last : ∀ p ∈ ps.getLast?, p.IsToken

theorem gather_append_of_last {ps : List Piece} (h : ∀ p ∈ ps.getLast?, p.IsToken)
    (hps : ps ≠ []) (gap : List Char) (doc : Option String) (qs : List Piece) :
    gather gap doc (ps ++ qs) = gather gap doc ps ++ gather [] none qs := by
  induction ps generalizing gap doc with
  | nil => exact absurd rfl hps
  | cons p ps ih =>
    cases ps with
    | nil =>
      obtain ⟨k, hk⟩ := h p rfl
      simp [gather, hk]
    | cons p' ps =>
      have ih' := ih (by simpa using h) (by simp)
      simp only [List.cons_append, gather] at ih' ⊢
      cases p.content with
      | skipped => exact ih' _ _
      | doc d => exact ih' _ _
      | token k => exact congrArg _ (ih' _ _)

/-- The tokens of pieces that end with a token have all characters of the pieces. -/
theorem laid_gather {ps : List Piece} (h : ∀ p ∈ ps.getLast?, p.IsToken) (hps : ps ≠ [])
    (gap : List Char) (doc : Option String) : laid (gather gap doc ps) = gap ++ textOf ps := by
  induction ps generalizing gap doc with
  | nil => exact absurd rfl hps
  | cons p ps ih =>
    cases ps with
    | nil =>
      obtain ⟨k, hk⟩ := h p rfl
      simp [gather, hk]
    | cons p' ps =>
      have ih' := ih (by simpa using h) (by simp)
      rw [gather]
      cases p.content with
      | skipped => simp [ih']
      | doc d => simp [ih']
      | token k => simp [ih']

theorem describes_ofToken (ts : List Token) :
    List.Forall₂ Lexeme.Describes (ts.map Lexeme.ofToken) ts := by
  induction ts with
  | nil => exact .nil
  | cons t ts ih => exact .cons (by simp [Lexeme.Describes, Lexeme.ofToken]) ih

namespace Kept

variable {s : String} {ps : List Piece} {next : List Char} (h : Kept s ps)

include h

theorem lexemesOf_eq : lexemesOf s = lexemesOfTokens (gather [] none ps) := by
  have blank : pieces [' '] = [⟨[' '], .skipped⟩] := by decide
  rw [lexemesOf, scan, ← h.text, h.cuts.pieces_append, blank]
  cases ps with
  | nil => rfl
  | cons p ps => rw [gather_append_of_last h.last (by simp)]; simp [gather]

/-- A text that is kept as written spells its lexemes. -/
theorem spells (hl : ∀ p ∈ ps.getLast?, p.Stands next) : Spells s (lexemesOf s) next := by
  intro gap
  have hc : Cuts ps next := h.cuts.of_last hl
  rw [h.lexemesOf_eq, ← h.text, scan, hc.pieces_append]
  cases ps with
  | nil => exact ⟨[], gap, rfl, .nil, by simp⟩
  | cons p ps =>
    rw [gather_append_of_last h.last (by simp)]
    refine ⟨_, [], rfl, ?_, by rw [laid_gather h.last (by simp), List.append_nil]⟩
    obtain ⟨k, hk⟩ := h.head p rfl
    simp only [gather, hk]
    exact .cons (by simp [Lexeme.Describes, Lexeme.ofToken]) (describes_ofToken _)

end Kept

theorem Spelled.kept {s : String} {k : Kind} (h : Spelled s k) :
    Kept s [⟨s.toList, .token k⟩] where
  text := by simp
  cuts := ⟨h, trivial⟩
  head := by simp [Piece.IsToken]
  last := by simp [Piece.IsToken]

/-- A text of one token has one lexeme. -/
theorem Spelled.lexemesOf_eq {s : String} {k : Kind} (h : Spelled s k) :
    lexemesOf s = [{ kind := k, text := some s.toList }] := by
  rw [h.kept.lexemesOf_eq]
  rfl

end Ambient
