import Ambient.Proofs.Parser.Types
import Mathlib.Data.List.Induction

/-!
# The text of an import

The type of a value that another module exports keeps the text of an import, printed when the type
was read. That text ends with its last token, so that it is cut into the lexemes of the import
wherever it stands (`exists_kept_imported`), and is read back (`query_imported`).
-/

namespace Ambient

open Text (quote)

/-! ## Texts that end with a token -/

/-- Some pieces up to the last token, and the others. -/
theorem exists_last_token (ps : List Piece) :
    ∃ qs rs, ps = qs ++ rs ∧ (∀ p ∈ qs.getLast?, p.IsToken) ∧ ∀ p ∈ rs, ¬ p.IsToken := by
  induction ps using List.reverseRecOn with
  | nil => exact ⟨[], [], rfl, by simp, by simp⟩
  | append_singleton ps p ih =>
    by_cases hp : p.IsToken
    · exact ⟨ps ++ [p], [], by simp, by simpa using hp, by simp⟩
    · obtain ⟨qs, rs, rfl, hqs, hrs⟩ := ih
      refine ⟨qs, rs ++ [p], List.append_assoc .., hqs, fun q hq => ?_⟩
      rcases List.mem_append.1 hq with hq | hq
      · exact hrs q hq
      · exact List.mem_singleton.1 hq ▸ hp

theorem gather_eq_nil {ps : List Piece} (h : ∀ p ∈ ps, ¬ p.IsToken) (gap : List Char)
    (doc : Option String) : gather gap doc ps = [] := by
  induction ps generalizing gap doc with
  | nil => rfl
  | cons p ps ih =>
    have ih' := ih fun q hq => h q (List.mem_cons_of_mem p hq)
    rw [gather]
    cases hp : p.content with
    | skipped => exact ih' _ _
    | doc d => exact ih' _ _
    | token k => exact absurd ⟨k, hp⟩ (h p List.mem_cons_self)

/-- A text is kept as it is written if it starts with a token and its tokens have all of its
characters. -/
theorem Kept.of_laid {s : String} (hhead : ∃ p ∈ (pieces (s.toList ++ [' '])).head?, p.IsToken)
    (hlaid : laid (scan [] none (s.toList ++ [' '])) = s.toList) :
    ∃ ps, Kept s ps ∧ kindsOf ps = (scan [] none (s.toList ++ [' '])).map Token.kind := by
  obtain ⟨p, hp, hptok⟩ := hhead
  obtain ⟨qs, rs, hps, hqs, hrs⟩ := exists_last_token (pieces (s.toList ++ [' ']))
  have hscan : scan [] none (s.toList ++ [' ']) = gather [] none qs := by
    obtain ⟨gap, doc, hg⟩ := gather_append [] none qs rs
    rw [scan, hps, hg, gather_eq_nil hrs, List.append_nil]
  have hne : qs ≠ [] := by
    rintro rfl
    rw [hps, List.nil_append] at hp
    exact hrs p (List.mem_of_mem_head? hp) hptok
  have htext : textOf qs = s.toList := by
    rw [← hlaid, hscan, laid_gather hqs hne, List.nil_append]
  have hblank : textOf rs = [' '] := by
    have hall : textOf (qs ++ rs) = s.toList ++ [' '] := by
      rw [← hps]
      exact flatMap_text_pieces _
    rw [textOf_append, htext] at hall
    exact List.append_cancel_left hall
  have hcuts : Cuts qs [' '] := by
    have h := (cuts_append.1 (hps ▸ cuts_pieces (s.toList ++ [' ']))).1
    rwa [hblank, List.append_nil] at h
  refine ⟨qs, ⟨htext, hcuts, fun q hq => ?_, hqs⟩, by rw [hscan, map_kind_gather]⟩
  rw [hps, List.head?_append_of_ne_nil _ hne] at hp
  exact Option.mem_unique hp hq ▸ hptok

theorem getLast?_kindsOf {ps : List Piece} {p : Piece} {k : Kind} (hp : p ∈ ps.getLast?)
    (hk : p.content = .token k) : (kindsOf ps).getLast? = some k := by
  obtain ⟨qs, rfl⟩ := List.getLast?_eq_some_iff.1 hp
  simp [kindsOf, Piece.kind?, hk]

/-- A text with one behind it that is kept as it is written. -/
theorem Kept.of_spells {s t : String} {ls : List Lexeme} {qs : List Piece}
    (hhead : ∃ c cs, s.toList = c :: cs ∧ ∀ ds, (Piece.first c ds).IsToken)
    (hs : Spells s ls (t.toList ++ [' '])) (ht : Kept t qs) (hne : qs ≠ []) :
    ∃ ps, Kept (s ++ t) ps ∧ kindsOf ps = ls.map Lexeme.kind ++ kindsOf qs ∧
      ∀ p ∈ ps.getLast?, ∃ q ∈ qs.getLast?, p.content = q.content := by
  obtain ⟨ts, gap, hscan, hls, hgap⟩ := hs []
  have hbehind : scan gap none (t.toList ++ [' ']) = gather gap none qs := by
    rw [scan, ← ht.text, ht.cuts.pieces_append, gather_append_of_last ht.last hne,
      show pieces [' '] = [⟨[' '], .skipped⟩] by decide]
    exact List.append_nil _
  have hall : scan [] none ((s ++ t).toList ++ [' ']) = ts ++ gather gap none qs := by
    rw [String.toList_append, List.append_assoc, hscan, hbehind]
  have hlaid : laid (ts ++ gather gap none qs) = (s ++ t).toList := by
    rw [laid_append, laid_gather ht.last hne, ht.text, ← List.append_assoc, hgap,
      String.toList_append, List.nil_append]
  obtain ⟨c, cs, hc, hfirst⟩ := hhead
  have hpieces : pieces ((s ++ t).toList ++ [' ']) = Piece.first c (cs ++ t.toList ++ [' ']) ::
      pieces ((cs ++ t.toList ++ [' ']).drop
        ((Piece.first c (cs ++ t.toList ++ [' '])).text.length - 1)) := by
    rw [String.toList_append, hc]
    exact pieces_cons _ _
  obtain ⟨ps, hps, hk⟩ := Kept.of_laid (s := s ++ t)
    ⟨_, by rw [hpieces]; rfl, hfirst (cs ++ t.toList ++ [' '])⟩ (by rw [hall, hlaid])
  have hkinds : kindsOf ps = ls.map Lexeme.kind ++ kindsOf qs := by
    rw [hk, hall, List.map_append, map_kind_of_describes hls, map_kind_gather]
  refine ⟨ps, hps, hkinds, fun p hp => ?_⟩
  obtain ⟨q, hq⟩ := Option.ne_none_iff_exists'.1 (mt List.getLast?_eq_none_iff.1 hne)
  obtain ⟨k, hpk⟩ := hps.last p hp
  obtain ⟨k', hqk⟩ := ht.last q hq
  have hlast := getLast?_kindsOf hp hpk
  rw [hkinds, List.getLast?_append, getLast?_kindsOf hq hqk, Option.some_or] at hlast
  exact ⟨q, hq, by rw [hpk, hqk, Option.some.inj hlast]⟩

/-- A token that a lexeme of a token describes is described as that token is. -/
theorem describes_of_lexemesOfTokens {ls : List Lexeme} {ts us : List Token}
    (h : List.Forall₂ Lexeme.Describes ls ts) (hgap : ∀ l ∈ ls.head?, l.gap = none)
    (hus : List.Forall₂ Lexeme.Describes (lexemesOfTokens ts) us) :
    List.Forall₂ Lexeme.Describes ls us := by
  have rest {ls : List Lexeme} {ts us : List Token} (h : List.Forall₂ Lexeme.Describes ls ts)
      (hus : List.Forall₂ Lexeme.Describes (ts.map Lexeme.ofToken) us) :
      List.Forall₂ Lexeme.Describes ls us := by
    induction h generalizing us with
    | nil => exact hus
    | cons hl _ ih =>
      cases hus with
      | cons hu hus =>
        obtain ⟨hk, hd, hg, hx⟩ := hl
        refine .cons ⟨hu.1.trans hk, hu.2.1.trans hd, fun g hmem => ?_, fun x hmem => ?_⟩ (ih hus)
        · exact (hu.2.2.1 _ rfl).trans (hg g hmem)
        · exact (hu.2.2.2 _ rfl).trans (hx x hmem)
  cases h with
  | nil => exact hus
  | cons hl h =>
    cases hus with
    | cons hu hus =>
      obtain ⟨hk, hd, -, hx⟩ := hl
      refine .cons ⟨hu.1.trans hk, hu.2.1.trans hd, ?_, fun x hmem => ?_⟩ (rest h hus)
      · simp [hgap _ rfl]
      · exact (hu.2.2.2 _ rfl).trans (hx x hmem)

/-! ## Imports -/

section

variable {module : String} {qualifier : Option String} {args : List Ty}

/-- A text that starts like a printed import, in front of one that is kept as it is written. -/
theorem Kept.of_import (module : String) {s t : String} {ls : List Lexeme} {qs : List Piece}
    (hs : Spells s ls (t.toList ++ [' '])) (ht : Kept t qs) (hne : qs ≠ [])
    (hq : ∀ q ∈ qs.getLast?, q.content ≠ .token (.symbol .eq)) :
    ∃ ps, Kept ("import(" ++ quote module ++ s ++ t) ps ∧
      kindsOf ps = .keyword .importKw :: .lparen :: .string module ::
        (ls.map Lexeme.kind ++ kindsOf qs) ∧
      ∀ p ∈ ps.getLast?, p.content ≠ .token (.symbol .eq) := by
  have hfront : Spells ("import(" ++ quote module ++ s)
      ([.kw .importKw, .sym .lparen] ++ [{ kind := .string module }] ++ ls) (t.toList ++ [' ']) :=
    ((Spells.fixed rfl).append (.quote module)).append hs
  obtain ⟨ps, hps, hk, hlast⟩ := Kept.of_spells
    ⟨'i', _, by simp only [String.toList_append]; rfl, fun ds => ⟨_, rfl⟩⟩ hfront ht hne
  refine ⟨ps, hps, hk, fun p hp he => ?_⟩
  obtain ⟨q, hmem, hpq⟩ := hlast p hp
  exact hq q hmem (hpq ▸ he)

/-- A printed import ends with its last token. -/
theorem exists_kept_imported (h : (Ty.imported module qualifier args).Legible) :
    ∃ ps, Kept ((Ty.imported module qualifier args).print 0) ps ∧
      kindsOf ps = (Ty.imported module qualifier args).lexemes.map Lexeme.kind ∧
      ∀ p ∈ ps.getLast?, p.content ≠ .token (.symbol .eq) := by
  rw [Ty.Legible] at h
  rw [Ty.print, Ty.lexemes]
  have hrparen : Kept ")" [⟨[')'], .token .rparen⟩] := Spelled.kept ⟨')', [], rfl, rfl⟩
  have hrangle : Kept ">" [⟨['>'], .token .rangle⟩] := Spelled.kept ⟨'>', [], rfl, rfl⟩
  cases args with
  | nil =>
    rw [printTys, angled, String.append_empty, lexemesTys, angledLexemes, List.append_nil]
    cases qualifier with
    | none =>
      rw [Option.elim_none, String.append_empty]
      obtain ⟨ps, hps, hk, hlast⟩ := Kept.of_import module (t := ")") .nil hrparen (by simp) (by simp)
      exact ⟨ps, by simpa only [String.append_empty] using hps, hk, hlast⟩
    | some q =>
      have hq : DottedPath q := h.1 q rfl
      obtain ⟨a, ws, qs, k, ks, -, -, hqs, -, -, hkq, -, hend⟩ :=
        Dotted.kept (fun _ => Binder.word) hq
      have hfront : Spells (")" ++ ".") ([.sym .rparen] ++ [.sym .dot]) (q.toList ++ [' ']) :=
        .append (.fixed rfl) hq.spells_dot
      obtain ⟨ps, hps, hk, hlast⟩ := Kept.of_import module hfront hqs
        (by rintro rfl; simp [kindsOf] at hkq) hend
      refine ⟨ps, ?_, ?_, hlast⟩
      · rw [Option.elim_some]
        simpa only [String.append_assoc] using hps
      · rw [hk, ← hqs.map_kind]
        simp
  | cons t ts =>
    generalize hss : String.intercalate ", " (printTys 0 (t :: ts)) = ss
    have hfront : Spells (")" ++ (qualifier.elim "" ("." ++ ·) ++ ("<" ++ ss)))
        ([.sym .rparen] ++ (qualifier.elim [] (fun q => [.sym .dot] ++ lexemesOf q) ++
          ([.sym .langle] ++ separated .comma (lexemesTys (t :: ts))))) (">".toList ++ [' ']) := by
      refine .append (.fixed rfl) (.append ?_ (.append (.fixed rfl) ?_))
      · cases qualifier with
        | none => exact .nil
        | some q =>
          have hq : DottedPath q := h.1 q rfl
          refine hq.spells_dot.append (hq.atom.spells _ ?_)
          rw [String.toList_append, List.append_assoc]
          exact .fixed ⟨'<', rfl, by decide⟩
      · rw [← hss]
        exact (printTys_spells 0 (t :: ts) h.2).intercalate (.fixed ⟨'>', rfl, by decide⟩)
          ⟨',', rfl, by decide⟩ rfl
    obtain ⟨ps, hps, hk, hlast⟩ := Kept.of_import module hfront hrangle (by simp)
      (by simp)
    refine ⟨ps, ?_, ?_, hlast⟩
    · rw [printTys, angled, ← printTys, hss]
      · simpa only [String.append_assoc] using hps
      · simp
    · rw [hk, lexemesTys, angledLexemes]
      · simp [kindsOf, Piece.kind?]
      · simp

theorem map_kind_lexemesOf_imported (h : (Ty.imported module qualifier args).Legible) :
    (lexemesOf ((Ty.imported module qualifier args).print 0)).map Lexeme.kind =
      (Ty.imported module qualifier args).lexemes.map Lexeme.kind := by
  obtain ⟨ps, hps, hk, -⟩ := exists_kept_imported h
  exact hps.map_kind.trans hk

/-- **A printed import is read back where it stands for the type of a value.** -/
theorem query_imported (h : (Ty.imported module qualifier args).Legible)
    (hclear : clearTys args = true) : Query ((Ty.imported module qualifier args).print 0) := by
  obtain ⟨ps, hps, hk, hlast⟩ := exists_kept_imported h
  have hkinds := hps.map_kind.trans hk
  refine .inr ⟨hps.atom ?_ hlast, ?_, ?_, _, Ty.print_reread 0 _, ?_⟩
  · rintro rfl
    rw [Ty.lexemes] at hk
    simp [kindsOf] at hk
  · rw [Ty.lexemes] at hkinds
    obtain ⟨l, r, hl, hkw, -⟩ := List.map_eq_cons_iff.1 hkinds
    exact ⟨l, r, hl, hkw⟩
  · rw [hkinds]
    exact (Ty.neutral _ h).closesParens
  · intro n us hn hdot hangle c hc
    have hblank : Delimited [' '] := Delimited.blank
    obtain ⟨ts, gap, hts, hls, -⟩ := Ty.spells 0 hblank _ h []
    have hscan : lexemesOf ((Ty.imported module qualifier args).print 0) = lexemesOfTokens ts := by
      rw [lexemesOf, hts, scan, show pieces [' '] = [⟨[' '], .skipped⟩] by decide]
      simp [gather]
    have hlen : (angledLexemes (lexemesTys args)).length ≤ n := by
      have := congrArg List.length hkinds
      rw [List.length_map, List.length_map, Ty.lexemes] at this
      simp only [List.length_append] at this
      omega
    have hreads : Reads false _ _ _ _ us :=
      (reader_readTy n).imported (Nat.lt_succ_self n) h hlen ⟨hdot, hangle⟩
    rw [Ty.clear, hclear] at hreads
    refine hreads c ?_
    obtain ⟨vs, ws, hcut, hvs, hws⟩ := hc.split
    refine ⟨?_, hc.eof⟩
    rw [hcut]
    refine List.rel_append (describes_of_lexemesOfTokens hls ?_ (hscan ▸ hvs)) hws
    rw [Ty.lexemes]
    rintro l ⟨⟩
    rfl

end

end Ambient
