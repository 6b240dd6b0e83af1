import Ambient.Proofs.Token.Alone
import Ambient.Proofs.Token.Closed
import Ambient.Proofs.Token.Tiling

/-!
# Texts from one token to another

A literal that nothing closes takes in everything behind it, and a reference takes in its line.
Every other token ends in front of a blank where it ends in its source (`Piece.Stands.in_front`). So
the source from one token to another is kept as written, with the tokens that it has there
(`kept_span`), if the last one of them is such a token.
-/

namespace Ambient

open Text (isSpace trimEnd trimStart)

/-! ## Closed literals -/

/-- Whether a quoted literal ends with its closing quote, given what is behind the opening one. -/
def closesQuote (quote : Char) : List Char → Bool
  | [] => false
  | ['\\'] => false
  | '\\' :: _ :: cs => closesQuote quote cs
  | c :: cs => if c = quote then true else closesQuote quote cs

/-- Whether a text that starts with a quote ends with it. -/
def closesString : List Char → Bool
  | [] => false
  | quote :: cs => closesQuote quote cs

theorem closesQuote_cons {quote c : Char} (hc : c ≠ '\\') (cs : List Char) :
    closesQuote quote (c :: cs) = if c = quote then true else closesQuote quote cs := by
  rw [closesQuote]
  · exact fun e => absurd e hc
  · exact fun _ _ e => absurd e hc

/-- A token that is no literal without an end. -/
structure Token.Ended (t : Token) : Prop where
  string : ∀ v, t.kind = .string v → closesString t.text = true
  template : t.Closed

/-- A closed literal ends where it ended before. -/
theorem stringRest_stringRest_append {quote : Char} (hq : quote ≠ '\\') {cs : List Char}
    (next : List Char) (h : closesQuote quote (stringRest quote cs).1 = true) :
    stringRest quote ((stringRest quote cs).1 ++ next) = stringRest quote cs := by
  fun_induction stringRest quote cs with
  | case1 => simp [closesQuote] at h
  | case2 => simp [closesQuote] at h
  | case3 c cs r ih =>
    simp only [closesQuote] at h
    simp only [List.cons_append, stringRest, r, ih h]
  | case4 cs => rw [List.singleton_append, stringRest_cons hq, if_pos rfl]
  | case5 c cs h₁ h₂ hc r ih =>
    have hne : c ≠ '\\' := ne_backslash h₁ h₂
    rw [closesQuote_cons hne, if_neg hc] at h
    rw [List.cons_append, stringRest_cons hne, if_neg hc, ih h]

namespace Piece

variable {p : Piece} {c : Char} {cs next : List Char} {k : Kind}

theorem slash_in_front (h : (slash cs).text = '/' :: cs) (hk : (slash cs).content = .token k)
    (hr : ∀ r, k ≠ .reference r) : slash (cs ++ [' ']) = slash cs := by
  unfold slash at hk
  split at hk
  · unfold lineComment at hk
    split at hk
    · dsimp only at hk
      split at hk
      · exact absurd (Content.token.inj hk).symm (hr _)
      · cases hk
    · cases hk
  · unfold blockComment at hk
    dsimp only at hk
    repeat' split at hk
    all_goals cases hk
  · next h₁ h₂ =>
    rw [slash] at h
    · obtain rfl : [] = cs := (List.cons.inj h).2
      rfl
    · exact h₁
    · exact h₂

theorem dots_in_front (h : (dots cs).text = '.' :: cs) : dots (cs ++ [' ']) = dots cs := by
  unfold dots at h
  split at h <;> (cases h; rfl)

theorem equals_in_front (h : (equals cs).text = '=' :: cs) : equals (cs ++ [' ']) = equals cs := by
  unfold equals at h
  split at h <;> (cases h; rfl)

theorem wordOrNumber_in_front (h : (wordOrNumber c cs).text = c :: cs) :
    wordOrNumber c (cs ++ [' ']) = wordOrNumber c cs := by
  unfold wordOrNumber at h ⊢
  split
  · next hd =>
    rw [if_pos hd] at h
    have hr : numberRest c cs = cs := (List.cons.inj h).2
    rw [← hr, numberRest_numberRest_append, hr, hr]
  next hd =>
  rw [if_neg hd] at h
  split
  · next hi =>
    rw [if_pos hi] at h
    have hr : cs.takeWhile isIdentRest = cs := (List.cons.inj h).2
    rw [← hr, takeWhile_takeWhile_append (by decide), hr, hr]
  · rfl

/-- **A token ends in front of a blank where it ends in front of something else,** if it is no
reference and no open literal. -/
theorem Stands.in_front (h : p.Stands next) (hk : p.content = .token k)
    (hs : ∀ v, k = .string v → closesString p.text = true)
    (ht : ∀ v, k = .template v → closesTemplate p.text.tail = true)
    (hr : ∀ r, k ≠ .reference r) : p.Stands [' '] := by
  obtain ⟨c, cs, htext, hfirst⟩ := h.alone
  rw [List.append_nil] at hfirst
  refine ⟨c, cs, htext, ?_⟩
  subst hfirst
  rw [htext] at hs ht
  unfold first at htext hk ⊢
  split at hk
  · cases hk
  next h₀ =>
  simp only [if_neg h₀] at htext ⊢
  split at hk
  · next h₁ =>
    simp only [if_pos h₁] at htext ⊢
    have hq : c ≠ '\\' := by rcases h₁ with rfl | rfl <;> decide
    have hrest : (stringRest c cs).1 = cs := (List.cons.inj htext).2
    have hclosed : closesQuote c (stringRest c cs).1 = true := by
      rw [hrest]
      exact hs _ (Content.token.inj hk).symm
    have hagain := stringRest_stringRest_append hq [' '] hclosed
    rw [hrest] at hagain
    rw [hagain]
  next h₁ =>
  simp only [if_neg h₁] at htext ⊢
  split at hk
  · next h₂ =>
    simp only [if_pos h₂] at htext ⊢
    have hrest : templateRest cs = cs := (List.cons.inj htext).2
    have hclosed : closesTemplate (templateRest cs) = true := by
      rw [hrest]
      exact ht _ (Content.token.inj hk).symm
    have hagain := templateRest_templateRest_append [' '] hclosed
    rw [hrest] at hagain
    rw [hagain, hrest]
  next h₂ =>
  simp only [if_neg h₂] at htext ⊢
  split at hk
  · next h₃ =>
    subst h₃
    simp only [if_pos] at htext ⊢
    exact slash_in_front htext hk hr
  next h₃ =>
  simp only [if_neg h₃] at htext ⊢
  split at hk
  · next h₄ =>
    subst h₄
    simp only [if_pos] at htext ⊢
    exact dots_in_front htext
  next h₄ =>
  simp only [if_neg h₄] at htext ⊢
  split at hk
  · next h₅ =>
    subst h₅
    simp only [if_pos] at htext ⊢
    exact equals_in_front htext
  next h₅ =>
  simp only [if_neg h₅] at htext ⊢
  cases hsym : Symbol.ofChar? c with
  | some s => rfl
  | none =>
    rw [hsym] at htext
    exact wordOrNumber_in_front htext

end Piece

/-! ## The last token -/

theorem getLast?_of_closesQuote {quote : Char} {cs : List Char}
    (h : closesQuote quote (stringRest quote cs).1 = true) :
    (stringRest quote cs).1.getLast? = some quote := by
  fun_induction stringRest quote cs with
  | case1 => simp [closesQuote] at h
  | case2 => simp [closesQuote] at h
  | case3 c cs r ih =>
    simp only [closesQuote] at h
    simp [List.getLast?_cons, r, ih h]
  | case4 cs => rfl
  | case5 c cs h₁ h₂ hc r ih =>
    rw [closesQuote_cons (ne_backslash h₁ h₂), if_neg hc] at h
    simp [List.getLast?_cons, r, ih h]

theorem getLast?_of_closesTemplate {cs : List Char}
    (h : closesTemplate (templateRest cs) = true) : (templateRest cs).getLast? = some '\x60' := by
  fun_induction templateRest cs with
  | case1 => simp [closesTemplate] at h
  | case2 => simp [closesTemplate] at h
  | case3 c cs ih =>
    simp only [closesTemplate] at h
    simp [List.getLast?_cons, ih h]
  | case4 cs => rfl
  | case5 c cs h₁ h₂ hc ih =>
    rw [closesTemplate_cons (ne_backslash h₁ h₂), if_neg hc] at h
    simp [List.getLast?_cons, ih h]

/-- Whether the token is a quoted literal or a template. -/
def Kind.isLiteral : Kind → Bool
  | .string _ | .template _ => true
  | _ => false

namespace Piece

variable {c : Char} {cs : List Char} {k : Kind}

theorem isLiteral_slash (h : (slash cs).content = .token k) : k.isLiteral = false := by
  unfold slash lineComment at h
  repeat' split at h
  all_goals simp only [ofSymbol, blockComment, reduceCtorEq] at h
  all_goals repeat' split at h
  all_goals first | cases h; rfl | cases h

theorem isLiteral_dots (h : (dots cs).content = .token k) : k.isLiteral = false := by
  unfold dots at h
  split at h <;> (cases h; rfl)

theorem isLiteral_equals (h : (equals cs).content = .token k) : k.isLiteral = false := by
  unfold equals at h
  split at h <;> (cases h; rfl)

theorem isLiteral_wordOrNumber (h : (wordOrNumber c cs).content = .token k) :
    k.isLiteral = false := by
  unfold wordOrNumber at h
  split at h
  · cases h
    rfl
  split at h
  · cases h
    split <;> rfl
  · cases h

/-- A token that is no reference and no open literal ends as its kind tells. -/
theorem closedBy_first (hk : (first c cs).content = .token k)
    (hs : ∀ v, k = .string v → closesString (first c cs).text = true)
    (ht : ∀ v, k = .template v → closesTemplate (first c cs).text.tail = true)
    (hr : ∀ r, k ≠ .reference r) : k.closedBy (first c cs).text = true := by
  have plain (text : List Char) (hl : k.isLiteral = false) : k.closedBy text = true := by
    cases k with
    | string v | template v => cases hl
    | reference r => exact absurd rfl (hr r)
    | _ => rfl
  unfold first at hk hs ht ⊢
  split at hk
  · cases hk
  next h₀ =>
  simp only [if_neg h₀] at hs ht ⊢
  split at hk
  · next h₁ =>
    simp only [if_pos h₁] at hs ⊢
    cases hk
    simpa [Kind.closedBy, ofKind] using getLast?_of_closesQuote (hs _ rfl)
  next h₁ =>
  simp only [if_neg h₁] at ht ⊢
  split at hk
  · next h₂ =>
    simp only [if_pos h₂] at ht ⊢
    cases hk
    simpa [Kind.closedBy, ofKind, h₂] using getLast?_of_closesTemplate (ht _ rfl)
  refine plain _ ?_
  split at hk
  · exact isLiteral_slash hk
  split at hk
  · exact isLiteral_dots hk
  split at hk
  · exact isLiteral_equals hk
  split at hk
  · cases hk
    rfl
  · exact isLiteral_wordOrNumber hk

end Piece

/-- **A token that is no reference and no open literal ends with a character that can be seen.** -/
theorem Token.Ended.closedBy {cs : List Char} {t : Token} (h : t.Ended)
    (hmem : t ∈ (lexChars cs).tokens) (hr : ∀ r, t.kind ≠ .reference r) :
    t.kind.closedBy t.text = true := by
  obtain ⟨p, hp, hk, htext⟩ := exists_piece_of_mem hmem
  obtain ⟨c, ds, rfl⟩ := exists_first_of_mem_pieces hp
  rw [← htext]
  refine Piece.closedBy_first hk (fun v hv => ?_) (fun v hv => ?_) hr
  · rw [htext]
    exact h.string v hv
  · rw [htext]
    exact h.template v hv

/-! ## Tokens side by side -/

/-- A token was made of a piece, and the tokens around it of the pieces around that. -/
theorem exists_piece_of_gather {ps : List Piece} {gap : List Char} {doc : Option String}
    {us vs : List Token} {t : Token} (h : gather gap doc ps = us ++ t :: vs) :
    ∃ qs q rs, ps = qs ++ q :: rs ∧ q.content = .token t.kind ∧ q.text = t.text ∧
      gather gap doc (qs ++ [q]) = us ++ [t] ∧ gather [] none rs = vs := by
  induction ps generalizing gap doc us with
  | nil => simp [gather] at h
  | cons p ps ih =>
    rw [gather] at h
    have later {gap' : List Char} {doc' : Option String} {us' : List Token}
        (h' : gather gap' doc' ps = us' ++ t :: vs)
        (hp : ∀ qs, gather gap' doc' qs = us' ++ [t] → gather gap doc (p :: qs) = us ++ [t]) :
        ∃ qs q rs, p :: ps = qs ++ q :: rs ∧ q.content = .token t.kind ∧ q.text = t.text ∧
          gather gap doc (qs ++ [q]) = us ++ [t] ∧ gather [] none rs = vs := by
      obtain ⟨qs, q, rs, rfl, hq, htext, hus, hvs⟩ := ih h'
      exact ⟨p :: qs, q, rs, rfl, hq, htext, hp _ hus, hvs⟩
    cases hp : p.content with
    | skipped =>
      rw [hp] at h
      exact later h fun qs hqs => by simpa only [gather, hp] using hqs
    | doc d =>
      rw [hp] at h
      exact later h fun qs hqs => by simpa only [gather, hp] using hqs
    | token k =>
      rw [hp] at h
      cases us with
      | nil =>
        obtain ⟨rfl, rfl⟩ := List.cons.inj h
        exact ⟨[], p, ps, rfl, hp, rfl, by simp [gather, hp], rfl⟩
      | cons u us =>
        obtain ⟨hu, hrest⟩ := List.cons.inj h
        refine later hrest fun qs hqs => ?_
        simp only [gather, hp, hqs, hu, List.cons_append]

/-- Tokens of a source, side by side, were made of pieces side by side. -/
theorem exists_pieces {cs : List Char} {us e vs : List Token}
    (h : (lexChars cs).tokens = us ++ e ++ vs) (hne : e ≠ []) :
    ∃ qs ps rs, pieces cs = qs ++ ps ++ rs ∧ textOf ps = Token.span e ∧
      kindsOf ps = e.map Token.kind ∧ (∀ p ∈ ps.head?, p.IsToken) ∧
      ∀ p ∈ ps.getLast?, ∃ t ∈ e.getLast?, p.content = .token t.kind ∧ p.text = t.text := by
  obtain ⟨t, ts, rfl⟩ := List.exists_cons_of_ne_nil hne
  have hscan : gather [] none (pieces cs) =
      us.map Token.bare ++ t.bare :: (ts.map Token.bare ++ vs.map Token.bare) := by
    rw [← scan, ← map_bare_lexChars, h]
    simp
  obtain ⟨qs, q, rs, hpieces, hq, htext, -, hrest⟩ := exists_piece_of_gather hscan
  rcases List.eq_nil_or_concat ts with rfl | ⟨ss, u, rfl⟩
  · refine ⟨qs, [q], rs, by simp [hpieces], ?_, ?_, ?_, ?_⟩
    · rw [textOf_cons, textOf_nil, htext, Token.span]
      rfl
    · simp [kindsOf, Piece.kind?, hq, Token.bare]
    · simp only [List.head?_cons, Option.mem_some_iff, forall_eq']
      exact ⟨_, hq⟩
    · simp only [List.getLast?_singleton, Option.mem_some_iff, forall_eq', exists_eq_left']
      exact ⟨hq, htext⟩
  · -- the pieces behind the first one, up to the last token
    rw [List.concat_eq_append, List.map_append, List.append_assoc, List.map_singleton,
      List.singleton_append] at hrest
    obtain ⟨qs', q', rs', rfl, hq', htext', hss, -⟩ := exists_piece_of_gather hrest
    have htoken : ∀ p ∈ (qs' ++ [q']).getLast?, p.IsToken := by
      simp only [List.getLast?_concat, Option.mem_some_iff, forall_eq']
      exact ⟨_, hq'⟩
    have hlaid := laid_gather htoken (by simp) [] none
    have hkinds := map_kind_gather [] none (qs' ++ [q'])
    rw [hss] at hlaid hkinds
    refine ⟨qs, q :: (qs' ++ [q']), rs', by simp [hpieces], ?_, ?_, ?_, ?_⟩
    · rw [textOf_cons, ← List.nil_append (textOf _), ← hlaid, htext, Token.span]
      simp [laid, Token.bare, List.flatMap_map]
    · rw [kindsOf, List.filterMap_cons, ← kindsOf, ← hkinds, Piece.kind?, hq]
      simp [Token.bare, Function.comp_def]
    · simp only [List.head?_cons, Option.mem_some_iff, forall_eq']
      exact ⟨_, hq⟩
    · rw [← List.cons_append, List.getLast?_concat]
      simp only [Option.mem_some_iff, forall_eq']
      have hlast : (t :: ss.concat u).getLast? = some u := by
        rw [List.concat_eq_append, ← List.cons_append, List.getLast?_concat]
      exact ⟨u, hlast, hq', htext'⟩

/-- **The source from one token to another is kept as written**, with all tokens in between. -/
theorem kept_span {cs : List Char} {us e vs : List Token}
    (h : (lexChars cs).tokens = us ++ e ++ vs)
    (hlast : ∀ t ∈ e.getLast?, t.Ended ∧ ∀ r, t.kind ≠ .reference r) :
    ∃ ps, Kept (String.ofList (Token.span e)) ps ∧ kindsOf ps = e.map Token.kind := by
  by_cases hne : e = []
  · subst hne
    exact ⟨[], ⟨rfl, trivial, by simp, by simp⟩, rfl⟩
  obtain ⟨qs, ps, rs, hpieces, htext, hkinds, hhead, hps⟩ := exists_pieces h hne
  refine ⟨ps, ⟨by rw [htext, String.toList_ofList], ?_, hhead, fun p hp => ?_⟩, hkinds⟩
  · have hcuts := cuts_pieces cs
    rw [hpieces, List.append_assoc, cuts_append, cuts_append] at hcuts
    refine hcuts.2.1.of_last fun p hp => ?_
    obtain ⟨t, ht, hk, hptext⟩ := hps p hp
    obtain ⟨hended, href⟩ := hlast t ht
    obtain ⟨as, rfl⟩ := List.getLast?_eq_some_iff.1 hp
    have hstands := (cuts_append.1 hcuts.2.1).2.1
    refine hstands.in_front hk (fun v hv => ?_) (fun v hv => ?_) href
    · rw [hptext]
      exact hended.string v hv
    · rw [hptext]
      exact hended.template v hv
  · obtain ⟨t, -, hk, -⟩ := hps p hp
    exact ⟨_, hk⟩

end Ambient
