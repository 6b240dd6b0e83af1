import Ambient.Proofs.Token.Cut

/-!
# Tokens in front of delimiters

A token that stands in front of a blank stands in front of every delimiter
(`Piece.Stands.of_blank`), and at the end of a text: what follows a token is looked at only to find
its end. `Spelled s k` says that the text `s` is one token of kind `k` in front of a blank, so that an open quote is no
token of its own.
-/

namespace Ambient

open Text (isSpace)

/-- Characters that end a word or number in front of them. -/
def delimiters : List Char :=
  [' ', '\n', ';', ',', ')', ']', '>', '?', ':', '(', '[', '<']

/-- A text that starts with a delimiter, or nothing. -/
def Delimited (next : List Char) : Prop :=
  ∀ d ∈ next.head?, d ∈ delimiters

section Scanners

variable {next ys xs : List Char} {y : Char}

theorem takeWhile_append_stop {p : Char → Bool} (h : (xs ++ y :: ys).takeWhile p = xs)
    (hd : ∀ d ∈ next.head?, p d = false) : (xs ++ next).takeWhile p = xs := by
  induction xs with
  | nil =>
    cases next with
    | nil => rfl
    | cons d ds => simp [hd d rfl]
  | cons x xs ih =>
    cases hx : p x
    · simp [hx] at h
    · simp only [List.cons_append, List.takeWhile_cons, hx, if_pos] at h ⊢
      rw [ih (List.cons.inj h).2]

theorem stop_of_takeWhile_append {p : Char → Bool} (h : (xs ++ y :: ys).takeWhile p = xs) :
    p y = false := by
  induction xs with
  | nil =>
    cases hy : p y
    · rfl
    · simp [hy] at h
  | cons x xs ih =>
    cases hx : p x
    · simp [hx] at h
    · simp only [List.cons_append, List.takeWhile_cons, hx, if_pos] at h
      exact ih (List.cons.inj h).2

theorem numberRest_append_stop {prev : Char} (h : numberRest prev (xs ++ y :: ys) = xs)
    (hd : ∀ d ∈ next.head?, ∀ c, continuesNumber c d = false) :
    numberRest prev (xs ++ next) = xs := by
  induction xs generalizing prev with
  | nil =>
    cases next with
    | nil => rfl
    | cons d ds => rw [List.nil_append, numberRest, hd d rfl, if_neg Bool.false_ne_true]
  | cons x xs ih =>
    cases hx : continuesNumber prev x
    · simp [numberRest, hx] at h
    · simp only [List.cons_append, numberRest, hx, if_pos] at h ⊢
      rw [ih (List.cons.inj h).2]

/-- A literal that ends in front of a text has found its closing quote. -/
theorem stringRest_append_closed {quote : Char} {zs : List Char} (hq : quote ≠ '\\')
    (h : (stringRest quote (xs ++ y :: ys)).1 = xs) :
    stringRest quote (xs ++ zs) = stringRest quote (xs ++ y :: ys) := by
  induction xs using stringRest.induct quote with
  | case1 =>
    exfalso
    unfold stringRest at h
    split at h <;> (try split at h) <;> simp_all
  | case2 => simp [stringRest] at h
  | case3 c cs ih =>
    simp only [List.cons_append, stringRest, List.cons.injEq, true_and] at h ⊢
    rw [ih h]
  | case4 cs h₁ h₂ => simp only [List.cons_append, stringRest_cons hq, if_pos]
  | case5 c cs h₁ h₂ hc ih =>
    simp only [List.cons_append, stringRest_cons (ne_backslash h₁ h₂), if_neg hc] at h ⊢
    rw [ih (List.cons.inj h).2]

theorem templateRest_append_closed {zs : List Char} (h : templateRest (xs ++ y :: ys) = xs) :
    templateRest (xs ++ zs) = xs := by
  induction xs using templateRest.induct with
  | case1 =>
    exfalso
    unfold templateRest at h
    split at h <;> (try split at h) <;> simp_all
  | case2 => simp [templateRest] at h
  | case3 c cs ih =>
    simp only [List.cons_append, templateRest, List.cons.injEq, true_and] at h ⊢
    exact ih h
  | case4 cs h₁ h₂ =>
    simp [templateRest] at h ⊢
    exact h
  | case5 c cs h₁ h₂ hc ih =>
    simp only [List.cons_append, templateRest_cons (ne_backslash h₁ h₂), if_neg hc] at h ⊢
    rw [ih (List.cons.inj h).2]

end Scanners

/-! ## What delimiters do not continue -/

theorem isIdentRest_of_mem_delimiters : ∀ d ∈ delimiters, isIdentRest d = false := by
  have h : delimiters.all (fun d => !isIdentRest d) = true := by decide
  simpa only [List.all_eq_true, Bool.not_eq_true'] using h

theorem continuesNumber_of_mem_delimiters {d : Char} (h : d ∈ delimiters) (c : Char) :
    continuesNumber c d = false := by
  have h' : delimiters.all (fun d =>
      d.isAlphanum = false ∧ d ≠ '.' ∧ d ≠ '_' ∧ d ≠ '-' ∧ d ≠ '+') = true := by decide
  have hd := of_decide_eq_true (List.all_eq_true.1 h' d h)
  simp [continuesNumber, hd]

theorem symbol_of_mem_delimiters :
    ∀ d ∈ delimiters, d ≠ '/' ∧ d ≠ '*' ∧ d ≠ '.' := by
  have h : delimiters.all (fun d => d ≠ '/' ∧ d ≠ '*' ∧ d ≠ '.') = true := by decide
  exact fun d hd => of_decide_eq_true (List.all_eq_true.1 h d hd)

namespace Piece

variable {p : Piece} {k : Kind} {c : Char} {cs next : List Char}

/-- A comment goes on over a blank behind it or is no token. -/
theorem eq_nil_of_slash (hk : (slash (cs ++ [' '])).content = .token k)
    (ht : (slash (cs ++ [' '])).text = '/' :: cs) : cs = [] := by
  cases cs with
  | nil => rfl
  | cons c cs =>
    by_cases h₁ : c = '/'
    · subst h₁
      rw [List.cons_append, show slash ('/' :: (cs ++ [' '])) = lineComment (cs ++ [' ']) from rfl]
        at hk ht
      unfold lineComment at hk ht
      split at hk
      · rename_i xs hx
        rw [hx] at ht
        replace ht : '/' :: lineRest xs = cs := by simpa using ht
        generalize hl : lineRest xs = line at ht
        subst ht
        obtain rfl : line ++ [' '] = xs := (List.cons.inj hx).2
        exact absurd (stop_of_takeWhile_append hl) (by decide)
      · simp at hk
    by_cases h₂ : c = '*'
    · subst h₂
      rw [List.cons_append, show slash ('*' :: (cs ++ [' '])) = blockComment (cs ++ [' ']) from rfl]
        at hk
      simp only [blockComment] at hk
      split at hk
      · split at hk <;> simp at hk
      · simp at hk
    simp [slash, h₁, h₂, ofSymbol] at ht

/-- Dots are taken three at a time, two at a time or one at a time. -/
theorem dots_append {x : Char} (ht : (dots (cs ++ [x])).text = '.' :: cs) (hx : x ≠ '.')
    (hd : next.head? ≠ some '.') : dots (cs ++ next) = dots (cs ++ [x]) := by
  have one (r : List Char) (h : r.head? ≠ some '.') : dots r = ofSymbol ['.'] .dot := by
    cases r with
    | nil => rfl
    | cons c r =>
      have hc : c ≠ '.' := by simpa using h
      simp [dots, hc]
  have two (r : List Char) (h : r.head? ≠ some '.') :
      dots ('.' :: r) = ofSymbol ['.', '.'] .dot := by
    cases r with
    | nil => rfl
    | cons c r =>
      have hc : c ≠ '.' := by simpa using h
      simp [dots, hc]
  have hx' : [x].head? ≠ some '.' := by simpa using hx
  rcases cs with _ | ⟨c, _ | ⟨c', cs⟩⟩
  · rw [List.nil_append, List.nil_append, one next hd, one [x] hx']
  · obtain rfl : c = '.' := by
      refine Decidable.byContradiction fun h => ?_
      rw [List.singleton_append, one _ (by simpa using h)] at ht
      simp [ofSymbol] at ht
    exact (two next hd).trans (two [x] hx').symm
  · obtain rfl : c = '.' := by
      refine Decidable.byContradiction fun h => ?_
      rw [List.cons_append, one _ (by simpa using h)] at ht
      simp [ofSymbol] at ht
    obtain rfl : c' = '.' := by
      refine Decidable.byContradiction fun h => ?_
      rw [List.cons_append, List.cons_append, two _ (by simpa using h)] at ht
      simp [ofSymbol] at ht
    rfl

theorem equals_append {x : Char} (ht : (equals (cs ++ [x])).text = '=' :: cs) (hx : x ≠ '>')
    (hd : cs = [] → next.head? ≠ some '>') : equals (cs ++ next) = equals (cs ++ [x]) := by
  have one (r : List Char) (h : r.head? ≠ some '>') : equals r = ofSymbol ['='] .eq := by
    cases r with
    | nil => rfl
    | cons c r =>
      have hc : c ≠ '>' := by simpa using h
      simp [equals, hc]
  cases cs with
  | nil => rw [List.nil_append, List.nil_append, one next (hd rfl), one [x] (by simpa using hx)]
  | cons c cs =>
    obtain rfl : c = '>' := by
      refine Decidable.byContradiction fun h => ?_
      rw [List.cons_append, one _ (by simpa using h)] at ht
      simp [ofSymbol] at ht
    rfl

theorem wordOrNumber_append {x : Char} (hk : (wordOrNumber c (cs ++ [x])).content = .token k)
    (ht : (wordOrNumber c (cs ++ [x])).text = c :: cs)
    (hd : ∀ d ∈ next.head?, d ∈ delimiters ∨ k.isWord = true ∧ d = '.') :
    wordOrNumber c (cs ++ next) = wordOrNumber c (cs ++ [x]) := by
  unfold wordOrNumber at hk ht ⊢
  split
  · rename_i hc
    rw [if_pos hc] at ht hk
    have hr : numberRest c (cs ++ [x]) = cs := (List.cons.inj ht).2
    have hd' : ∀ d ∈ next.head?, d ∈ delimiters := by
      refine fun d hmem => (hd d hmem).resolve_right fun h => ?_
      rw [← Content.token.inj hk] at h
      simp [Kind.isWord, Kind.wordText?] at h
    rw [numberRest_append_stop hr fun d h => continuesNumber_of_mem_delimiters (hd' d h), hr]
  · rename_i hc
    rw [if_neg hc] at ht
    split
    · rename_i hi
      rw [if_pos hi] at ht
      have hr : (cs ++ [x]).takeWhile isIdentRest = cs := (List.cons.inj ht).2
      have hd' : ∀ d ∈ next.head?, isIdentRest d = false := by
        intro d hmem
        rcases hd d hmem with h | ⟨-, rfl⟩
        · exact isIdentRest_of_mem_delimiters d h
        · decide
      rw [takeWhile_append_stop hr hd', hr]
    · rfl

/-- **A token in front of a blank stands in front of every delimiter and at the end,** and a word also
in front of a dot. -/
theorem Stands.of_blank (h : p.Stands [' ']) (hk : p.content = .token k)
    (hd : ∀ d ∈ next.head?, d ∈ delimiters ∨ k.isWord = true ∧ d = '.')
    (he : k = .symbol .eq → next.head? ≠ some '>') : p.Stands next := by
  obtain ⟨c, cs, ht, hf⟩ := h
  refine ⟨c, cs, ht, ?_⟩
  subst hf
  unfold first at hk ht ⊢
  split at hk
  · simp at hk
  rename_i h₀
  simp only [if_neg h₀] at ht ⊢
  split at hk
  · rename_i h₁
    simp only [if_pos h₁] at ht ⊢
    have hq : c ≠ '\\' := by rcases h₁ with rfl | rfl <;> decide
    rw [stringRest_append_closed hq (List.cons.inj ht).2]
  rename_i h₁
  simp only [if_neg h₁] at ht ⊢
  split at hk
  · rename_i h₂
    simp only [if_pos h₂] at ht ⊢
    rw [templateRest_append_closed (List.cons.inj ht).2, (List.cons.inj ht).2]
  rename_i h₂
  simp only [if_neg h₂] at ht ⊢
  have hmem (hw : k.isWord = false) {d : Char} (h : d ∈ next.head?) : d ∈ delimiters :=
    (hd d h).resolve_right fun h => by simp [hw] at h
  split at hk
  · rename_i h₃
    subst h₃
    simp only [if_pos] at ht ⊢
    obtain rfl := eq_nil_of_slash hk ht
    have hw : k.isWord = false := by rw [← Content.token.inj hk]; rfl
    cases next with
    | nil => rfl
    | cons d ds =>
      obtain ⟨hd₁, hd₂, -⟩ := symbol_of_mem_delimiters d (hmem hw rfl)
      simp [slash, hd₁, hd₂]
  rename_i h₃
  simp only [if_neg h₃] at ht ⊢
  split at hk
  · rename_i h₄
    subst h₄
    simp only [if_pos] at ht ⊢
    have hw : k.isWord = false := by
      unfold dots at hk
      split at hk <;> (rw [← Content.token.inj hk]; rfl)
    refine dots_append ht (by decide) fun hdot => ?_
    exact (symbol_of_mem_delimiters '.' (hmem hw hdot)).2.2 rfl
  rename_i h₄
  simp only [if_neg h₄] at ht ⊢
  split at hk
  · rename_i h₅
    subst h₅
    simp only [if_pos] at ht ⊢
    refine equals_append ht (by decide) ?_
    rintro rfl
    refine he ?_
    simpa [equals, ofSymbol] using hk.symm
  rename_i h₅
  simp only [if_neg h₅] at ht ⊢
  cases hs : Symbol.ofChar? c with
  | some s => rfl
  | none =>
    rw [hs] at ht hk
    exact wordOrNumber_append hk ht hd

end Piece

end Ambient
