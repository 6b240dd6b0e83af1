import Ambient.Proofs.Token.Layout

/-!
# The last character of a token

A literal that nothing closes runs to the end of the source, and a reference to the end of its line,
so both can end with white space. Every other token ends with a character that can be seen
(`isSpace_getLast_of_mem`).
-/

namespace Ambient

open Text (isSpace)

/-- Whether a token of the kind is closed by its text: a string or a template ends with the mark that
it starts with, and a reference is never closed. -/
def Kind.closedBy (k : Kind) (text : List Char) : Bool :=
  match k with
  | .reference _ => false
  | .string _ | .template _ => text.tail.getLast? == text.head?
  | _ => true

theorem isIdentStart_of_isSpace {c : Char} (h : isSpace c = true) : isIdentStart c = false := by
  have hrest := isIdentRest_of_isSpace h
  have hhash : c ≠ '#' := by
    rintro rfl
    exact absurd h (by decide)
  simp only [isIdentRest, Text.isAlphanumeric, Bool.or_eq_false_iff, beq_eq_false_iff_ne] at hrest
  simp [isIdentStart, hrest, hhash]

/-- The last character of a run of characters that can be seen. -/
theorem isSpace_getLast_of_all {p : Char → Bool} (hp : ∀ c, isSpace c = true → p c = false)
    {cs : List Char} (h : ∀ c ∈ cs, p c = true) : ∀ c ∈ cs.getLast?, isSpace c = false := by
  intro c hc
  refine Bool.eq_false_iff.2 fun hspace => ?_
  exact Bool.false_ne_true ((hp c hspace).symm.trans (h c (List.mem_of_getLast? hc)))

theorem numberRest_visible (prev : Char) (cs : List Char) :
    ∀ c ∈ numberRest prev cs, isSpace c = false := by
  induction cs generalizing prev with
  | nil => simp [numberRest]
  | cons c cs ih =>
    intro d hd
    rw [numberRest] at hd
    split at hd
    · next hc =>
      rcases List.mem_cons.1 hd with rfl | hd
      · refine Bool.eq_false_iff.2 fun hspace => ?_
        rw [continuesNumber_of_isSpace hspace prev] at hc
        cases hc
      · exact ih c d hd
    · cases hd

namespace Piece

/-- If the piece is a closed token, its last character can be seen. -/
def EndsVisibly (p : Piece) : Prop :=
  ∀ k, p.content = .token k → k.closedBy p.text = true → ∀ c ∈ p.text.getLast?, isSpace c = false

variable {c : Char} {cs : List Char}

theorem endsVisibly_ofSymbol (front : List Char) {s : Symbol} (hc : isSpace c = false) :
    (ofSymbol (front ++ [c]) s).EndsVisibly := by
  intro _ _ _
  simpa [ofSymbol] using hc

/-- A literal that ends with the mark that it starts with. -/
theorem isSpace_getLast_mark (hc : isSpace c = false)
    (h : ((c :: cs).tail.getLast? == (c :: cs).head?) = true) :
    ∀ d ∈ (c :: cs).getLast?, isSpace d = false := by
  have hlast : cs.getLast? = some c := by simpa using h
  rw [List.getLast?_cons, hlast]
  simpa using hc

theorem endsVisibly_slash (cs : List Char) : (slash cs).EndsVisibly := by
  intro k hk hc
  unfold slash at hk hc ⊢
  split at hk
  · unfold lineComment at hk
    split at hk
    · dsimp only at hk
      split at hk
      · cases hk
        cases hc
      · cases hk
    · cases hk
  · unfold blockComment at hk
    dsimp only at hk
    repeat' split at hk
    all_goals cases hk
  · have hslash : isSpace '/' = false := by decide
    simpa [ofSymbol] using hslash

theorem endsVisibly_word (h : ∀ c ∈ cs, isIdentStart c = true ∨ isIdentRest c = true) :
    (word cs).EndsVisibly := by
  refine fun _ _ _ => isSpace_getLast_of_all (p := fun c => isIdentStart c || isIdentRest c)
    (fun c hc => ?_) fun c hc => ?_
  · rw [isIdentStart_of_isSpace hc, isIdentRest_of_isSpace hc]
    rfl
  · simpa using h c hc

theorem endsVisibly_wordOrNumber (hc : isSpace c = false) : (wordOrNumber c cs).EndsVisibly := by
  unfold wordOrNumber
  split
  · intro k _ _ d hd
    rcases List.mem_cons.1 (List.mem_of_getLast? hd) with rfl | hd
    · exact hc
    · exact numberRest_visible c cs d hd
  split
  · next hstart =>
    refine endsVisibly_word fun d hd => ?_
    rcases List.mem_cons.1 hd with rfl | hd
    · exact .inl hstart
    · exact .inr (List.all_eq_true.1 List.all_takeWhile d hd)
  · exact nofun

theorem endsVisibly_first (c : Char) (cs : List Char) : (first c cs).EndsVisibly := by
  unfold first
  split
  · exact nofun
  next hspace =>
  replace hspace : isSpace c = false := Bool.eq_false_iff.2 hspace
  split
  · rintro _ ⟨⟩ hclosed
    exact isSpace_getLast_mark hspace hclosed
  split
  · rintro _ ⟨⟩ hclosed
    exact isSpace_getLast_mark hspace hclosed
  split
  · exact endsVisibly_slash cs
  split
  · have hdot : isSpace '.' = false := by decide
    unfold dots
    split
    · exact endsVisibly_ofSymbol ['.', '.'] hdot
    · exact endsVisibly_ofSymbol ['.'] hdot
    · exact endsVisibly_ofSymbol [] hdot
  split
  · have harrow : isSpace '>' = false := by decide
    have heq : isSpace '=' = false := by decide
    unfold equals
    split
    · exact endsVisibly_ofSymbol ['='] harrow
    · exact endsVisibly_ofSymbol [] heq
  split
  · exact endsVisibly_ofSymbol [] hspace
  · exact endsVisibly_wordOrNumber hspace

end Piece

/-- A token that is closed ends with a character that can be seen. -/
theorem isSpace_getLast_of_mem {cs : List Char} {t : Token} (h : t ∈ (lexChars cs).tokens)
    (hc : t.kind.closedBy t.text = true) : ∀ c ∈ t.text.getLast?, isSpace c = false := by
  obtain ⟨p, hp, hk, ht⟩ := exists_piece_of_mem h
  obtain ⟨c, ds, rfl⟩ := exists_first_of_mem_pieces hp
  rw [← ht] at hc ⊢
  exact Piece.endsVisibly_first c ds _ hk hc

end Ambient
