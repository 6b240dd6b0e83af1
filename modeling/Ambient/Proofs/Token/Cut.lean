import Ambient.Token.Lexer

/-!
# Cutting a text in two places

A piece looks at most one character past its end (`Piece.first_congr`), so whether a text can be
cut in front of another one depends on its last piece only. `Piece.Stands p next` says that `p` is
the first piece of its own text with `next` behind it, and `Cuts ps next` that this holds of each
piece of a list in turn. Pieces with that property are what the text is cut into
(`pieces_append`), and what any text is cut into has it (`cuts_pieces`).
-/

namespace Ambient

open Text (isSpace)

/-! ## One step of a scanner -/

/-- A character that starts no escape is no backslash. -/
theorem ne_backslash {c : Char} {cs : List Char} (h₁ : c = '\\' → cs = [] → False)
    (h₂ : ∀ d ds, c = '\\' → cs = d :: ds → False) : c ≠ '\\' := by
  cases cs with
  | nil => exact fun e => h₁ e rfl
  | cons d ds => exact fun e => h₂ d ds e rfl

theorem stringRest_cons {quote c : Char} (hc : c ≠ '\\') (cs : List Char) :
    stringRest quote (c :: cs) =
      if c = quote then ([c], []) else (c :: (stringRest quote cs).1, c :: (stringRest quote cs).2) := by
  rw [stringRest]
  · exact fun e => absurd e hc
  · exact fun _ _ e => absurd e hc

theorem templateRest_cons {c : Char} (hc : c ≠ '\\') (cs : List Char) :
    templateRest (c :: cs) = if c = '\x60' then [c] else c :: templateRest cs := by
  rw [templateRest]
  · exact fun e => absurd e hc
  · exact fun _ _ e => absurd e hc

/-! ## A scanner does not depend on what it does not reach -/

section Scanners

variable {n : Nat}

theorem take_succ_cons_eq {α : Type} {x : α} {xs ys : List α}
    (h : (x :: xs).take (n + 1) = ys.take (n + 1)) :
    ∃ zs, ys = x :: zs ∧ xs.take n = zs.take n := by
  cases ys with
  | nil => simp at h
  | cons y zs =>
    obtain ⟨rfl, hz⟩ : x = y ∧ xs.take n = zs.take n := by simpa using h
    exact ⟨zs, rfl, hz⟩

theorem eq_nil_of_take_eq {α : Type} {ys : List α}
    (h : ([] : List α).take (n + 1) = ys.take (n + 1)) : ys = [] := by
  cases ys with
  | nil => rfl
  | cons y zs => simp at h

theorem take_eq_of_le {α : Type} {m : Nat} {xs ys : List α} (hm : m ≤ n)
    (h : xs.take n = ys.take n) : xs.take m = ys.take m := by
  have := congrArg (List.take m) h
  rwa [List.take_take, List.take_take, Nat.min_eq_left hm] at this

theorem takeWhile_congr {α : Type} {p : α → Bool} {xs ys : List α}
    (h : xs.take ((xs.takeWhile p).length + 1) = ys.take ((xs.takeWhile p).length + 1)) :
    ys.takeWhile p = xs.takeWhile p := by
  induction xs generalizing ys with
  | nil => rw [eq_nil_of_take_eq h]
  | cons x xs ih =>
    cases hx : p x
    · obtain ⟨zs, rfl, -⟩ := take_succ_cons_eq h
      simp [hx]
    · rw [List.takeWhile_cons_of_pos hx] at h ⊢
      obtain ⟨zs, rfl, hz⟩ := take_succ_cons_eq h
      rw [List.takeWhile_cons_of_pos hx, ih hz]

theorem numberRest_congr {prev : Char} {xs ys : List Char}
    (h : xs.take ((numberRest prev xs).length + 1) = ys.take ((numberRest prev xs).length + 1)) :
    numberRest prev ys = numberRest prev xs := by
  induction xs generalizing prev ys with
  | nil => rw [eq_nil_of_take_eq h]
  | cons c xs ih =>
    cases hc : continuesNumber prev c
    · rw [numberRest, hc, if_neg Bool.false_ne_true] at h ⊢
      obtain ⟨zs, rfl, -⟩ := take_succ_cons_eq h
      rw [numberRest, hc, if_neg Bool.false_ne_true]
    · rw [numberRest, hc, if_pos rfl] at h ⊢
      obtain ⟨zs, rfl, hz⟩ := take_succ_cons_eq h
      rw [numberRest, hc, if_pos rfl, ih hz]

theorem stringRest_congr {quote : Char} {xs ys : List Char}
    (h : xs.take ((stringRest quote xs).1.length + 1) =
      ys.take ((stringRest quote xs).1.length + 1)) :
    stringRest quote ys = stringRest quote xs := by
  fun_induction stringRest quote xs generalizing ys with
  | case1 => rw [eq_nil_of_take_eq h, stringRest]
  | case2 =>
    obtain ⟨zs, rfl, hz⟩ := take_succ_cons_eq h
    rw [eq_nil_of_take_eq hz, stringRest]
  | case3 c xs r =>
    rename_i ih
    obtain ⟨zs, rfl, hz⟩ := take_succ_cons_eq h
    obtain ⟨ws, rfl, hw⟩ := take_succ_cons_eq hz
    simp only [stringRest, ih hw, r]
  | case4 xs h₁ h₂ =>
    obtain ⟨zs, rfl, -⟩ := take_succ_cons_eq h
    rw [stringRest_cons (ne_backslash h₁ h₂), if_pos rfl]
  | case5 c xs h₁ h₂ hc r =>
    rename_i ih
    obtain ⟨zs, rfl, hz⟩ := take_succ_cons_eq h
    rw [stringRest_cons (ne_backslash h₁ h₂), if_neg hc, ih hz]

theorem templateRest_congr {xs ys : List Char}
    (h : xs.take ((templateRest xs).length + 1) = ys.take ((templateRest xs).length + 1)) :
    templateRest ys = templateRest xs := by
  fun_induction templateRest xs generalizing ys with
  | case1 => rw [eq_nil_of_take_eq h, templateRest]
  | case2 =>
    obtain ⟨zs, rfl, hz⟩ := take_succ_cons_eq h
    rw [eq_nil_of_take_eq hz, templateRest]
  | case3 c xs ih =>
    obtain ⟨zs, rfl, hz⟩ := take_succ_cons_eq h
    obtain ⟨ws, rfl, hw⟩ := take_succ_cons_eq hz
    simp only [templateRest, ih hw]
  | case4 xs h₁ h₂ =>
    obtain ⟨zs, rfl, hz⟩ := take_succ_cons_eq h
    simp [templateRest]
  | case5 c xs h₁ h₂ hc ih =>
    obtain ⟨zs, rfl, hz⟩ := take_succ_cons_eq h
    rw [templateRest_cons (ne_backslash h₁ h₂), if_neg hc, ih hz]

theorem blockBody_congr {xs ys : List Char}
    (h : xs.take ((blockBody xs).1.length + 1 + if (blockBody xs).2 then 1 else 0) =
      ys.take ((blockBody xs).1.length + 1 + if (blockBody xs).2 then 1 else 0)) :
    blockBody ys = blockBody xs := by
  fun_induction blockBody xs generalizing ys with
  | case1 => rw [eq_nil_of_take_eq h, blockBody]
  | case2 xs =>
    obtain ⟨zs, rfl, hz⟩ := take_succ_cons_eq h
    obtain ⟨ws, rfl, -⟩ := take_succ_cons_eq hz
    rw [blockBody]
  | case3 c xs hc r =>
    rename_i ih
    rw [List.length_cons, Nat.add_right_comm _ 1] at h
    obtain ⟨zs, rfl, hz⟩ := take_succ_cons_eq h
    rw [blockBody, ih hz]
    intro e he hes
    rw [hes, Nat.add_right_comm] at hz
    obtain ⟨ws, rfl, -⟩ := take_succ_cons_eq hz.symm
    exact hc _ he rfl

end Scanners

namespace Piece

theorem lineComment_congr {xs ys : List Char}
    (h : xs.take ((lineComment xs).text.length - 1) = ys.take ((lineComment xs).text.length - 1)) :
    lineComment ys = lineComment xs := by
  have congr {p q : List Char} (k : p.take ((lineRest p).length + 1) =
      q.take ((lineRest p).length + 1)) : lineRest q = lineRest p := takeWhile_congr k
  unfold lineComment at h ⊢
  split at h
  · obtain ⟨zs, rfl, hz⟩ := take_succ_cons_eq h
    simp only [congr hz]
  · rename_i hx
    simp only [List.length_cons, Nat.add_sub_cancel] at h
    split
    · rename_i ys'
      obtain ⟨ws, rfl, -⟩ := take_succ_cons_eq h.symm
      exact absurd rfl (hx ws)
    · rw [congr h]

theorem length_text_blockComment (cs : List Char) :
    (blockComment cs).text.length =
      (blockBody cs).1.length + 2 + if (blockBody cs).2 then 2 else 0 := by
  cases h : (blockBody cs).2 <;> simp [blockComment, h]

theorem blockComment_congr {xs ys : List Char}
    (h : xs.take ((blockComment xs).text.length - 1) =
      ys.take ((blockComment xs).text.length - 1)) :
    blockComment ys = blockComment xs := by
  have hb : blockBody ys = blockBody xs := by
    refine blockBody_congr (take_eq_of_le ?_ h)
    rw [length_text_blockComment]
    cases (blockBody xs).2
    · exact Nat.le_refl _
    · rw [if_pos rfl, if_pos rfl]
      omega
  simp only [blockComment, hb]

theorem slash_congr {xs ys : List Char}
    (h : xs.take (slash xs).text.length = ys.take (slash xs).text.length) :
    slash ys = slash xs := by
  cases xs with
  | nil => rw [eq_nil_of_take_eq h]
  | cons c cs =>
    by_cases h₁ : c = '/'
    · subst h₁
      have hpos : 0 < (lineComment cs).text.length := by
        unfold lineComment
        split <;> simp
      rw [show slash ('/' :: cs) = lineComment cs from rfl] at h ⊢
      rw [← Nat.sub_add_cancel hpos] at h
      obtain ⟨ds, rfl, hd⟩ := take_succ_cons_eq h
      exact lineComment_congr hd
    by_cases h₂ : c = '*'
    · subst h₂
      have hpos : 0 < (blockComment cs).text.length := by
        rw [length_text_blockComment]
        omega
      rw [show slash ('*' :: cs) = blockComment cs from rfl] at h ⊢
      rw [← Nat.sub_add_cancel hpos] at h
      obtain ⟨ds, rfl, hd⟩ := take_succ_cons_eq h
      exact blockComment_congr hd
    have hs (ds : List Char) : slash (c :: ds) = ofSymbol ['/'] .slash := by
      simp [slash, h₁, h₂]
    rw [hs] at h ⊢
    obtain ⟨ds, rfl, -⟩ := take_succ_cons_eq h
    exact hs ds

theorem dots_congr {xs ys : List Char}
    (h : xs.take (dots xs).text.length = ys.take (dots xs).text.length) : dots ys = dots xs := by
  unfold dots at h ⊢
  split at h
  · obtain ⟨zs, rfl, hz⟩ := take_succ_cons_eq h
    obtain ⟨ws, rfl, -⟩ := take_succ_cons_eq hz
    rfl
  · rename_i xs' hx
    obtain ⟨zs, rfl, hz⟩ := take_succ_cons_eq h
    split
    · rename_i e
      obtain ⟨-, rfl⟩ := List.cons.inj e
      obtain ⟨ws, rfl, -⟩ := take_succ_cons_eq hz.symm
      exact absurd rfl (hx ws)
    · rfl
    · rename_i e
      exact absurd rfl (e zs)
  · rename_i h₁ h₂
    split
    · obtain ⟨ws, rfl, -⟩ := take_succ_cons_eq h.symm
      exact absurd rfl (h₂ ws)
    · obtain ⟨ws, rfl, -⟩ := take_succ_cons_eq h.symm
      exact absurd rfl (h₂ ws)
    · rfl

theorem equals_congr {xs ys : List Char}
    (h : xs.take (equals xs).text.length = ys.take (equals xs).text.length) :
    equals ys = equals xs := by
  unfold equals at h ⊢
  split at h
  · obtain ⟨zs, rfl, -⟩ := take_succ_cons_eq h
    rfl
  · rename_i hx
    split
    · obtain ⟨ws, rfl, -⟩ := take_succ_cons_eq h.symm
      exact absurd rfl (hx ws)
    · rfl

theorem wordOrNumber_congr {c : Char} {xs ys : List Char}
    (h : xs.take (wordOrNumber c xs).text.length = ys.take (wordOrNumber c xs).text.length) :
    wordOrNumber c ys = wordOrNumber c xs := by
  unfold wordOrNumber at h ⊢
  split at h
  · rename_i hc
    rw [if_pos hc, if_pos hc, numberRest_congr h]
  split at h
  · rename_i hc hd
    rw [if_neg hc, if_pos hd, if_neg hc, if_pos hd, takeWhile_congr h]
  · rename_i hc hd
    rw [if_neg hc, if_neg hd, if_neg hc, if_neg hd]

/-- **A piece looks one character past its end at most.** -/
theorem first_congr {c : Char} {xs ys : List Char}
    (h : xs.take (first c xs).text.length = ys.take (first c xs).text.length) :
    first c ys = first c xs := by
  unfold first at h ⊢
  split at h
  · rename_i h₀
    rw [if_pos h₀, if_pos h₀, takeWhile_congr h]
  rename_i h₀
  rw [if_neg h₀, if_neg h₀]
  split at h
  · rename_i h₁
    simp only [if_pos h₁]
    rw [stringRest_congr h]
  rename_i h₁
  rw [if_neg h₁, if_neg h₁]
  split at h
  · rename_i h₂
    simp only [if_pos h₂]
    rw [templateRest_congr h]
  rename_i h₂
  rw [if_neg h₂, if_neg h₂]
  split at h
  · rename_i h₃
    rw [if_pos h₃, if_pos h₃, slash_congr h]
  rename_i h₃
  rw [if_neg h₃, if_neg h₃]
  split at h
  · rename_i h₄
    rw [if_pos h₄, if_pos h₄, dots_congr h]
  rename_i h₄
  rw [if_neg h₄, if_neg h₄]
  split at h
  · rename_i h₅
    rw [if_pos h₅, if_pos h₅, equals_congr h]
  rename_i h₅
  rw [if_neg h₅, if_neg h₅]
  cases hs : Symbol.ofChar? c with
  | some s => rfl
  | none =>
    rw [hs] at h
    exact wordOrNumber_congr h

end Piece

/-! ## A piece in front of a text -/

theorem piecesAfter_eq_pieces_drop (n : Nat) (cs : List Char) :
    piecesAfter n cs = pieces (cs.drop n) := by
  induction cs generalizing n with
  | nil => cases n <;> rfl
  | cons c cs ih =>
    cases n with
    | zero => rfl
    | succ n => exact ih n

theorem pieces_cons (c : Char) (cs : List Char) :
    pieces (c :: cs) =
      Piece.first c cs :: pieces (cs.drop ((Piece.first c cs).text.length - 1)) := by
  rw [← piecesAfter_eq_pieces_drop]
  rfl

namespace Piece

/-- The piece is the first one of its own text with `next` behind it. -/
def Stands (p : Piece) (next : List Char) : Prop :=
  ∃ c cs, p.text = c :: cs ∧ first c (cs ++ next) = p

/-- Only one character behind a piece matters. -/
theorem Stands.congr {p : Piece} {next next' : List Char} (h : p.Stands next)
    (hn : next.take 1 = next'.take 1) : p.Stands next' := by
  obtain ⟨c, cs, ht, hf⟩ := h
  have he : first c (cs ++ next') = first c (cs ++ next) := by
    refine first_congr ?_
    rw [hf, ht, List.length_cons, List.take_append, List.take_append, Nat.add_sub_cancel_left, hn]
  exact ⟨c, cs, ht, he.trans hf⟩

theorem Stands.pieces_append {p : Piece} {next : List Char} (h : p.Stands next) :
    pieces (p.text ++ next) = p :: pieces next := by
  obtain ⟨c, cs, ht, hf⟩ := h
  rw [ht, List.cons_append, pieces_cons, hf, ht, List.length_cons, Nat.add_sub_cancel,
    List.drop_left]

end Piece

/-- The characters of some pieces. -/
def textOf (ps : List Piece) : List Char :=
  ps.flatMap (·.text)

@[simp] theorem textOf_nil : textOf [] = [] := rfl

@[simp] theorem textOf_cons (p : Piece) (ps : List Piece) :
    textOf (p :: ps) = p.text ++ textOf ps := rfl

@[simp] theorem textOf_append (ps qs : List Piece) :
    textOf (ps ++ qs) = textOf ps ++ textOf qs := List.flatMap_append

/-- Each piece is the first one of the text from it on, with `next` at the end. -/
def Cuts : List Piece → (next : List Char) → Prop
  | [], _ => True
  | p :: ps, next => p.Stands (textOf ps ++ next) ∧ Cuts ps next

theorem cuts_append {ps qs : List Piece} {next : List Char} :
    Cuts (ps ++ qs) next ↔ Cuts ps (textOf qs ++ next) ∧ Cuts qs next := by
  induction ps with
  | nil => simp [Cuts]
  | cons p ps ih => simp [Cuts, ih, and_assoc]

/-- **Pieces that stand where they do are what the text is cut into.** -/
theorem Cuts.pieces_append {ps : List Piece} {next : List Char} (h : Cuts ps next) :
    pieces (textOf ps ++ next) = ps ++ pieces next := by
  induction ps with
  | nil => rfl
  | cons p ps ih =>
    rw [textOf_cons, List.append_assoc, h.1.pieces_append, ih h.2, List.cons_append]

theorem cuts_piecesAfter (skip : Nat) (cs : List Char) : Cuts (piecesAfter skip cs) [] := by
  induction cs generalizing skip with
  | nil => cases skip <;> trivial
  | cons c cs ih =>
    cases skip with
    | succ n => exact ih n
    | zero =>
      refine ⟨?_, ih _⟩
      obtain ⟨r, hr⟩ := Piece.text_prefix c cs
      cases ht : (Piece.first c cs).text with
      | nil => exact absurd ht (Piece.text_ne_nil c cs)
      | cons d ds =>
        obtain ⟨rfl, rfl⟩ : d = c ∧ ds ++ r = cs := by simpa [ht] using hr
        refine ⟨d, ds, ht, ?_⟩
        rw [textOf, flatMap_text_piecesAfter, List.length_cons, Nat.add_sub_cancel,
          List.append_nil, List.drop_left]

/-- What a text is cut into stands where it does. -/
theorem cuts_pieces (cs : List Char) : Cuts (pieces cs) [] :=
  cuts_piecesAfter 0 cs

theorem Cuts.text_ne_nil {p : Piece} {ps : List Piece} {next : List Char}
    (h : Cuts (p :: ps) next) : textOf (p :: ps) ≠ [] := by
  obtain ⟨c, cs, ht, -⟩ := h.1
  simp [ht]

/-- What stands behind some pieces matters to the last of them only. -/
theorem Cuts.of_last {ps : List Piece} {next next' : List Char} (h : Cuts ps next)
    (hl : ∀ p ∈ ps.getLast?, p.Stands next') : Cuts ps next' := by
  induction ps with
  | nil => trivial
  | cons p ps ih =>
    cases ps with
    | nil => exact ⟨hl p rfl, trivial⟩
    | cons q ps =>
      refine ⟨h.1.congr ?_, ih h.2 (by simpa using hl)⟩
      obtain ⟨c, cs, hc⟩ := List.exists_cons_of_ne_nil h.2.text_ne_nil
      simp [hc]

end Ambient
