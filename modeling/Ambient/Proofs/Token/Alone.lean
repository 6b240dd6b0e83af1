import Ambient.Proofs.Token.Names
import Ambient.Proofs.Token.Positions

/-!
# Tokens on their own

A word, a number or a closed template literal of a source is the same token where its text stands
alone (`Kind.alone_of_mem`).
-/

namespace Ambient

open Text (isSpace)

/-- Whether a template literal ends with its closing backtick, given what stands behind the opening
one. -/
def closesTemplate : List Char → Bool
  | [] => false
  | ['\\'] => false
  | '\\' :: _ :: cs => closesTemplate cs
  | c :: cs => if c = '\x60' then true else closesTemplate cs

theorem closesTemplate_cons {c : Char} (hc : c ≠ '\\') (cs : List Char) :
    closesTemplate (c :: cs) = if c = '\x60' then true else closesTemplate cs := by
  rw [closesTemplate]
  · exact fun e => absurd e hc
  · exact fun _ _ e => absurd e hc

/-- A token that is no template literal without an end. -/
def Token.Closed (t : Token) : Prop :=
  ∀ s, t.kind = .template s → closesTemplate t.text.tail = true

/-- A kind whose text is one token of this kind. -/
def Kind.Alone : Kind → Prop
  | .ident s => Ident s
  | .number s => Number s
  | .template s => Spelled s (.template s)
  | _ => True

theorem takeWhile_takeWhile_append {p : Char → Bool} {d : Char} (hd : p d = false)
    (cs : List Char) : (cs.takeWhile p ++ [d]).takeWhile p = cs.takeWhile p := by
  rw [List.takeWhile_append_of_pos fun c hc => List.all_eq_true.1 List.all_takeWhile c hc]
  simp [hd]

theorem numberRest_numberRest_append (prev : Char) (cs : List Char) :
    numberRest prev (numberRest prev cs ++ [' ']) = numberRest prev cs := by
  induction cs generalizing prev with
  | nil => simp [numberRest, continuesNumber]
  | cons c cs ih =>
    cases hc : continuesNumber prev c with
    | false => simp [numberRest, hc, continuesNumber_of_mem_delimiters (d := ' ') (by decide)]
    | true => simp [numberRest, hc, ih]

/-- A closed template literal ends where it ended before. -/
theorem templateRest_templateRest_append {cs : List Char} (next : List Char)
    (h : closesTemplate (templateRest cs) = true) :
    templateRest (templateRest cs ++ next) = templateRest cs := by
  induction cs using templateRest.induct with
  | case1 => simp [templateRest, closesTemplate] at h
  | case2 => simp [templateRest, closesTemplate] at h
  | case3 c cs ih =>
    simp only [templateRest, closesTemplate] at h
    simp only [templateRest, List.cons_append]
    rw [ih h]
  | case4 cs h₁ h₂ => simp [templateRest]
  | case5 c cs h₁ h₂ hc ih =>
    have hne : c ≠ '\\' := ne_backslash h₁ h₂
    rw [templateRest_cons hne, if_neg hc, closesTemplate_cons hne, if_neg hc] at h
    rw [templateRest_cons hne, if_neg hc, List.cons_append, templateRest_cons hne, if_neg hc, ih h]

/-- A symbol or a reference carries no text that it could be written with. -/
theorem Piece.alone_slash {cs : List Char} {k : Kind} (h : (slash cs).content = .token k) :
    k.Alone := by
  unfold slash at h
  split at h
  · unfold lineComment at h
    split at h
    · dsimp only at h
      split at h
      · cases h
        trivial
      · cases h
    · cases h
  · simp only [blockComment] at h
    split at h
    · split at h <;> cases h
    · cases h
  · cases h
    trivial

theorem Piece.alone_first {c : Char} {cs : List Char} {k : Kind}
    (h : (first c cs).content = .token k)
    (hclosed : ∀ s, k = .template s → closesTemplate (first c cs).text.tail = true) :
    k.Alone := by
  unfold first at h hclosed
  split at h
  · cases h
  rename_i h₀
  split at h
  · cases h
    trivial
  rename_i h₁
  split at h
  · rename_i h₂
    subst h₂
    cases h
    have hc : closesTemplate (templateRest cs) = true := hclosed _ rfl
    have hfirst (ds : List Char) : first '\x60' ds = ofKind ('\x60' :: templateRest ds)
        (.template (String.ofList ('\x60' :: templateRest ds))) := rfl
    refine ⟨'\x60', templateRest cs, String.toList_ofList, ?_⟩
    rw [hfirst, templateRest_templateRest_append _ hc, String.toList_ofList, ofKind]
  rename_i h₂
  split at h
  · exact alone_slash h
  rename_i h₃
  split at h
  · unfold dots at h
    split at h <;> (cases h; trivial)
  rename_i h₄
  split at h
  · unfold equals at h
    split at h <;> (cases h; trivial)
  rename_i h₅
  split at h
  · cases h
    trivial
  rename_i h₆
  have hfirst (ds : List Char) : first c ds = wordOrNumber c ds := by
    simp [first, h₀, h₁, h₂, h₃, h₄, h₅, h₆]
  unfold wordOrNumber at h
  split at h
  · rename_i hd
    cases h
    refine ⟨c, numberRest c cs, String.toList_ofList, ?_⟩
    rw [hfirst, wordOrNumber, if_pos hd, numberRest_numberRest_append, String.toList_ofList, ofKind]
  · rename_i hd
    split at h
    · rename_i hi
      have hword : wordOrNumber c (cs.takeWhile isIdentRest ++ [' ']) =
          word (c :: cs.takeWhile isIdentRest) := by
        rw [wordOrNumber, if_neg hd, if_pos hi, takeWhile_takeWhile_append (by decide)]
      unfold word ofKind at h
      simp only [Content.token.injEq] at h
      split at h
      · rw [← h]
        trivial
      · rename_i hname
        subst h
        refine ⟨c, cs.takeWhile isIdentRest, String.toList_ofList, ?_⟩
        rw [hfirst, hword, word, ofKind, hname, String.toList_ofList]
    · cases h

/-- **A token of a source is the same token on its own,** if it is no open template literal. -/
theorem Kind.alone_of_mem {cs : List Char} {t : Token} (h : t ∈ (lexChars cs).tokens)
    (hclosed : t.Closed) : t.kind.Alone := by
  obtain ⟨p, hp, hkind, htext⟩ := exists_piece_of_mem h
  obtain ⟨c, ds, rfl⟩ := exists_first_of_mem_pieces hp
  exact Piece.alone_first hkind fun s hs => htext ▸ hclosed s hs

end Ambient
