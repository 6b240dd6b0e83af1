import Ambient.Proofs.Token.Documentation
import Ambient.Proofs.Token.Tiling

/-!
# References without white space at their end

White space at the end of a line does not matter to a reference in it (`reference?_append_blank`),
so that a comment with a reference is the same reference without it (`Piece.Stands.trimmed`).
-/

namespace Ambient

open Text (isSpace trimEnd trimStart trimEnd_cons trimEnd_cons_of_not_space trimEnd_isPrefix)

section

variable {bs : List Char} (hb : ∀ c ∈ bs, isSpace c = true)
include hb

/-- A pattern that ends visibly does not reach into white space at the end of a text. -/
theorem isPrefixOf_append_blank {pattern : List Char} {c : Char}
    (hp : pattern.getLast? = some c) (hc : isSpace c = false) (xs : List Char) :
    pattern.isPrefixOf (xs ++ bs) = pattern.isPrefixOf xs := by
  rw [Bool.eq_iff_iff, List.isPrefixOf_iff_prefix, List.isPrefixOf_iff_prefix]
  refine ⟨fun ⟨ys, hys⟩ => ?_, fun h => h.trans (List.prefix_append xs bs)⟩
  rcases List.append_eq_append_iff.1 hys with ⟨zs, rfl, -⟩ | ⟨zs, rfl, hzs⟩
  · exact List.prefix_append pattern zs
  · rcases List.eq_nil_or_concat zs with rfl | ⟨zs, d, rfl⟩
    · simp
    · rw [List.concat_eq_append, ← List.append_assoc, List.getLast?_concat] at hp
      cases hp
      rw [hb c (by simp [hzs])] at hc
      cases hc

/-- What stands behind the first occurrence of a pattern goes on as the text does. -/
theorem after?_append_blank {pattern : List Char} {c : Char} (hp : pattern.getLast? = some c)
    (hc : isSpace c = false) (xs : List Char) :
    after? pattern (xs ++ bs) = (after? pattern xs).map (· ++ bs) := by
  have hblank (ys : List Char) (hys : ys <:+ bs) : after? pattern ys = none := by
    induction ys with
    | nil => cases pattern <;> simp_all [after?]
    | cons y ys ih =>
      have hblank : ∀ d ∈ y :: ys, isSpace d = true := fun d hd => hb d (hys.mem hd)
      have hsub := isPrefixOf_append_blank hblank hp hc []
      have hnil : pattern.isPrefixOf [] = false := by cases pattern <;> simp_all
      rw [List.nil_append, hnil] at hsub
      rw [after?, hsub]
      exact ih ((List.suffix_cons y ys).trans hys)
  have hnil : after? pattern [] = none := by cases pattern <;> simp_all [after?]
  induction xs with
  | nil => rw [List.nil_append, hblank bs (List.suffix_refl bs), hnil]; rfl
  | cons x xs ih =>
    rw [List.cons_append, after?, after?, ← List.cons_append, isPrefixOf_append_blank hb hp hc]
    split
    · next h =>
      have hlength := (List.isPrefixOf_iff_prefix.1 h).length_le
      rw [List.drop_append_of_le_length hlength]
      rfl
    · exact ih

omit hb in
theorem takeWhile_append_of_mem {q : Char} {r : List Char} (h : q ∈ r) :
    (r ++ bs).takeWhile (· != q) = r.takeWhile (· != q) := by
  induction r with
  | nil => cases h
  | cons a r ih =>
    by_cases ha : a = q
    · simp [ha]
    · simp [ha, ih ((List.mem_cons.1 h).resolve_left (Ne.symm ha))]

theorem attributeValue?_append_blank (name : String) (xs : List Char) :
    attributeValue? name (xs ++ bs) = attributeValue? name xs := by
  have hquote : '"' ∉ bs := fun h => absurd (hb _ h) (by decide)
  have hlast : (name.toList ++ ['=', '"']).getLast? = some '"' := by simp
  unfold attributeValue?
  rw [after?_append_blank hb hlast (by decide)]
  cases after? (name.toList ++ ['=', '"']) xs with
  | none => rfl
  | some r =>
    show (if (r ++ bs).contains '"' = true then _ else _) = if r.contains '"' = true then _ else _
    rw [show (r ++ bs).contains '"' = r.contains '"' by simp [hquote]]
    split
    · next h => rw [takeWhile_append_of_mem (List.contains_iff_mem.1 h)]
    · rfl

/-- White space at the end of a line does not matter to a reference in it. -/
theorem reference?_append_blank (xs : List Char) : reference? (xs ++ bs) = reference? xs := by
  have hblank (p : Char → Bool) : trimStart (bs.dropWhile p) = [] := by
    rw [trimStart, List.dropWhile_eq_nil_iff]
    exact fun c hc => hb c (List.dropWhile_subset p hc)
  have hmark : "<reference".toList.isPrefixOf [] = false := rfl
  simp only [reference?, List.dropWhile_append]
  split
  · next hempty =>
    rw [List.isEmpty_iff.1 hempty, hblank, hmark]
    rfl
  -- the mark stands in the line or nowhere
  have hfront (ys : List Char) : "<reference".toList.isPrefixOf (trimStart (ys ++ bs)) =
      "<reference".toList.isPrefixOf (trimStart ys) := by
    rw [trimStart, List.dropWhile_append]
    split
    · next hempty =>
      rw [trimStart, List.isEmpty_iff.1 hempty, List.dropWhile_eq_nil_iff.2 hb]
    · exact isPrefixOf_append_blank hb (c := 'e') rfl (by decide) _
  simp only [hfront, attributeValue?_append_blank hb]

end

theorem Text.exists_trimEnd (cs : List Char) :
    ∃ bs, cs = trimEnd cs ++ bs ∧ ∀ c ∈ bs, isSpace c = true := by
  induction cs with
  | nil => exact ⟨[], rfl, by simp⟩
  | cons c cs ih =>
    obtain ⟨bs, hbs, hblank⟩ := ih
    by_cases hnil : trimEnd cs = []
    · rw [trimEnd, hnil]
      dsimp only
      split
      · next hc =>
        rw [hnil, List.nil_append] at hbs
        exact ⟨c :: cs, rfl, List.forall_mem_cons.2 ⟨hc, hbs ▸ hblank⟩⟩
      · rw [hnil, List.nil_append] at hbs
        exact ⟨cs, rfl, hbs ▸ hblank⟩
    · rw [trimEnd_cons hnil]
      exact ⟨bs, by rw [List.cons_append, ← hbs], hblank⟩

/-- A reference without the white space at its end is the same reference. -/
theorem Piece.Stands.trimmed {p : Piece} {next : List Char} {r : String} (h : p.Stands next)
    (hr : p.content = .token (.reference r)) :
    p.text.head? = some '/' ∧ (⟨trimEnd p.text, p.content⟩ : Piece).Stands [] := by
  obtain ⟨c, cs, htext, hfirst⟩ := h.alone
  rw [List.append_nil] at hfirst
  have hcontent : (first c cs).content = .token (.reference r) := by rw [hfirst, hr]
  obtain ⟨line, hline, hreference⟩ := eq_reference hcontent
  rw [hfirst] at hline
  obtain ⟨rfl, rfl⟩ : c = '/' ∧ cs = '/' :: '/' :: line := by simpa [htext] using hline
  have hslash : isSpace '/' = false := by decide
  -- no line feed stands in the line, and so none in what is left of it
  have hrest : lineRest line = line := by
    have hp : (lineComment ('/' :: line)).text = p.text := congrArg Piece.text hfirst
    simpa [lineComment, htext] using hp
  obtain ⟨bs, hbs, hblank⟩ := Text.exists_trimEnd line
  have hrest' : lineRest (trimEnd line) = trimEnd line := by
    rw [lineRest, List.takeWhile_eq_self_iff] at hrest ⊢
    exact fun d hd => hrest d ((trimEnd_isPrefix line).subset hd)
  have htrim : trimEnd p.text = '/' :: '/' :: '/' :: trimEnd line := by
    rw [htext, trimEnd_cons_of_not_space hslash, trimEnd_cons_of_not_space hslash,
      trimEnd_cons_of_not_space hslash]
  refine ⟨by rw [htext]; rfl, '/', '/' :: '/' :: trimEnd line, htrim, ?_⟩
  show lineComment ('/' :: (trimEnd line ++ [])) = _
  have htarget : reference? (trimEnd line) = some r := by
    rw [← reference?_append_blank hblank, ← hbs, hreference]
  rw [List.append_nil, lineComment, hrest', htarget, htrim, hr]

end Ambient
