import Ambient.Proofs.Token.Documentation
import Ambient.Proofs.Tree.Like
import Ambient.Text.LineEnding

/-!
# Two styles of line endings

A text whose lines end with a line feed can be written with a carriage return before each of them
(`crlf`). What is done to the edges and lines of a text does the same in both styles
(`trim_crlf`, `cleanDoc_crlf`). `SameEndings` relates texts that cannot be told apart, whatever
stands around them, once all line endings are written in one way; a text is so related to itself in
the other style, unless it starts with a line feed (`sameEndings_crlf`).
-/

namespace Ambient

namespace Text

/-! ## Carriage returns -/

/-- A text with a carriage return before each line feed. -/
def crlf (cs : List Char) : List Char :=
  cs.flatMap fun c => if c = '\n' then ['\r', '\n'] else [c]

/-- A text without its carriage returns. -/
def dropReturns (cs : List Char) : List Char :=
  cs.filter (· != '\r')

variable {c : Char} {cs ds : List Char}

@[simp] theorem crlf_nil : crlf [] = [] := rfl

theorem crlf_newline (cs : List Char) : crlf ('\n' :: cs) = '\r' :: '\n' :: crlf cs := rfl

theorem crlf_cons (hc : c ≠ '\n') (cs : List Char) : crlf (c :: cs) = c :: crlf cs := by
  rw [crlf, List.flatMap_cons, if_neg hc]
  rfl

@[simp] theorem crlf_append (cs ds : List Char) : crlf (cs ++ ds) = crlf cs ++ crlf ds :=
  List.flatMap_append

theorem crlf_eq_nil : crlf cs = [] ↔ cs = [] := by
  cases cs with
  | nil => simp
  | cons c cs =>
    by_cases hc : c = '\n'
    · rw [hc, crlf_newline]
      simp
    · rw [crlf_cons hc]
      simp

@[simp] theorem dropReturns_nil : dropReturns [] = [] := rfl

@[simp] theorem dropReturns_append (cs ds : List Char) :
    dropReturns (cs ++ ds) = dropReturns cs ++ dropReturns ds :=
  List.filter_append ..

@[simp] theorem dropReturns_return (cs : List Char) : dropReturns ('\r' :: cs) = dropReturns cs :=
  rfl

theorem dropReturns_cons (hc : c ≠ '\r') (cs : List Char) :
    dropReturns (c :: cs) = c :: dropReturns cs := by
  simp [dropReturns, hc]

theorem dropReturns_eq_self (h : '\r' ∉ cs) : dropReturns cs = cs := by
  rw [dropReturns, List.filter_eq_self]
  intro c hc
  have hne : c ≠ '\r' := fun e => h (e ▸ hc)
  simpa using hne

theorem dropReturns_crlf (h : '\r' ∉ cs) : dropReturns (crlf cs) = cs := by
  induction cs with
  | nil => rfl
  | cons c cs ih =>
    simp only [List.mem_cons, not_or] at h
    by_cases hc : c = '\n'
    · rw [hc, crlf_newline, dropReturns_return, dropReturns_cons (by decide), ih h.2]
    · rw [crlf_cons hc, dropReturns_cons (fun e => h.1 e.symm), ih h.2]

/-- A text in the other style that is cut in two between characters of the first style, or else
between a carriage return and its line feed. -/
theorem crlf_cut {as bs : List Char} (hr : '\r' ∉ cs ++ ds) (h : as ++ bs = crlf (cs ++ ds))
    (has : dropReturns as = cs) :
    (as = crlf cs ∧ bs = crlf ds) ∨
      ∃ es, ds = '\n' :: es ∧ as = crlf cs ++ ['\r'] ∧ bs = '\n' :: crlf es := by
  induction cs generalizing as with
  | nil =>
    cases as with
    | nil => exact .inl ⟨rfl, h⟩
    | cons a as =>
      -- only carriage returns were dropped, and the text starts with one
      have ha : a = '\r' := by
        by_contra ha
        rw [dropReturns_cons ha] at has
        cases has
      subst ha
      cases ds with
      | nil => cases h
      | cons d ds =>
        have hd : d = '\n' := by
          by_contra hd
          rw [List.nil_append, crlf_cons hd] at h
          obtain ⟨rfl, -⟩ := List.cons.inj h
          exact hr List.mem_cons_self
        subst hd
        rw [List.nil_append, crlf_newline] at h
        obtain ⟨-, h⟩ := List.cons.inj h
        cases as with
        | nil => exact .inr ⟨ds, rfl, rfl, h⟩
        | cons a as =>
          obtain ⟨rfl, -⟩ := List.cons.inj h
          cases has
  | cons c cs ih =>
    have hr' : '\r' ∉ cs ++ ds := fun he => hr (List.mem_cons_of_mem c he)
    cases as with
    | nil => cases has
    | cons a as =>
      have h : a :: (as ++ bs) = crlf (c :: (cs ++ ds)) := h
      by_cases hc : c = '\n'
      · subst hc
        rw [crlf_newline] at h
        obtain ⟨ha, htail⟩ := List.cons.inj h
        rw [ha, dropReturns_return] at has
        cases as with
        | nil => cases has
        | cons a' as =>
          obtain ⟨ha', htail⟩ := List.cons.inj htail
          rw [ha', dropReturns_cons (by decide)] at has
          obtain ⟨-, has⟩ := List.cons.inj has
          rw [ha, ha', crlf_newline]
          rcases ih hr' htail has with ⟨rfl, rfl⟩ | ⟨es, rfl, rfl, rfl⟩
          · exact .inl ⟨rfl, rfl⟩
          · exact .inr ⟨es, rfl, rfl, rfl⟩
      · rw [crlf_cons hc] at h
        obtain ⟨ha, htail⟩ := List.cons.inj h
        have hc' : c ≠ '\r' := fun e => hr (e ▸ List.mem_cons_self)
        rw [ha, dropReturns_cons hc'] at has
        obtain ⟨-, has⟩ := List.cons.inj has
        rw [ha, crlf_cons hc]
        rcases ih hr' htail has with ⟨rfl, rfl⟩ | ⟨es, rfl, rfl, rfl⟩
        · exact .inl ⟨rfl, rfl⟩
        · exact .inr ⟨es, rfl, rfl, rfl⟩

/-! ## Edges and lines -/

/-- Characters up to one that is no line ending. -/
theorem takeWhile_crlf {p : Char → Bool} (hn : p '\n' = true) (hr : p '\r' = true)
    (cs : List Char) : (crlf cs).takeWhile p = crlf (cs.takeWhile p) := by
  induction cs with
  | nil => rfl
  | cons c cs ih =>
    by_cases hc : c = '\n'
    · subst hc
      simp [crlf_newline, hn, hr, ih]
    · rw [crlf_cons hc]
      cases hp : p c
      · simp [hp]
      · simp [hp, ih, crlf_cons hc]

/-- Characters up to a line ending at the latest. -/
theorem takeWhile_crlf_of_stop {p : Char → Bool} (hn : p '\n' = false) (hr : p '\r' = false)
    (cs : List Char) : (crlf cs).takeWhile p = cs.takeWhile p := by
  induction cs with
  | nil => rfl
  | cons c cs ih =>
    by_cases hc : c = '\n'
    · subst hc
      simp [crlf_newline, hn, hr]
    · rw [crlf_cons hc]
      cases hp : p c
      · simp [hp]
      · simp [hp, ih]

theorem trimStart_crlf (cs : List Char) : trimStart (crlf cs) = crlf (trimStart cs) := by
  have hn : isSpace '\n' = true := by decide
  have hr : isSpace '\r' = true := by decide
  induction cs with
  | nil => rfl
  | cons c cs ih =>
    rw [trimStart] at ih ⊢
    by_cases hc : c = '\n'
    · subst hc
      simp only [crlf_newline, List.dropWhile_cons, hn, hr, if_true]
      exact ih
    · rw [crlf_cons hc, trimStart, List.dropWhile_cons, List.dropWhile_cons]
      split
      · exact ih
      · rw [crlf_cons hc]

theorem trimEnd_crlf (cs : List Char) : trimEnd (crlf cs) = crlf (trimEnd cs) := by
  have hn : isSpace '\n' = true := by decide
  have hr : isSpace '\r' = true := by decide
  induction cs with
  | nil => rfl
  | cons c cs ih =>
    by_cases he : trimEnd cs = []
    · -- only the first character can be left
      rw [he, crlf_nil] at ih
      by_cases hc : c = '\n'
      · subst hc
        rw [crlf_newline, trimEnd, trimEnd, ih]
        simp [trimEnd, he, hn, hr]
      · have hself : crlf [c] = [c] := crlf_cons hc []
        rw [crlf_cons hc, trimEnd, trimEnd, ih, he]
        cases isSpace c
        · exact hself.symm
        · rfl
    · have hne : trimEnd (crlf cs) ≠ [] := by
        rw [ih]
        exact mt crlf_eq_nil.1 he
      rw [trimEnd_cons he]
      by_cases hc : c = '\n'
      · subst hc
        have hne' : trimEnd ('\n' :: crlf cs) ≠ [] := by
          rw [trimEnd_cons hne]
          exact List.cons_ne_nil _ _
        rw [crlf_newline, trimEnd_cons hne', trimEnd_cons hne, ih, crlf_newline]
      · rw [crlf_cons hc, trimEnd_cons hne, ih, crlf_cons hc]

theorem trim_crlf (cs : List Char) : trim (crlf cs) = crlf (trim cs) := by
  rw [trim, trimStart_crlf, trimEnd_crlf, trim]

theorem lines_crlf (h : '\r' ∉ cs) : lines (crlf cs) = lines cs := by
  induction cs with
  | nil => rfl
  | cons c cs ih =>
    simp only [List.mem_cons, not_or] at h
    have hr : c ≠ '\r' := fun e => h.1 e.symm
    by_cases hc : c = '\n'
    · subst hc
      rw [crlf_newline, lines, lines, ih h.2]
    · rw [crlf_cons hc, lines_cons hc (fun e => absurd e hr), lines_cons hc (fun e => absurd e hr),
        ih h.2]

/-- The text of a documentation comment is the same in both styles. -/
theorem cleanDoc_crlf (h : '\r' ∉ cs) : cleanDoc (crlf cs) = cleanDoc cs := by
  rw [cleanDoc, lines_crlf h]
  rfl

end Text

/-! ## Texts with the same line endings -/

open Text.LineEnding (normalizeChars)

/-- Texts that cannot be told apart, whatever stands around them, once all line endings are written
in one way. -/
def SameEndings (s t : String) : Prop :=
  ∀ before after, normalizeChars (before ++ s.toList ++ after) =
    normalizeChars (before ++ t.toList ++ after)

theorem joins_sameEndings : Joins SameEndings where
  refl _ _ _ := rfl
  append {a a' b b'} ha hb := by
    intro before after
    have ha := ha before (b.toList ++ after)
    have hb := hb (before ++ a'.toList) after
    simp only [String.toList_append, List.append_assoc] at ha hb ⊢
    rw [ha, hb]

theorem normalizeChars_return (cs : List Char) :
    normalizeChars ('\r' :: cs) = '\r' :: '\n' :: normalizeChars (Text.dropFront '\n' cs) := by
  cases cs with
  | nil => rfl
  | cons c cs =>
    by_cases hc : c = '\n'
    · subst hc
      rfl
    · rw [Text.dropFront, if_neg hc, normalizeChars]
      rintro ds ⟨⟩
      exact hc rfl

theorem normalizeChars_cons {c : Char} (hc : c ≠ '\r') (cs : List Char) :
    normalizeChars (c :: cs) = Text.crlf [c] ++ normalizeChars cs := by
  by_cases hn : c = '\n'
  · subst hn
    rfl
  · have hself : normalizeChars (c :: cs) = c :: normalizeChars cs := by
      rw [normalizeChars]
      · exact fun _ h _ => hc h
      · exact hc
      · exact hn
    rw [hself, Text.crlf_cons hn]
    rfl

theorem dropFront_of_head {c : Char} {cs : List Char} (h : cs.head? ≠ some c) :
    Text.dropFront c cs = cs := by
  cases cs with
  | nil => rfl
  | cons d cs =>
    rw [Text.dropFront, if_neg]
    simpa using h

theorem normalizeChars_dropFront_congr {as bs : List Char}
    (h : normalizeChars as = normalizeChars bs)
    (hn : as.head? = some '\n' ↔ bs.head? = some '\n') :
    normalizeChars (Text.dropFront '\n' as) = normalizeChars (Text.dropFront '\n' bs) := by
  by_cases ha : as.head? = some '\n'
  · obtain ⟨as', rfl⟩ := List.head?_eq_some_iff.1 ha
    obtain ⟨bs', rfl⟩ := List.head?_eq_some_iff.1 (hn.1 ha)
    rw [normalizeChars_cons (by decide), normalizeChars_cons (by decide)] at h
    exact List.append_cancel_left h
  · rw [dropFront_of_head ha, dropFront_of_head (mt hn.2 ha), h]

/-- What stands in front of two texts makes no difference if both start with a line feed or
neither. -/
theorem normalizeChars_append_congr {as bs : List Char} (h : normalizeChars as = normalizeChars bs)
    (hn : as.head? = some '\n' ↔ bs.head? = some '\n') (before : List Char) :
    normalizeChars (before ++ as) = normalizeChars (before ++ bs) := by
  induction hlen : before.length using Nat.strongRecOn generalizing before with
  | ind n ih =>
    subst hlen
    cases before with
    | nil => exact h
    | cons c cs =>
      have hcs := ih cs.length (Nat.lt_succ_self _) cs rfl
      rw [List.cons_append, List.cons_append]
      by_cases hr : c = '\r'
      · -- a carriage return takes in a line feed behind it
        subst hr
        rw [normalizeChars_return, normalizeChars_return]
        cases cs with
        | nil =>
          have hdrop := normalizeChars_dropFront_congr h hn
          rw [List.nil_append, List.nil_append, hdrop]
        | cons d ds =>
          by_cases hd : d = '\n'
          · simp only [List.cons_append, Text.dropFront, if_pos hd]
            rw [ih ds.length (by simp only [List.length_cons]; omega) ds rfl]
          · simp only [List.cons_append, Text.dropFront, if_neg hd]
            rw [← List.cons_append, hcs, List.cons_append]
      · rw [normalizeChars_cons hr, normalizeChars_cons hr, hcs]

theorem normalizeChars_crlf {cs : List Char} (hr : '\r' ∉ cs) (after : List Char) :
    normalizeChars (Text.crlf cs ++ after) = normalizeChars (cs ++ after) := by
  induction cs with
  | nil => rfl
  | cons c cs ih =>
    simp only [List.mem_cons, not_or] at hr
    have hc : c ≠ '\r' := fun e => hr.1 e.symm
    by_cases hn : c = '\n'
    · subst hn
      rw [Text.crlf_newline, List.cons_append, List.cons_append, normalizeChars_return,
        Text.dropFront, if_pos rfl, ih hr.2, List.cons_append, normalizeChars_cons hc]
      rfl
    · rw [Text.crlf_cons hn, List.cons_append, List.cons_append, normalizeChars_cons hc,
        normalizeChars_cons hc, ih hr.2]

/-- A text that starts with no line feed cannot be told apart from itself in the other style. -/
theorem sameEndings_crlf {cs : List Char} (hr : '\r' ∉ cs) (hn : cs.head? ≠ some '\n') :
    SameEndings (String.ofList cs) (String.ofList (Text.crlf cs)) := by
  intro before after
  rw [String.toList_ofList, String.toList_ofList, List.append_assoc, List.append_assoc]
  refine normalizeChars_append_congr (normalizeChars_crlf hr after).symm ?_ before
  cases cs with
  | nil => rfl
  | cons c cs =>
    have hc : c ≠ '\n' := by simpa using hn
    rw [Text.crlf_cons hc]
    rfl

/-- Texts that cannot be told apart are the same once their line endings are written in one
way. -/
theorem SameEndings.normalize_eq {s t : String} (h : SameEndings s t) :
    Text.LineEnding.normalize s = Text.LineEnding.normalize t := by
  have h := h [] []
  rw [List.nil_append, List.nil_append, List.append_nil, List.append_nil] at h
  rw [← String.toList_inj, Text.LineEnding.toList_normalize, Text.LineEnding.toList_normalize, h]

end Ambient
