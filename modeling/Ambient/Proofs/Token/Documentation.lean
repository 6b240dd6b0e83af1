import Ambient.Proofs.Token.Spelling
import Ambient.Tree.TyPrinter

/-!
# Documentation comments that are read back

A documentation comment is printed with a gutter and read without it. `LegibleDoc` says which texts
survive this, and `rereadDoc` what is read: a text of one line loses the white space at its ends.
The main result is `Spells.documented`.
-/

namespace Ambient

namespace Text

/-! ## White space at the ends of a text -/

theorem trimEnd_cons {c : Char} {cs : List Char} (h : trimEnd cs ≠ []) :
    trimEnd (c :: cs) = c :: trimEnd cs := by
  rw [trimEnd]
  split
  · rename_i he
    exact absurd he h
  · rfl

theorem trimEnd_append_blank {cs bs : List Char} (h : ∀ c ∈ bs, isSpace c = true) :
    trimEnd (cs ++ bs) = trimEnd cs := by
  have blank : trimEnd bs = [] := by
    induction bs with
    | nil => rfl
    | cons b bs ih =>
      rw [trimEnd, ih fun c hc => h c (List.mem_cons_of_mem b hc), if_pos (h b List.mem_cons_self)]
  induction cs with
  | nil => exact blank
  | cons c cs ih => rw [List.cons_append, trimEnd, trimEnd, ih]

theorem trimEnd_isPrefix (cs : List Char) : trimEnd cs <+: cs := by
  induction cs with
  | nil => exact List.prefix_refl _
  | cons c cs ih =>
    rw [trimEnd]
    split
    · split
      · exact List.nil_prefix
      · simp
    · simpa using ih

theorem trimEnd_trimEnd (cs : List Char) : trimEnd (trimEnd cs) = trimEnd cs := by
  induction cs with
  | nil => rfl
  | cons c cs ih =>
    rw [trimEnd]
    split
    · split
      · rfl
      · rename_i h
        simp [trimEnd, h]
    · rename_i h
      rw [trimEnd_cons (by rw [ih]; exact h), ih]

theorem trimStart_cons {c : Char} {cs : List Char} (h : isSpace c = false) :
    trimStart (c :: cs) = c :: cs := by
  simp [trimStart, h]

theorem trimStart_append_blank {bs cs : List Char} (h : ∀ c ∈ bs, isSpace c = true) :
    trimStart (bs ++ cs) = trimStart cs :=
  List.dropWhile_append_of_pos h

theorem trimEnd_cons_of_not_space {c : Char} {cs : List Char} (h : isSpace c = false) :
    trimEnd (c :: cs) = c :: trimEnd cs := by
  rw [trimEnd]
  split
  · rename_i he
    rw [h, if_neg Bool.false_ne_true, he]
  · rfl

theorem trimEnd_of_cons {c : Char} {cs : List Char} (h : trimEnd (c :: cs) = c :: cs) :
    trimEnd cs = cs := by
  rw [trimEnd] at h
  split at h
  · split at h
    · cases h
    · obtain rfl := (List.cons.inj h).2
      rfl
  · exact (List.cons.inj h).2

theorem trimEnd_dropFront (c : Char) {cs : List Char} (h : trimEnd cs = cs) :
    trimEnd (dropFront c cs) = dropFront c cs := by
  cases cs with
  | nil => rfl
  | cons d cs =>
    rw [dropFront]
    split
    · exact trimEnd_of_cons h
    · exact h

/-- What is left without white space at both ends has none there. -/
theorem trim_cases (cs : List Char) :
    trim cs = [] ∨ ∃ c r, trim cs = c :: r ∧ isSpace c = false ∧ trimEnd (c :: r) = c :: r := by
  induction cs with
  | nil => exact .inl rfl
  | cons c cs ih =>
    cases hc : isSpace c
    · refine .inr ⟨c, trimEnd cs, ?_, hc, ?_⟩
      · rw [trim, trimStart_cons hc, trimEnd_cons_of_not_space hc]
      · rw [trimEnd_cons_of_not_space hc, trimEnd_trimEnd]
    · rwa [show trim (c :: cs) = trim cs by simp [trim, trimStart, hc]]

theorem trim_isInfix (cs : List Char) : trim cs <:+: cs :=
  (trimEnd_isPrefix _).isInfix.trans (List.dropWhile_suffix isSpace).isInfix

/-! ## Lines -/

theorem not_mem_of_mem_lines {cs l : List Char} (h : l ∈ lines cs) : '\n' ∉ l := by
  fun_induction lines cs generalizing l with
  | case1 => simp at h
  | case2 cs ih =>
    rcases List.mem_cons.1 h with rfl | h
    · simp
    · exact ih h
  | case3 cs ih =>
    rcases List.mem_cons.1 h with rfl | h
    · simp
    · exact ih h
  | case4 c cs h₁ h₂ hl ih =>
    obtain rfl := List.mem_singleton.1 h
    simpa using fun e => h₁ e.symm
  | case5 c cs h₁ h₂ l' ls hl ih =>
    rcases List.mem_cons.1 h with rfl | h
    · simp only [List.mem_cons, not_or]
      exact ⟨fun e => h₁ e.symm, ih (by rw [hl]; exact List.mem_cons_self)⟩
    · exact ih (by rw [hl]; exact List.mem_cons_of_mem _ h)

theorem lines_cons {c : Char} {cs : List Char} (hc : c ≠ '\n')
    (hr : c = '\r' → cs.head? ≠ some '\n') :
    lines (c :: cs) = (c :: (lines cs).headD []) :: (lines cs).tail := by
  rw [lines]
  · cases lines cs <;> rfl
  · exact hc
  · rintro ds rfl rfl
    exact hr rfl rfl

/-- A line of its own in front of others. -/
theorem lines_append_newline {a : List Char} (b : List Char) (ha : '\n' ∉ a)
    (hr : a.getLast? ≠ some '\r') : lines (a ++ '\n' :: b) = a :: lines b := by
  induction a with
  | nil => rfl
  | cons c a ih =>
    simp only [List.mem_cons, not_or] at ha
    have hl : lines (a ++ '\n' :: b) = a :: lines b := by
      refine ih ha.2 fun h => hr ?_
      cases a with
      | nil => simp at h
      | cons d a => simpa using h
    rw [List.cons_append, lines_cons (fun e => ha.1 e.symm), hl]
    · rfl
    · rintro rfl
      cases a with
      | nil => simp at hr
      | cons d a => simpa using fun e => ha.2 (by simp [e])

theorem lines_of_not_mem {a : List Char} (ha : '\n' ∉ a) (hn : a ≠ []) : lines a = [a] := by
  induction a with
  | nil => exact absurd rfl hn
  | cons c a ih =>
    simp only [List.mem_cons, not_or] at ha
    rw [lines_cons (fun e => ha.1 e.symm)]
    · cases a with
      | nil => rfl
      | cons d a => rw [ih ha.2 (by simp)]; rfl
    · rintro -
      cases a with
      | nil => simp
      | cons d a => simpa using fun e => ha.2 (by simp [e])

/-! ## Lines of a comment without their gutter -/

theorem docLine_star {bs l : List Char} (hb : ∀ c ∈ bs, isSpace c = true) (hl : trimEnd l = l) :
    docLine (bs ++ '*' :: ' ' :: l) = l := by
  rw [docLine, trim, trimStart_append_blank hb, trimStart_cons (by decide),
    trimEnd_cons_of_not_space (by decide)]
  cases l with
  | nil => rfl
  | cons c l => rw [trimEnd_cons (by rw [hl]; simp), hl]; exact hl

theorem docLine_blank {bs : List Char} (hb : ∀ c ∈ bs, isSpace c = true) : docLine bs = [] := by
  have : trim bs = [] := by
    rw [trim, ← List.append_nil bs, trimStart_append_blank hb]
    rfl
  rw [docLine, this]
  rfl

theorem dropBlankEnd_append_nil (ls : List (List Char)) :
    dropBlankEnd (ls ++ [[]]) = dropBlankEnd ls := by
  induction ls with
  | nil => rfl
  | cons l ls ih => rw [List.cons_append, dropBlankEnd, dropBlankEnd, ih]

theorem dropBlankEnd_of_last {ls : List (List Char)} (h : ∀ l ∈ ls.getLast?, l ≠ []) :
    dropBlankEnd ls = ls := by
  induction ls with
  | nil => rfl
  | cons l ls ih =>
    rw [dropBlankEnd]
    cases ls with
    | nil => simpa [dropBlankEnd] using h l rfl
    | cons m ls => rw [ih (by simpa using h)]

theorem eq_nil_of_lines_eq_nil {cs : List Char} (h : lines cs = []) : cs = [] := by
  unfold lines at h
  split at h
  · rfl
  · simp at h
  · simp at h
  · split at h <;> simp at h

/-- A text of one line is the line, perhaps with a line end. -/
theorem eq_of_lines_eq {cs l : List Char} (h : lines cs = [l]) :
    ∃ bs, cs = l ++ bs ∧ ∀ c ∈ bs, isSpace c = true := by
  fun_induction lines cs generalizing l with
  | case1 => simp at h
  | case2 cs =>
    obtain ⟨rfl, hc⟩ := List.cons.inj h
    obtain rfl := eq_nil_of_lines_eq_nil hc
    exact ⟨['\n'], rfl, List.forall_mem_singleton.2 rfl⟩
  | case3 cs =>
    obtain ⟨rfl, hc⟩ := List.cons.inj h
    obtain rfl := eq_nil_of_lines_eq_nil hc
    exact ⟨['\r', '\n'], rfl, List.forall_mem_cons.2 ⟨rfl, List.forall_mem_singleton.2 rfl⟩⟩
  | case4 c cs h₁ h₂ hl =>
    obtain rfl := eq_nil_of_lines_eq_nil hl
    obtain ⟨rfl, -⟩ := List.cons.inj h
    exact ⟨[], rfl, by simp⟩
  | case5 c cs h₁ h₂ l' ls hl ih =>
    obtain ⟨rfl, rfl⟩ := List.cons.inj h
    obtain ⟨bs, rfl, hb⟩ := ih hl
    exact ⟨bs, rfl, hb⟩

theorem trim_append_blank {cs bs : List Char} (h : ∀ c ∈ bs, isSpace c = true) :
    trim (cs ++ bs) = trim cs := by
  induction cs with
  | nil =>
    have := @trimStart_append_blank bs [] h
    rw [List.append_nil] at this
    rw [List.nil_append, trim, this]
    rfl
  | cons c cs ih =>
    cases hc : isSpace c
    · rw [trim, trim, List.cons_append, trimStart_cons hc, trimStart_cons hc, ← List.cons_append,
        trimEnd_append_blank h]
    · rw [List.cons_append, show trim (c :: (cs ++ bs)) = trim (cs ++ bs) by simp [trim, trimStart, hc],
        ih, show trim (c :: cs) = trim cs by simp [trim, trimStart, hc]]

theorem trim_trim (cs : List Char) : trim (trim cs) = trim cs := by
  rcases trim_cases cs with h | ⟨c, r, h, hc, hr⟩
  · rw [h]
    rfl
  · rw [h, trim, trimStart_cons hc, hr]

/-- The white space at the ends of a text of one line includes its line end. -/
theorem not_mem_trim {cs : List Char} (h : (lines cs).length ≤ 1) : '\n' ∉ trim cs := by
  cases hl : lines cs with
  | nil =>
    rw [eq_nil_of_lines_eq_nil hl]
    decide
  | cons l ls =>
    obtain rfl : ls = [] := by
      rw [hl] at h
      simpa using h
    obtain ⟨bs, rfl, hb⟩ := eq_of_lines_eq hl
    rw [trim_append_blank hb]
    exact fun hm => not_mem_of_mem_lines (by rw [hl]; exact List.mem_singleton_self l)
      ((trim_isInfix l).mem hm)

theorem length_lines_le {cs : List Char} (h : '\n' ∉ cs) : (lines cs).length ≤ 1 := by
  cases cs with
  | nil => simp [lines]
  | cons c cs => simp [lines_of_not_mem h]

/-- A text between two blanks loses one star, and one blank behind it. -/
theorem cleanDoc_between {cs : List Char} (hn : '\n' ∉ cs) (ht : trim cs = cs) :
    cleanDoc (' ' :: (cs ++ [' '])) = dropFront ' ' (dropFront '*' cs) := by
  have hend : trimEnd cs = cs := by
    rw [← ht, trim, trimEnd_trimEnd]
  have htrim : trim (' ' :: (cs ++ [' '])) = cs := by
    have hblank : trim (' ' :: (cs ++ [' '])) = trim (cs ++ [' ']) := by
      rw [trim, trim, trimStart, List.dropWhile_cons_of_pos (by decide), ← trimStart]
    rw [hblank, trim_append_blank (List.forall_mem_singleton.2 rfl), ht]
  have hline : docLine (' ' :: (cs ++ [' '])) = dropFront ' ' (dropFront '*' cs) := by
    rw [docLine, htrim, trimEnd_dropFront _ (trimEnd_dropFront _ hend)]
  rw [cleanDoc, lines_of_not_mem (by simpa using hn) (by simp), List.map_singleton, hline]
  cases dropFront ' ' (dropFront '*' cs) <;> rfl

end Text

open Text

/-! ## Block comments -/

/-- Whether the closing mark of a comment stands in a text. -/
def closesComment : List Char → Bool
  | [] => false
  | '*' :: '/' :: _ => true
  | _ :: cs => closesComment cs

theorem closesComment_cons {c : Char} {cs : List Char} (h : closesComment cs = false)
    (hc : c = '*' → cs.head? ≠ some '/') : closesComment (c :: cs) = false := by
  rw [closesComment]
  · exact h
  · rintro ds rfl rfl
    exact hc rfl rfl

theorem closesComment_append {as bs : List Char} (ha : closesComment as = false)
    (hb : closesComment bs = false) (h : bs.head? ≠ some '/') :
    closesComment (as ++ bs) = false := by
  fun_induction closesComment as with
  | case1 => exact hb
  | case2 => simp at ha
  -- A mark across the border needs a slash at the front of `bs`.
  | case3 c cs hc ih =>
    refine closesComment_cons (ih ha) ?_
    rintro rfl
    cases cs with
    | nil => exact h
    | cons d cs => simpa using fun e => hc cs rfl (by rw [e])

/-- A comment without a closing mark in it ends at the one behind it. -/
theorem blockBody_append_close {cs : List Char} (h : closesComment cs = false)
    (next : List Char) : blockBody (cs ++ '*' :: '/' :: next) = (cs, true) := by
  fun_induction closesComment cs with
  | case1 => rfl
  | case2 => simp at h
  | case3 c cs hc ih =>
    rw [List.cons_append, blockBody, ih h]
    rintro ds rfl hd
    cases cs with
    | nil => simp at hd
    | cons d cs => exact hc cs rfl (by rw [(List.cons.inj hd).1])

/-- The documentation with the given text. No text is no documentation. -/
def docOf? (cs : List Char) : Option String :=
  if cs.isEmpty then none else some (String.ofList cs)

/-- A documentation comment with the given text between its marks. -/
def Piece.ofDoc (body : List Char) : Piece where
  text := '/' :: '*' :: ('*' :: body ++ ['*', '/'])
  content := (docOf? (cleanDoc body)).elim .skipped .doc

/-- A documentation comment ends at its first closing mark, whatever stands behind it. -/
theorem Piece.stands_ofDoc {body : List Char} (hb : closesComment ('*' :: body) = false)
    (next : List Char) : (ofDoc body).Stands next := by
  refine ⟨'/', '*' :: ('*' :: body ++ ['*', '/']), rfl, ?_⟩
  show blockComment ('*' :: body ++ ['*', '/'] ++ next) = ofDoc body
  rw [blockComment, List.append_assoc, show ['*', '/'] ++ next = '*' :: '/' :: next from rfl,
    blockBody_append_close hb next, ofDoc, docOf?]
  cases hdoc : cleanDoc body <;> simp [hdoc]

/-- A documentation comment documents what stands behind it, if it has a text. -/
theorem scan_comment {body : List Char} (hb : closesComment ('*' :: body) = false)
    (gap next : List Char) :
    scan gap none ((Piece.ofDoc body).text ++ next) =
      scan (gap ++ (Piece.ofDoc body).text) (docOf? (cleanDoc body)) next := by
  have hstands := Piece.stands_ofDoc hb next
  cases hdoc : docOf? (cleanDoc body) with
  | none => exact hstands.scan_skipped (by rw [Piece.ofDoc, hdoc]; rfl)
  | some d => exact hstands.scan_doc (by rw [Piece.ofDoc, hdoc]; rfl)

theorem closesComment_of_append {as bs : List Char} (h : closesComment (as ++ bs) = false) :
    closesComment as = false ∧ closesComment bs = false := by
  induction as with
  | nil => exact ⟨rfl, h⟩
  | cons c as ih =>
    rw [List.cons_append, closesComment.eq_def] at h
    split at h
    · rename_i he
      exact absurd he (by simp)
    · simp at h
    · rename_i d ds hd hcd
      obtain ⟨rfl, rfl⟩ := List.cons.inj hcd
      refine ⟨closesComment_cons (ih h).1 ?_, (ih h).2⟩
      rintro rfl he
      obtain ⟨r, hr⟩ := List.head?_eq_some_iff.1 he
      exact hd (r ++ bs) rfl (by rw [hr]; rfl)

/-! ## The gutter -/

/-- One line behind its gutter. -/
def gutter (bs l : List Char) : List Char :=
  bs ++ '*' :: if l.isEmpty then [] else ' ' :: l

/-- The white space in front of the star. -/
def margin (level : Nat) : List Char :=
  List.replicate (4 * level) ' ' ++ [' ']

theorem eq_blank_of_mem_margin {level : Nat} : ∀ c ∈ margin level, c = ' ' := by
  intro c hc
  rcases List.mem_append.1 hc with h | h
  · exact List.eq_of_mem_replicate h
  · exact List.mem_singleton.1 h

theorem toList_docGutter (level : Nat) (l : List Char) :
    (docGutter level l).toList = gutter (margin level) l ++ ['\n'] := by
  unfold docGutter gutter margin
  cases l <;> simp [indent]

section

variable {bs l : List Char} (hb : ∀ c ∈ bs, c = ' ')

include hb

theorem docLine_gutter (hl : trimEnd l = l) : docLine (gutter bs l) = l := by
  have hb' : ∀ c ∈ bs, isSpace c = true := fun c hc => by rw [hb c hc]; decide
  cases l with
  | nil =>
    rw [docLine, gutter, trim, trimStart_append_blank hb']
    decide
  | cons c l => exact docLine_star hb' hl

theorem closesComment_blanks : closesComment bs = false := by
  induction bs with
  | nil => rfl
  | cons c bs ih =>
    refine closesComment_cons (ih fun d hd => hb d (List.mem_cons_of_mem c hd)) fun e => ?_
    rw [hb c List.mem_cons_self] at e
    simp at e

theorem closesComment_gutter (hl : closesComment l = false) :
    closesComment (gutter bs l ++ ['\n']) = false := by
  unfold gutter
  rw [List.append_assoc]
  refine closesComment_append (closesComment_blanks hb) ?_ (by simp)
  cases l with
  | nil => decide
  | cons c l =>
    have hs : closesComment (' ' :: (c :: l)) = false := closesComment_cons hl (by simp)
    have hn : closesComment (' ' :: (c :: l) ++ ['\n']) = false :=
      closesComment_append hs (by decide) (by simp)
    exact closesComment_cons hn (by simp)

theorem closesComment_gutters {ls : List (List Char)} (hl : ∀ l ∈ ls, closesComment l = false) :
    closesComment ((ls.flatMap fun l => gutter bs l ++ ['\n']) ++ bs) = false := by
  have head (r : List Char) (hr : r.head? ≠ some '/') : (bs ++ r).head? ≠ some '/' := by
    cases bs with
    | nil => exact hr
    | cons c bs => simp [hb c List.mem_cons_self]
  induction ls with
  | nil => exact closesComment_blanks hb
  | cons l ls ih =>
    rw [List.flatMap_cons, List.append_assoc]
    refine closesComment_append (closesComment_gutter hb (hl l List.mem_cons_self))
      (ih fun m hm => hl m (List.mem_cons_of_mem l hm)) ?_
    cases ls with
    | nil => simpa using head [] (by simp)
    | cons m ls =>
      simp only [List.flatMap_cons, gutter, List.append_assoc, List.cons_append]
      exact head ('*' :: _) (by simp)

theorem not_mem_gutter (hl : '\n' ∉ l) : '\n' ∉ gutter bs l := by
  have hn : '\n' ∉ bs := fun h => absurd (hb _ h) (by decide)
  cases l <;> simp_all [gutter]

/-- Lines behind their gutters, and the closing line. -/
theorem lines_gutters {ls : List (List Char)} (hl : ∀ l ∈ ls, '\n' ∉ l ∧ trimEnd l = l)
    (hn : bs ≠ []) :
    lines ((ls.flatMap fun l => gutter bs l ++ ['\n']) ++ bs) = ls.map (gutter bs) ++ [bs] := by
  induction ls with
  | nil => exact lines_of_not_mem (fun h => absurd (hb _ h) (by decide)) hn
  | cons l ls ih =>
    -- A carriage return at the end of a line would be lost with the line break. It is white space,
    -- which no line ends with.
    have hg : (gutter bs l).getLast? ≠ some '\r' := by
      unfold gutter
      cases l with
      | nil => simp
      | cons c l =>
        intro h
        have hc : (c :: l).getLast? = some '\r' := by simpa using h
        obtain ⟨r, hr⟩ := List.getLast?_eq_some_iff.1 hc
        have ht := (hl _ List.mem_cons_self).2
        rw [hr, trimEnd_append_blank (List.forall_mem_singleton.2 rfl)] at ht
        have := (trimEnd_isPrefix r).length_le
        rw [ht, List.length_append, List.length_singleton] at this
        omega
    have hnl : '\n' ∉ gutter bs l := not_mem_gutter hb (hl l List.mem_cons_self).1
    rw [List.flatMap_cons, List.append_assoc, List.append_assoc, List.singleton_append,
      lines_append_newline _ hnl hg, ih fun m hm => hl m (List.mem_cons_of_mem l hm)]
    rfl

/-- The text of a comment whose lines stand behind gutters. -/
theorem cleanDoc_gutters {ls : List (List Char)} (hl : ∀ l ∈ ls, '\n' ∉ l ∧ trimEnd l = l)
    (hn : bs ≠ []) (hf : ∀ l ∈ ls.head?, l ≠ []) (hz : ∀ l ∈ ls.getLast?, l ≠ []) :
    cleanDoc ('\n' :: ((ls.flatMap fun l => gutter bs l ++ ['\n']) ++ bs)) = unlines ls := by
  have hd : (ls.map (gutter bs)).map docLine = ls := by
    rw [List.map_map]
    refine (List.map_congr_left fun l h => ?_).trans (List.map_id ls)
    exact docLine_gutter hb (hl l h).2
  have hbl : docLine bs = [] := docLine_blank fun c hc => by rw [hb c hc]; decide
  -- The empty line in front and the one of the closing mark are dropped, and no others are.
  rw [cleanDoc, lines, lines_gutters hb hl hn, List.map_cons, List.map_append, hd, List.map_cons,
    hbl, show docLine [] = [] from rfl, List.dropWhile_cons_of_pos rfl]
  cases ls with
  | nil => rfl
  | cons l ls =>
    have hne : l ≠ [] := hf l rfl
    rw [List.cons_append, List.dropWhile_cons_of_neg (by simpa using hne), List.map_nil,
      ← List.cons_append, dropBlankEnd_append_nil, dropBlankEnd_of_last hz]

end

/-! ## Documentation texts -/

theorem unlines_cons {l : List Char} {ls : List (List Char)} (h : ls ≠ []) :
    unlines (l :: ls) = l ++ '\n' :: unlines ls := by
  cases ls with
  | nil => exact absurd rfl h
  | cons m ls => rfl

theorem closesComment_of_mem {ls : List (List Char)} (h : closesComment (unlines ls) = false) :
    ∀ l ∈ ls, closesComment l = false := by
  induction ls with
  | nil => simp
  | cons m ls ih =>
    intro l hl
    by_cases hls : ls = []
    · subst hls
      rwa [List.mem_singleton.1 hl]
    · rw [unlines_cons hls] at h
      rcases List.mem_cons.1 hl with rfl | hl
      · exact (closesComment_of_append h).1
      · exact ih (@closesComment_of_append ['\n'] _ (closesComment_of_append h).2).2 l hl

theorem closesComment_of_isInfix {as bs : List Char} (h : as <:+: bs)
    (hb : closesComment bs = false) : closesComment as = false := by
  obtain ⟨xs, ys, rfl⟩ := h
  exact (closesComment_of_append (closesComment_of_append hb).1).2

/-- A documentation text of lines that no white space ends, the first and the last of which are not
blank. -/
structure TidyDoc (d : String) : Prop where
  /-- Lines end with line feeds, and the last one with nothing. -/
  joined : unlines (lines d.toList) = d.toList
  closed : closesComment d.toList = false
  ne_nil : lines d.toList ≠ []
  first : ∀ l ∈ (lines d.toList).head?, trim l ≠ []
  last : ∀ l ∈ (lines d.toList).getLast?, l ≠ []
  trimmed : ∀ l ∈ lines d.toList, trimEnd l = l

/-- A documentation text that is still there when its comment is read. A single line must not start
with a star, which would be taken for a gutter. -/
structure LegibleDoc (d : String) : Prop where
  /-- Lines end with line feeds, and the last one with nothing. -/
  joined : unlines (lines d.toList) = d.toList
  closed : closesComment d.toList = false
  ne_nil : lines d.toList ≠ []
  first : ∀ l ∈ (lines d.toList).head?, trim l ≠ []
  last : ∀ l ∈ (lines d.toList).getLast?, l ≠ []
  trimmed : ∀ l ∈ lines d.toList, trimEnd l = l
  star : ∀ l, lines d.toList = [l] → (trim l).head? ≠ some '*'

theorem LegibleDoc.tidy {d : String} (h : LegibleDoc d) : TidyDoc d :=
  ⟨h.joined, h.closed, h.ne_nil, h.first, h.last, h.trimmed⟩

/-- What is read back of a documentation text: one line loses the white space at its ends. -/
def rereadDoc (d : String) : String :=
  if (lines d.toList).length ≤ 1 then String.ofList (trim d.toList) else d

/-- What is read back of a tidy documentation text. One line loses a star in front as well, and one
blank behind the star. -/
def rereadDoc? (d : String) : Option String :=
  if (lines d.toList).length ≤ 1 then docOf? (dropFront ' ' (dropFront '*' (trim d.toList)))
  else some d

theorem toList_indent (level : Nat) : (indent level).toList = List.replicate (4 * level) ' ' := by
  simp [indent]

theorem isSpace_of_mem_indent {level : Nat} : ∀ c ∈ (indent level).toList, isSpace c = true := by
  intro c hc
  rw [toList_indent] at hc
  rw [List.eq_of_mem_replicate hc]
  decide

/-- What a printed documentation comment has between its marks. -/
def docBody (level : Nat) (d : String) : List Char :=
  if (lines d.toList).length ≤ 1 then ' ' :: (trim d.toList ++ [' '])
  else
    '\n' :: (((lines d.toList).flatMap fun l => gutter (margin level) l ++ ['\n']) ++ margin level)

/-- A printed documentation comment stands on lines of its own. -/
theorem toList_printDoc (level : Nat) (d : String) : (printDoc level d).toList =
    (indent level).toList ++ ((Piece.ofDoc (docBody level d)).text ++ ['\n']) := by
  by_cases hlen : (lines d.toList).length ≤ 1
  · simp [printDoc, docBody, hlen, Piece.ofDoc]
  · simp [printDoc, docBody, hlen, Piece.ofDoc, List.flatMap_map, toList_docGutter, toList_indent,
      margin]

namespace TidyDoc

variable {d : String} (h : TidyDoc d)

include h

theorem exists_line (hlen : (lines d.toList).length ≤ 1) : lines d.toList = [d.toList] := by
  cases hls : lines d.toList with
  | nil => exact absurd hls h.ne_nil
  | cons l ls =>
    obtain rfl : ls = [] := by simpa [hls] using hlen
    have hd := h.joined
    rw [hls] at hd
    rw [← hd]
    rfl

/-- No closing mark stands inside a printed comment. -/
theorem closed_docBody (level : Nat) : closesComment ('*' :: docBody level d) = false := by
  have hstar {cs : List Char} (hcs : closesComment cs = false) (hn : cs.head? ≠ some '/') :
      closesComment ('*' :: cs) = false :=
    closesComment_cons hcs fun _ => hn
  rw [docBody]
  split
  · have htrim := closesComment_of_isInfix (trim_isInfix d.toList) h.closed
    have hend : closesComment (trim d.toList ++ [' ']) = false :=
      closesComment_append htrim (by decide) (by simp)
    exact hstar (closesComment_cons hend (by simp)) (by simp)
  · have hls := closesComment_of_mem (by rw [h.joined]; exact h.closed)
    have hgutters := closesComment_gutters (@eq_blank_of_mem_margin level) hls
    exact hstar (closesComment_cons hgutters (by simp)) (by simp)

/-- What a printed comment says. -/
theorem docOf?_docBody (level : Nat) : docOf? (cleanDoc (docBody level d)) = rereadDoc? d := by
  rw [docBody, rereadDoc?]
  split
  · next hlen => rw [cleanDoc_between (not_mem_trim hlen) (trim_trim _)]
  · have hlines : ∀ l ∈ lines d.toList, '\n' ∉ l ∧ trimEnd l = l := fun l hl =>
      ⟨not_mem_of_mem_lines hl, h.trimmed l hl⟩
    have hfirst : ∀ l ∈ (lines d.toList).head?, l ≠ [] := by
      rintro l hl rfl
      exact h.first [] hl rfl
    have hne : d.toList ≠ [] := by
      intro hd
      exact h.ne_nil (by rw [hd]; rfl)
    rw [cleanDoc_gutters (@eq_blank_of_mem_margin level) hlines (by simp [margin]) hfirst h.last,
      h.joined, docOf?, if_neg (by simpa using hne), String.ofList_toList]

/-- **A printed documentation comment is taken for nothing else,** and it ends where it was
ended. -/
theorem scan_printDoc (level : Nat) (gap next : List Char) :
    scan gap none ((printDoc level d).toList ++ next) =
      scan (gap ++ (printDoc level d).toList) (rereadDoc? d) next := by
  rw [toList_printDoc, List.append_assoc, List.append_assoc, scan_blanks isSpace_of_mem_indent,
    scan_comment (h.closed_docBody level), h.docOf?_docBody, List.singleton_append,
    scan_blank (by decide), List.append_assoc, List.append_assoc]

end TidyDoc

/-- A legible documentation text is read back but for the white space around a single line. -/
theorem LegibleDoc.rereadDoc?_eq {d : String} (h : LegibleDoc d) :
    rereadDoc? d = some (rereadDoc d) := by
  rw [rereadDoc?, rereadDoc]
  split
  · next hlen =>
    have hline := h.tidy.exists_line hlen
    have hstar := h.star _ hline
    obtain ht | ⟨c, r, ht, hc, -⟩ := trim_cases d.toList
    · exact absurd ht (h.first _ (by rw [hline]; rfl))
    · rw [ht] at hstar ⊢
      have hs : c ≠ '*' := by simpa using hstar
      have hb : c ≠ ' ' := by
        rintro rfl
        exact absurd hc (by decide)
      rw [dropFront, if_neg hs, dropFront, if_neg hb]
      rfl
  · rfl

/-- **A documented text has the documentation on its first lexeme.** -/
theorem Spells.documented {d s : String} {ls : List Lexeme} {next : List Char}
    (hd : LegibleDoc d) (level : Nat) (hls : ls ≠ []) (hn : ∀ l ∈ ls.head?, l.doc = none)
    (h : Spells s ls next) :
    Spells (printDoc level d ++ s) (documented (some (rereadDoc d)) ls) next := by
  intro gap
  obtain ⟨ts, gap', hts, hm, hgap⟩ := h (gap ++ (printDoc level d).toList)
  rw [String.toList_append, List.append_assoc, hd.tidy.scan_printDoc, hd.rereadDoc?_eq, scan,
    gather_doc, ← scan, hts]
  cases hm with
  | nil => exact absurd rfl hls
  | cons hl hm =>
    refine ⟨_, gap', rfl, .cons ?_ hm, by simpa using hgap⟩
    refine ⟨hl.1, ?_, hl.2.2⟩
    show Option.or _ _ = _
    rw [hl.2.1, hn _ rfl, Option.none_or]

/-- The text that is read back is printed like the text itself. -/
theorem printDoc_rereadDoc (level : Nat) (d : String) :
    printDoc level (rereadDoc d) = printDoc level d := by
  unfold rereadDoc
  split
  · rename_i h
    rw [printDoc, printDoc, if_pos h, String.toList_ofList,
      if_pos (length_lines_le (not_mem_trim h)), trim_trim]
  · rfl

end Ambient
