import Ambient.Proofs.Token.Layout

/-!
# Documentation of a token, printed and read again

What is attached to a token is the text of a comment, so it has no closing mark and no white space
at the ends of its lines, and neither its first nor its last line is blank (`TidyDoc.of_attached`).
Printed in front of a declaration, such a text is one comment again, and documents the first token
behind it (`lex_printDoc`): a text of several lines as it is, a single line without the white space
in front, and without a star that then comes first.
-/

namespace Ambient

open Text

/-! ## Lines put together -/

namespace Text

theorem head_lines_isPrefix {cs : List Char} : ∀ l ∈ (lines cs).head?, l <+: cs := by
  fun_induction lines cs with
  | case1 => simp
  | case2 => simp
  | case3 => simp
  | case4 => simp
  | case5 c cs h₁ h₂ l ls hl ih => simpa using ih l (by simp [hl])

theorem isInfix_of_mem_lines {cs l : List Char} (h : l ∈ lines cs) : l <:+: cs := by
  fun_induction lines cs generalizing l with
  | case1 => cases h
  | case2 cs ih =>
    rcases List.mem_cons.1 h with rfl | h
    · exact List.nil_infix
    · exact (ih h).trans (List.suffix_cons _ _).isInfix
  | case3 cs ih =>
    rcases List.mem_cons.1 h with rfl | h
    · exact List.nil_infix
    · exact (ih h).trans (List.suffix_append ['\r', '\n'] cs).isInfix
  | case4 c cs h₁ h₂ hl ih =>
    obtain rfl := List.mem_singleton.1 h
    exact (List.prefix_append [c] cs).isInfix
  | case5 c cs h₁ h₂ l' ls hl ih =>
    rcases List.mem_cons.1 h with rfl | h
    · obtain ⟨rest, hrest⟩ := head_lines_isPrefix l' (by rw [hl]; rfl)
      exact ⟨[], rest, by rw [← hrest]; rfl⟩
    · exact (ih (by rw [hl]; exact List.mem_cons_of_mem _ h)).trans (List.suffix_cons _ _).isInfix

theorem trimEnd_eq_nil {cs : List Char} (h : trim cs = []) : trimEnd cs = [] := by
  induction cs with
  | nil => rfl
  | cons c cs ih =>
    cases hc : isSpace c with
    | false =>
      rw [trim, trimStart_cons hc, trimEnd_cons_of_not_space hc] at h
      cases h
    | true =>
      have hcs : trim cs = [] := by simpa [trim, trimStart, hc] using h
      rw [trimEnd, ih hcs, if_pos hc]

theorem trimEnd_trimStart {cs : List Char} (h : trimEnd cs = cs) :
    trimEnd (trimStart cs) = trimStart cs := by
  induction cs with
  | nil => rfl
  | cons c cs ih =>
    cases hc : isSpace c with
    | false => rwa [trimStart_cons hc]
    | true =>
      have hcs : trimStart (c :: cs) = trimStart cs := by simp [trimStart, hc]
      rw [hcs]
      exact ih (trimEnd_of_cons h)

theorem not_return_of_trimEnd {cs : List Char} (h : trimEnd cs = cs) :
    cs.getLast? ≠ some '\r' := by
  intro hlast
  obtain ⟨ds, rfl⟩ := List.getLast?_eq_some_iff.1 hlast
  rw [trimEnd_append_blank (List.forall_mem_singleton.2 rfl)] at h
  have hle := (trimEnd_isPrefix ds).length_le
  rw [h, List.length_append, List.length_singleton] at hle
  omega

/-- Lines that were put together are found again. -/
theorem lines_unlines {ls : List (List Char)} (hl : ∀ l ∈ ls, '\n' ∉ l ∧ trimEnd l = l)
    (hz : ∀ l ∈ ls.getLast?, l ≠ []) : lines (unlines ls) = ls := by
  induction ls with
  | nil => rfl
  | cons l ls ih =>
    obtain ⟨hn, ht⟩ := hl l List.mem_cons_self
    cases ls with
    | nil => exact lines_of_not_mem hn (hz l rfl)
    | cons m ls =>
      have htail : lines (unlines (m :: ls)) = m :: ls :=
        ih (fun l hm => hl l (List.mem_cons_of_mem _ hm)) fun l hm => hz l (by simpa using hm)
      show lines (l ++ '\n' :: unlines (m :: ls)) = _
      rw [lines_append_newline _ hn (not_return_of_trimEnd ht), htail]

theorem dropFront_isSuffix (c : Char) (cs : List Char) : dropFront c cs <:+ cs := by
  cases cs with
  | nil => exact List.suffix_refl _
  | cons d cs =>
    rw [dropFront]
    split
    · exact List.suffix_cons d cs
    · exact List.suffix_refl _

theorem docLine_isInfix (l : List Char) : docLine l <:+: l :=
  (trimEnd_isPrefix _).isInfix.trans <| (dropFront_isSuffix ' ' _).isInfix.trans <|
    (dropFront_isSuffix '*' _).isInfix.trans (trim_isInfix l)

theorem dropBlankEnd_isPrefix (ls : List (List Char)) : dropBlankEnd ls <+: ls := by
  induction ls with
  | nil => exact List.prefix_refl _
  | cons l ls ih =>
    rw [dropBlankEnd]
    split
    · split
      · exact List.nil_prefix
      · exact List.prefix_append [l] ls
    · exact (List.prefix_cons_inj l).2 ih

theorem getLast_dropBlankEnd {ls : List (List Char)} : ∀ l ∈ (dropBlankEnd ls).getLast?, l ≠ [] := by
  induction ls with
  | nil => simp [dropBlankEnd]
  | cons l ls ih =>
    rw [dropBlankEnd]
    cases hls : dropBlankEnd ls with
    | nil =>
      cases l <;> simp
    | cons m ms => simpa [hls] using ih

/-- The lines that the text of a comment is put together from. -/
theorem cleanDoc_lines {body : List Char} (hb : closesComment body = false) :
    ∃ ls, cleanDoc body = unlines ls ∧
      (∀ l ∈ ls, '\n' ∉ l ∧ trimEnd l = l ∧ closesComment l = false) ∧
      (∀ l ∈ ls.head?, l ≠ []) ∧ ∀ l ∈ ls.getLast?, l ≠ [] := by
  refine ⟨_, rfl, fun l hl => ?_, fun l hl => ?_, getLast_dropBlankEnd⟩
  · have hmem := (List.dropWhile_suffix _).mem ((dropBlankEnd_isPrefix _).mem hl)
    obtain ⟨m, hm, rfl⟩ := List.mem_map.1 hmem
    refine ⟨fun hn => not_mem_of_mem_lines hm ((docLine_isInfix m).mem hn), trimEnd_trimEnd _, ?_⟩
    exact closesComment_of_isInfix ((docLine_isInfix m).trans (isInfix_of_mem_lines hm)) hb
  · obtain ⟨ms, hms⟩ := dropBlankEnd_isPrefix (((lines body).map docLine).dropWhile List.isEmpty)
    have hhead := List.head?_dropWhile_not List.isEmpty ((lines body).map docLine)
    rintro rfl
    obtain ⟨rest, hrest⟩ := List.head?_eq_some_iff.1 hl
    rw [← hms, hrest] at hhead
    simp at hhead

end Text

theorem closesComment_unlines {ls : List (List Char)} (h : ∀ l ∈ ls, closesComment l = false) :
    closesComment (unlines ls) = false := by
  induction ls with
  | nil => rfl
  | cons l ls ih =>
    have hl := h l List.mem_cons_self
    cases ls with
    | nil => exact hl
    | cons m ls =>
      have hls := ih fun k hk => h k (List.mem_cons_of_mem l hk)
      have hnewline : closesComment ('\n' :: unlines (m :: ls)) = false :=
        closesComment_cons hls fun hc => absurd hc (by decide)
      exact closesComment_append hl hnewline (by simp)

/-! ## Documentation that is attached to a token -/

/-- The text of a comment is tidy, if there is one. -/
theorem TidyDoc.cleanDoc {body : List Char} (hb : closesComment body = false)
    (hne : Text.cleanDoc body ≠ []) : TidyDoc (String.ofList (Text.cleanDoc body)) := by
  obtain ⟨ls, hls, hlines, hfirst, hlast⟩ := cleanDoc_lines hb
  have hdoc : lines (String.ofList (unlines ls)).toList = ls := by
    rw [String.toList_ofList]
    exact lines_unlines (fun l hl => ⟨(hlines l hl).1, (hlines l hl).2.1⟩) hlast
  rw [hls] at hne ⊢
  constructor
  case joined => rw [hdoc, String.toList_ofList]
  case closed =>
    rw [String.toList_ofList]
    exact closesComment_unlines fun l hl => (hlines l hl).2.2
  case ne_nil =>
    rw [hdoc]
    rintro rfl
    exact hne rfl
  case first =>
    rw [hdoc]
    intro l hl htrim
    have hmem : l ∈ ls := List.mem_of_mem_head? hl
    exact hfirst l hl ((hlines l hmem).2.1.symm.trans (trimEnd_eq_nil htrim))
  case last =>
    rw [hdoc]
    exact hlast
  case trimmed =>
    rw [hdoc]
    exact fun l hl => (hlines l hl).2.1

theorem Piece.tidy_doc {c : Char} {cs : List Char} {d : String}
    (h : (first c cs).content = .doc d) : TidyDoc d := by
  obtain ⟨rest, body, hfirst, hbody, rfl⟩ := eq_blockComment h
  have hclosed : closesComment body = false := by
    have hrest := closesComment_blockBody rest
    rw [hbody] at hrest
    exact (@closesComment_of_append ['*'] body hrest).2
  refine .cleanDoc hclosed fun hempty => ?_
  rw [hfirst, blockComment, hbody] at h
  simp [hempty] at h

namespace LexState

/-- What waits for the next token was there before, or is a comment. -/
theorem doc_foldl_step {ps : List Piece} {s : LexState} {d : String}
    (h : (ps.foldl step s).doc = some d) : s.doc = some d ∨ ∃ p ∈ ps, p.content = .doc d := by
  induction ps generalizing s with
  | nil => exact .inl h
  | cons p ps ih =>
    rcases ih h with hstep | ⟨q, hq, hd⟩
    · cases hp : p.content with
      | skipped => exact .inl (by simpa [step, hp] using hstep)
      | doc e =>
        obtain rfl : e = d := by simpa [step, hp] using hstep
        exact .inr ⟨p, List.mem_cons_self, hp⟩
      | token k => simp [step, hp] at hstep
    · exact .inr ⟨q, List.mem_cons_of_mem p hq, hd⟩

end LexState

/-- **Documentation that is attached to a token is tidy.** -/
theorem TidyDoc.of_attached {source d : String} {t : Token} (ht : t ∈ (lex source).toList)
    (hd : t.doc = some d) : TidyDoc d := by
  have hlex : lex source = ((pieces source.toList).foldl LexState.step {}).finish :=
    LexState.lexChars_eq_run source.toList
  have hstate : ∃ ps qs, pieces source.toList = ps ++ qs ∧
      t.doc = (ps.foldl LexState.step {}).doc := by
    rw [hlex, Lexed.toList, List.mem_append, List.mem_singleton] at ht
    rcases ht with ht | rfl
    · obtain ⟨i, hi⟩ := List.mem_iff_getElem?.1 ht
      obtain ⟨qs, q, rs, hps, -, -, -, -, -, hdoc⟩ :=
        LexState.exists_piece (s := {}) (Nat.zero_le i) (by simpa [LexState.finish] using hi)
      exact ⟨qs, q :: rs, hps, hdoc⟩
    · exact ⟨_, [], (List.append_nil _).symm, rfl⟩
  obtain ⟨ps, qs, hps, hdoc⟩ := hstate
  rcases LexState.doc_foldl_step (hdoc.symm.trans hd) with hnone | ⟨p, hp, hcontent⟩
  · cases hnone
  · obtain ⟨c, cs, rfl⟩ := exists_first_of_mem_pieces (hps ▸ List.mem_append_left qs hp)
    exact Piece.tidy_doc hcontent

/-! ## Tokens behind a documentation comment -/

/-- The token with more in front of it, and documented by that unless it is documented already. -/
def Token.behind (gap : List Char) (doc : Option String) (t : Token) : Token :=
  { t with gap := gap ++ t.gap, start := t.start + byteLength gap, doc := t.doc.or doc }

/-- The tokens with more in front of them, which documents the first one. All of them stand
later. -/
def Lexed.behind (gap : List Char) (doc : Option String) (l : Lexed) : Lexed :=
  match l.tokens with
  | [] => { l with eof := l.eof.behind gap doc }
  | t :: ts =>
    { tokens := t.behind gap doc :: ts.map (Token.moved (byteLength gap))
      eof := l.eof.moved (byteLength gap) }

namespace LexState

/-- Nothing but a gap, which may document the next token. -/
def waiting (gap : List Char) (doc : Option String) : LexState :=
  { skipped := gap.reverse, offset := byteLength gap, doc }

theorem waiting_nil : waiting [] none = {} := rfl

theorem step_waiting {p : Piece} (gap : List Char) (doc : Option String)
    (h : p.content = .skipped) : (waiting gap doc).step p = waiting (gap ++ p.text) doc := by
  simp [step_skipped _ h, skip, waiting]

theorem step_waiting_doc {p : Piece} {d : String} (gap : List Char) (doc : Option String)
    (h : p.content = .doc d) : (waiting gap doc).step p = waiting (gap ++ p.text) (some d) := by
  simp [step, h, waiting, List.reverseAux_eq]

/-- **A gap in front of a text goes to its first token,** and everything stands later. -/
theorem finish_run_waiting (gap front : List Char) (doc d : Option String) (cs : List Char) :
    ((waiting (gap ++ front) (d.or doc)).run cs).finish =
      ((waiting front d).run cs).finish.behind gap doc := by
  unfold run
  induction pieces cs generalizing front d with
  | nil => simp [waiting, finish, Lexed.behind, Token.behind, Nat.add_comm]
  | cons p ps ih =>
    rw [List.foldl_cons, List.foldl_cons]
    cases hp : p.content with
    | skipped => rw [step_waiting _ _ hp, step_waiting _ _ hp, List.append_assoc, ih]
    | doc e =>
      rw [step_waiting_doc _ _ hp, step_waiting_doc _ _ hp, List.append_assoc, ← ih,
        Option.some_or]
    | token k =>
      -- the states differ in the token found, and in where everything behind it stands
      rw [← List.foldl_cons, ← List.foldl_cons, foldl_step_token _ hp, foldl_step_token _ hp]
      have hoffset : (waiting (gap ++ front) (d.or doc)).offset =
          (waiting front d).offset + byteLength gap := by
        simp [waiting, Nat.add_comm]
      rw [hoffset, ← moved_moved]
      simp [finish, behind, moved, waiting, Lexed.behind, Token.behind, Token.moved, Nat.add_comm]

theorem run_waiting_blanks {bs : List Char} (hb : ∀ c ∈ bs, isSpace c = true) (gap : List Char)
    (doc : Option String) (next : List Char) :
    (waiting gap doc).run (bs ++ next) = (waiting (gap ++ bs) doc).run next := by
  rw [run_filler (filler_of_blank hb)]
  simp [skip, waiting]

/-- A comment without a text leaves the documentation in front of it to the next token. -/
theorem run_waiting_ofDoc {body : List Char} (hb : closesComment ('*' :: body) = false)
    (gap next : List Char) :
    (waiting gap none).run ((Piece.ofDoc body).text ++ next) =
      (waiting (gap ++ (Piece.ofDoc body).text) (docOf? (Text.cleanDoc body))).run next := by
  rw [run, (Piece.stands_ofDoc hb next).pieces_append, List.foldl_cons]
  cases hdoc : docOf? (Text.cleanDoc body) with
  | none => rw [step_waiting _ _ (by rw [Piece.ofDoc, hdoc]; rfl), run]
  | some d => rw [step_waiting_doc _ _ (by rw [Piece.ofDoc, hdoc]; rfl), run]

/-- A printed documentation comment is all in the gap. -/
theorem run_printDoc {d : String} (h : TidyDoc d) (level : Nat) (next : List Char) :
    run {} ((printDoc level d).toList ++ next) =
      (waiting (printDoc level d).toList (rereadDoc? d)).run next := by
  have hnewline : ∀ c ∈ ['\n'], isSpace c = true := List.forall_mem_singleton.2 rfl
  rw [toList_printDoc, List.append_assoc, List.append_assoc, ← waiting_nil,
    run_waiting_blanks isSpace_of_mem_indent, run_waiting_ofDoc (h.closed_docBody level),
    run_waiting_blanks hnewline, h.docOf?_docBody, List.nil_append, List.append_assoc]

end LexState

theorem docOf?_eq_some {cs ds : List Char} :
    docOf? cs = some (String.ofList ds) ↔ cs = ds ∧ cs ≠ [] := by
  rw [docOf?]
  split
  · next h => simp [List.isEmpty_iff.1 h]
  · next h =>
    have hne : cs ≠ [] := fun he => h (List.isEmpty_iff.2 he)
    simp [hne, String.ofList_inj]

/-- A single line is read back without the white space in front, if it then starts with no star. -/
theorem TidyDoc.rereadDoc?_line {d : String} (h : TidyDoc d) (hlen : (lines d.toList).length = 1) :
    rereadDoc? d = some (String.ofList (trimStart d.toList)) ↔
      (trimStart d.toList).head? ≠ some '*' := by
  have hline := h.exists_line (Nat.le_of_eq hlen)
  have hend : trimEnd d.toList = d.toList :=
    h.trimmed _ (by rw [hline]; exact List.mem_singleton_self _)
  have htrim : trim d.toList = trimStart d.toList := trimEnd_trimStart hend
  have hne : trim d.toList ≠ [] := h.first _ (by rw [hline]; rfl)
  rw [rereadDoc?, if_pos (Nat.le_of_eq hlen), ← htrim]
  obtain hnil | ⟨c, r, hcons, hc, -⟩ := trim_cases d.toList
  · exact absurd hnil hne
  rw [hcons]
  have hblank : c ≠ ' ' := by
    rintro rfl
    exact absurd hc (by decide)
  by_cases hstar : c = '*'
  · -- what is left behind the star is shorter
    subst hstar
    have hshort : dropFront ' ' r ≠ '*' :: r := by
      intro he
      have hle := (dropFront_isSuffix ' ' r).length_le
      rw [he, List.length_cons] at hle
      omega
    rw [docOf?_eq_some, dropFront, if_pos rfl]
    simp [hshort]
  · rw [docOf?_eq_some, dropFront, if_neg hstar, dropFront, if_neg hblank]
    simp [hstar]

/-- **A documentation comment that is printed in front of a text is read back.** It ends where it
was ended, and documents the first token of the text. -/
theorem lex_printDoc {source d : String} {t : Token} (ht : t ∈ (lex source).toList)
    (hd : t.doc = some d) (level : Nat) :
    (∃ body, (printDoc level d).toList =
        (indent level).toList ++ '/' :: '*' :: (body ++ ['*', '/', '\n']) ∧
      ∀ behind, blockBody (body ++ '*' :: '/' :: behind) = (body, true)) ∧
    (∀ next, lex (printDoc level d ++ next) =
      (lex next).behind (printDoc level d).toList (rereadDoc? d)) ∧
    (1 < (lines d.toList).length → rereadDoc? d = some d) ∧
    ((lines d.toList).length = 1 → (rereadDoc? d = some (String.ofList (trimStart d.toList)) ↔
      (trimStart d.toList).head? ≠ some '*')) ∧
    0 < (lines d.toList).length := by
  have h : TidyDoc d := .of_attached ht hd
  refine ⟨?_, fun next => ?_, fun hlen => ?_, h.rereadDoc?_line, ?_⟩
  · refine ⟨'*' :: docBody level d, ?_, fun behind => ?_⟩
    · simp [toList_printDoc, Piece.ofDoc]
    · exact blockBody_append_close (h.closed_docBody level) behind
  · show lexChars _ = _
    rw [String.toList_append, LexState.lexChars_eq_run, LexState.run_printDoc h]
    have hbehind := LexState.finish_run_waiting (printDoc level d).toList [] (rereadDoc? d) none
      next.toList
    rw [List.append_nil, Option.none_or, LexState.waiting_nil] at hbehind
    rw [hbehind, ← LexState.lexChars_eq_run]
    rfl
  · rw [rereadDoc?, if_neg (Nat.not_le_of_lt hlen)]
  · exact List.length_pos_iff.2 h.ne_nil

/-- A text in stars loses one more each time it is printed and read. -/
theorem lex_printDoc_stars :
    ((lex "/** **Note** */ type A = B;").toList.map Token.doc).head? = some (some "*Note**") ∧
      (lex (printDoc 1 "*Note**" ++ "type")).toList.map Token.doc = [some "Note**", none] ∧
      rereadDoc? "*Note**" ≠ some "*Note**" := by
  have hhead : ((lex "/** **Note** */ type A = B;").toList.map Token.doc).head? =
      some (some "*Note**") := by decide
  obtain ⟨t, ht, hd⟩ := List.mem_map.1 (List.mem_of_mem_head? hhead)
  obtain ⟨-, hlex, -, hline, -⟩ := lex_printDoc ht hd 1
  refine ⟨hhead, ?_, ?_⟩
  · rw [hlex]
    decide
  · exact fun hsame => (hline (by decide)).1 hsame (by decide)

end Ambient
