import Ambient.Proofs.Parser.AliasFront
import Ambient.Proofs.Token.Attachment

/-!
# Comments among the tokens

A block comment is no token, whatever is written in it, as long as the text does not close it
(`kinds_comment`). Where a comment stands behind a text, the text is cut as it is cut alone if it
ends in white space (`kinds_append_of_endsBlank`), so that it does not reach into the comment.
-/

namespace Ambient

open Text

/-! ## Kinds of tokens -/

/-- The kinds of the tokens of a text, without the end. -/
def kinds (cs : List Char) : List Kind :=
  kindsOf (pieces cs)

theorem map_kind_lex (s : String) : (lex s).tokens.map Token.kind = kinds s.toList := by
  rw [← map_kind_scan [] none, scan, map_kind_gather, kinds]

theorem kindsOf_append (ps qs : List Piece) : kindsOf (ps ++ qs) = kindsOf ps ++ kindsOf qs :=
  List.filterMap_append

variable {body : List Char}

/-! ## What is no token -/

theorem kinds_cons_blank {c : Char} (hc : isSpace c = true) (next : List Char) :
    kinds (c :: next) = kinds next := by
  have hscan : scan [] none (c :: next) = scan [c] none next :=
    scan_blanks (List.forall_mem_singleton.2 hc) [] next none
  rw [kinds, ← map_kind_gather [] none, ← scan, hscan, scan, map_kind_gather, kinds]

/-- A block comment with the text between its marks. -/
def Piece.comment (body : List Char) : Piece :=
  blockComment (body ++ ['*', '/'])

theorem Piece.text_comment (hb : closesComment body = false) :
    (comment body).text = '/' :: '*' :: (body ++ ['*', '/']) := by
  rw [comment, blockComment, blockBody_append_close hb []]
  rfl

theorem Piece.kind?_comment (body : List Char) : (comment body).kind? = none := by
  rw [kind?, comment, blockComment]
  dsimp only
  split
  · next k hk =>
    split at hk
    · split at hk <;> cases hk
    · cases hk
  · rfl

/-- A comment ends at its first closing mark, whatever stands behind it. -/
theorem Piece.stands_comment (hb : closesComment body = false) (next : List Char) :
    (comment body).Stands next := by
  refine ⟨'/', '*' :: (body ++ ['*', '/']), text_comment hb, ?_⟩
  show blockComment (body ++ ['*', '/'] ++ next) = comment body
  rw [comment, blockComment, blockComment, List.append_assoc, blockBody_append_close hb [],
    show ['*', '/'] ++ next = '*' :: '/' :: next from rfl, blockBody_append_close hb next]

/-- The text of a comment is not kept if it starts with no star. -/
theorem Spells.comment (hb : closesComment body = false) (hs : body.head? ≠ some '*')
    {next : List Char} : Spells (String.ofList ('/' :: '*' :: (body ++ ['*', '/']))) [] next := by
  have hcontent : (Piece.comment body).content = .skipped := by
    rw [Piece.comment, Piece.blockComment, blockBody_append_close hb []]
    cases body with
    | nil => rfl
    | cons c cs =>
      dsimp only
      split
      · next hc => exact absurd (congrArg List.head? hc) hs
      · rfl
  have hspells : Spells (String.ofList (Piece.comment body).text ++ "") [] next :=
    .skipped (Piece.stands_comment hb _) hcontent .nil
  rwa [String.append_empty, Piece.text_comment hb] at hspells

/-- **A block comment is no token,** whatever is written in it. -/
theorem kinds_comment (hb : closesComment body = false) (next : List Char) :
    kinds ('/' :: '*' :: (body ++ '*' :: '/' :: next)) = kinds next := by
  have htext : '/' :: '*' :: (body ++ '*' :: '/' :: next) = (Piece.comment body).text ++ next := by
    rw [Piece.text_comment hb]
    simp
  rw [kinds, htext, (Piece.stands_comment hb next).pieces_append, kindsOf, List.filterMap_cons,
    Piece.kind?_comment]
  rfl

/-! ## Printed documentation -/

/-- The closing mark does not stand in a printed comment if it does not stand in its text. -/
theorem closesComment_docBody {d : String} (hd : closesComment d.toList = false) (level : Nat) :
    closesComment ('*' :: docBody level d) = false := by
  have hstar {cs : List Char} (hcs : closesComment cs = false) (hn : cs.head? ≠ some '/') :
      closesComment ('*' :: cs) = false :=
    closesComment_cons hcs fun _ => hn
  rw [docBody]
  split
  · have htrim := closesComment_of_isInfix (trim_isInfix d.toList) hd
    have hend : closesComment (trim d.toList ++ [' ']) = false :=
      closesComment_append htrim (by decide) (by simp)
    exact hstar (closesComment_cons hend (by simp)) (by simp)
  · have hlines (l : List Char) (hl : l ∈ lines d.toList) : closesComment l = false :=
      closesComment_of_isInfix (isInfix_of_mem_lines hl) hd
    have hgutters := closesComment_gutters (@eq_blank_of_mem_margin level) hlines
    exact hstar (closesComment_cons hgutters (by simp)) (by simp)

/-- A printed documentation comment, behind its indentation. -/
theorem exists_toList_printDoc {d : String} (hd : closesComment d.toList = false) (level : Nat) :
    ∃ body, closesComment body = false ∧ ∀ next, (printDoc level d).toList ++ next =
      (indent level).toList ++ '/' :: '*' :: (body ++ '*' :: '/' :: '\n' :: next) := by
  refine ⟨'*' :: docBody level d, closesComment_docBody hd level, fun next => ?_⟩
  rw [toList_printDoc, Piece.ofDoc]
  simp

/-! ## Texts that end in white space -/

/-- Whether a text ends in white space that is in no literal and in no comment. -/
def endsBlank (cs : List Char) : Bool :=
  (pieces cs).getLast?.any (·.text.all isSpace)

/-- White space goes up to the next character that is none. -/
theorem Piece.Stands.before_nonblank {p : Piece} (h : p.Stands []) (hp : p.text.all isSpace = true)
    {c : Char} (hc : isSpace c = false) (next : List Char) : p.Stands (c :: next) := by
  obtain ⟨b, bs, htext, hfirst⟩ := h
  have hall : ∀ d ∈ b :: bs, isSpace d = true := by simpa [htext] using hp
  have hbs : ∀ d ∈ bs, isSpace d = true := fun d hd => hall d (List.mem_cons_of_mem b hd)
  have hblank (ds : List Char) : first b ds = ⟨b :: ds.takeWhile isSpace, .skipped⟩ :=
    if_pos (hall b List.mem_cons_self)
  refine ⟨b, bs, htext, ?_⟩
  rw [← hfirst, hblank, hblank, List.takeWhile_append_of_pos hbs, List.takeWhile_append_of_pos hbs,
    List.takeWhile_cons_of_neg (by simp [hc])]
  rfl

/-- **A text that ends in white space is cut alone,** whatever other than white space stands behind
it. -/
theorem kinds_append_of_endsBlank {cs : List Char} (h : endsBlank cs = true) {c : Char}
    (hc : isSpace c = false) (next : List Char) :
    kinds (cs ++ c :: next) = kinds cs ++ kinds (c :: next) := by
  have hcuts : Cuts (pieces cs) (c :: next) := by
    refine (cuts_pieces cs).of_last fun p hp => ?_
    rw [endsBlank, Option.mem_def.1 hp] at h
    obtain ⟨front, hfront⟩ := List.getLast?_eq_some_iff.1 hp
    have hstands := cuts_pieces cs
    rw [hfront, cuts_append] at hstands
    exact hstands.2.1.before_nonblank h hc next
  have htext : textOf (pieces cs) = cs := flatMap_text_pieces cs
  have hpieces := hcuts.pieces_append
  rw [htext] at hpieces
  rw [kinds, hpieces, kindsOf_append]
  rfl

end Ambient
