import Ambient.Proofs.Token.Alone
import Ambient.Proofs.Token.Quoted

/-!
# Template literals and the types inside of them

The grammar of template literals is recursive: a substitution holds a type, in which there can be
braces and further template literals (`TemplateText`, `HoleText`). The lexer does not follow it. It
ends a literal at the next backtick that no backslash precedes, wherever that backtick stands.

So a literal is one token if no type inside of it has such a backtick, neither as the mark of a
template literal nor in a quoted literal or a comment (`TemplateText.flat`). Otherwise the token
ends inside of a substitution, and what is left is read as source (`lex_template`).
-/

namespace Ambient

/-! ## The grammar -/

/-- Texts inside of a type that braces and backticks mean nothing in. -/
inductive Passage where
  | quoted (mark : Char) (hmark : mark = '"' ∨ mark = '\'')
  | block
  | line

namespace Passage

/-- The characters that open the text. -/
def opening : Passage → List Char
  | quoted mark _ => [mark]
  | block => ['/', '*']
  | line => ['/', '/']

/-- The characters that close the text. -/
def closing : Passage → List Char
  | quoted mark _ => [mark]
  | block => ['*', '/']
  | line => ['\n']

/-- Whether the text is closed behind the characters, and not before. -/
def Encloses : Passage → List Char → Prop
  | quoted mark _, body => (stringRest mark (body ++ [mark])).1 = body ++ [mark]
  | block, body => closesComment body = false
  | line, body => '\n' ∉ body

end Passage

/-- Characters of a template literal that stand for themselves. -/
def isTemplateChar (c : Char) : Bool :=
  c != '\x60' && c != '\\'

/-- Characters of a type outside of literals, comments and braces. -/
def isTypeChar (c : Char) : Bool :=
  isTemplateChar c && !(['\x7b', '\x7d', '"', '\''].contains c)

mutual

/-- What stands between the backticks of a template literal. -/
inductive TemplateText where
  | done
  | char (c : Char) (hc : isTemplateChar c = true) (rest : TemplateText)
  /-- A backslash and the character behind it. -/
  | escape (c : Char) (rest : TemplateText)
  /-- A dollar sign and a type in braces. -/
  | hole (inside : HoleText) (rest : TemplateText)

/-- What stands between the braces of a substitution. -/
inductive HoleText where
  | done
  | char (c : Char) (hc : isTypeChar c = true) (rest : HoleText)
  /-- The mark in front of a character of a name that is given by its number. -/
  | unicode (rest : HoleText)
  | passage (p : Passage) (body : List Char) (hbody : p.Encloses body) (rest : HoleText)
  | braces (inside rest : HoleText)
  /-- A template literal. -/
  | template (inside : TemplateText) (rest : HoleText)

end

mutual

/-- The characters of the text. -/
def TemplateText.text : TemplateText → List Char
  | .done => []
  | .char c _ rest => c :: rest.text
  | .escape c rest => '\\' :: c :: rest.text
  | .hole inside rest => '$' :: '\x7b' :: (inside.text ++ '\x7d' :: rest.text)

/-- The characters of the text. -/
def HoleText.text : HoleText → List Char
  | .done => []
  | .char c _ rest => c :: rest.text
  | .unicode rest => '\\' :: 'u' :: rest.text
  | .passage p body _ rest => p.opening ++ (body ++ (p.closing ++ rest.text))
  | .braces inside rest => '\x7b' :: (inside.text ++ '\x7d' :: rest.text)
  | .template inside rest => '\x60' :: (inside.text ++ '\x60' :: rest.text)

end

mutual

/-- Whether there is no backtick in a substitution, unless a backslash precedes it. -/
def TemplateText.flat : TemplateText → Bool
  | .done => true
  | .char _ _ rest | .escape _ rest => rest.flat
  | .hole inside rest => inside.flat && rest.flat

/-- Whether there is no backtick in the type, unless a backslash precedes it. -/
def HoleText.flat : HoleText → Bool
  | .done => true
  | .char _ _ rest | .unicode rest => rest.flat
  | .passage _ body _ rest => !closesTemplate body && rest.flat
  | .braces inside rest => inside.flat && rest.flat
  | .template _ _ => false

end

/-- The literal with its backticks. -/
def TemplateText.literal (t : TemplateText) : String :=
  String.ofList ('\x60' :: (t.text ++ ['\x60']))

/-! ## Texts that a literal goes on behind, and texts that it ends in -/

/-- A literal that goes on with the text goes on behind it. -/
def GoesOn (cs : List Char) : Prop :=
  ∀ next, templateRest (cs ++ next) = cs ++ templateRest next

/-- A literal that goes on with the text ends at a backtick in it. -/
def StopsIn (cs : List Char) : Prop :=
  ∃ front back, cs = front ++ '\x60' :: back ∧
    ∀ next, templateRest (cs ++ next) = front ++ ['\x60']

section Scan

variable {as bs cs : List Char} {c : Char}

theorem templateRest_char (hc : isTemplateChar c = true) (cs : List Char) :
    templateRest (c :: cs) = c :: templateRest cs := by
  have hne : c ≠ '\x60' ∧ c ≠ '\\' := by simpa [isTemplateChar] using hc
  rw [templateRest_cons hne.2, if_neg hne.1]

theorem GoesOn.nil : GoesOn [] := by
  intro next
  rfl

theorem GoesOn.char (hc : isTemplateChar c = true) (h : GoesOn cs) : GoesOn (c :: cs) := by
  intro next
  rw [List.cons_append, templateRest_char hc, h next, List.cons_append]

theorem GoesOn.escape (c : Char) (h : GoesOn cs) : GoesOn ('\\' :: c :: cs) := by
  intro next
  show '\\' :: c :: templateRest (cs ++ next) = _
  rw [h next]
  rfl

theorem GoesOn.append (ha : GoesOn as) (hb : GoesOn bs) : GoesOn (as ++ bs) := by
  intro next
  rw [List.append_assoc, ha, hb, List.append_assoc]

theorem StopsIn.backtick (cs : List Char) : StopsIn ('\x60' :: cs) := by
  refine ⟨[], cs, rfl, fun next => ?_⟩
  simp [templateRest]

theorem StopsIn.append_right (ha : StopsIn as) (bs : List Char) : StopsIn (as ++ bs) := by
  obtain ⟨front, back, rfl, h⟩ := ha
  refine ⟨front, back ++ bs, by simp, fun next => ?_⟩
  rw [List.append_assoc, h]

theorem GoesOn.stopsIn (ha : GoesOn as) (hb : StopsIn bs) : StopsIn (as ++ bs) := by
  obtain ⟨front, back, rfl, h⟩ := hb
  refine ⟨as ++ front, back, by simp, fun next => ?_⟩
  rw [List.append_assoc, ha, h, List.append_assoc]

theorem StopsIn.char (hc : isTemplateChar c = true) (h : StopsIn cs) : StopsIn (c :: cs) :=
  (GoesOn.char hc .nil).stopsIn h

/-- The body of a literal or comment without a backtick, and the character that closes it. -/
theorem goesOn_of_closesTemplate (hb : closesTemplate bs = false) (hc : isTemplateChar c = true) :
    GoesOn (bs ++ [c]) := by
  induction bs using closesTemplate.induct with
  | case1 => exact .char hc .nil
  -- a backslash at the end takes in the character behind the body
  | case2 => exact .escape c .nil
  | case3 d bs ih => exact .escape d (ih hb)
  | case4 bs h₁ h₂ => simp [closesTemplate] at hb
  | case5 d bs h₁ h₂ hd ih =>
    have hne : d ≠ '\\' := ne_backslash h₁ h₂
    rw [closesTemplate_cons hne, if_neg hd] at hb
    exact .char (by simp [isTemplateChar, hd, hne]) (ih hb)

theorem stopsIn_of_closesTemplate (hb : closesTemplate bs = true) : StopsIn bs := by
  induction bs using closesTemplate.induct with
  | case1 => cases hb
  | case2 => cases hb
  | case3 d bs ih => exact (GoesOn.escape d .nil).stopsIn (ih hb)
  | case4 bs h₁ h₂ => exact .backtick bs
  | case5 d bs h₁ h₂ hd ih =>
    have hne : d ≠ '\\' := ne_backslash h₁ h₂
    rw [closesTemplate_cons hne, if_neg hd] at hb
    exact .char (by simp [isTemplateChar, hd, hne]) (ih hb)

end Scan

/-! ## The lexer and the grammar -/

/-- Whether a literal goes on behind the text, or ends in it. -/
def Scanned (flat : Bool) (cs : List Char) : Prop :=
  if flat then GoesOn cs else StopsIn cs

namespace Scanned

variable {f g : Bool} {as bs cs : List Char}

theorem goesOn_append (ha : GoesOn as) (hb : Scanned g bs) : Scanned g (as ++ bs) := by
  cases g with
  | true => exact GoesOn.append ha hb
  | false => exact GoesOn.stopsIn ha hb

theorem append (ha : Scanned f as) (hb : Scanned g bs) : Scanned (f && g) (as ++ bs) := by
  cases f with
  | true => exact hb.goesOn_append ha
  | false => exact StopsIn.append_right ha bs

theorem char {c : Char} (hc : isTemplateChar c = true) (h : Scanned g cs) : Scanned g (c :: cs) :=
  h.goesOn_append (.char hc .nil)

theorem escape (c : Char) (h : Scanned g cs) : Scanned g ('\\' :: c :: cs) :=
  h.goesOn_append (.escape c .nil)

end Scanned

theorem Passage.goesOn_opening (p : Passage) : GoesOn p.opening := by
  cases p with
  | quoted mark hmark =>
    have hc : isTemplateChar mark = true := by rcases hmark with rfl | rfl <;> decide
    exact .char hc .nil
  | block | line => exact .char (by decide) (.char (by decide) .nil)

/-- What closes a text starts with a character that closes no template literal. -/
theorem Passage.closing_eq (p : Passage) :
    ∃ c cs, p.closing = c :: cs ∧ isTemplateChar c = true ∧ GoesOn cs := by
  cases p with
  | quoted mark hmark =>
    have hc : isTemplateChar mark = true := by rcases hmark with rfl | rfl <;> decide
    exact ⟨mark, [], rfl, hc, .nil⟩
  | block => exact ⟨'*', ['/'], rfl, by decide, .char (by decide) .nil⟩
  | line => exact ⟨'\n', [], rfl, by decide, .nil⟩

theorem Passage.scanned (p : Passage) (body : List Char) :
    Scanned (!closesTemplate body) (p.opening ++ (body ++ p.closing)) := by
  refine Scanned.goesOn_append p.goesOn_opening ?_
  cases hbody : closesTemplate body with
  | true => exact (stopsIn_of_closesTemplate hbody).append_right p.closing
  | false =>
    obtain ⟨c, cs, hclosing, hc, hcs⟩ := p.closing_eq
    have hgoesOn : GoesOn ((body ++ [c]) ++ cs) := (goesOn_of_closesTemplate hbody hc).append hcs
    rw [hclosing, List.append_cons]
    exact hgoesOn

theorem isTemplateChar_of_isTypeChar {c : Char} (h : isTypeChar c = true) :
    isTemplateChar c = true := by
  rw [isTypeChar, Bool.and_eq_true] at h
  exact h.1

mutual

theorem TemplateText.scanned : (t : TemplateText) → Scanned t.flat t.text
  | .done => by
    rw [TemplateText.flat, TemplateText.text]
    exact GoesOn.nil
  | .char c hc rest => by
    rw [TemplateText.flat, TemplateText.text]
    exact rest.scanned.char hc
  | .escape c rest => by
    rw [TemplateText.flat, TemplateText.text]
    exact rest.scanned.escape c
  | .hole inside rest => by
    rw [TemplateText.flat, TemplateText.text]
    have hrest : Scanned rest.flat ('\x7d' :: rest.text) := rest.scanned.char (by decide)
    exact ((inside.scanned.append hrest).char (by decide)).char (by decide)

theorem HoleText.scanned : (t : HoleText) → Scanned t.flat t.text
  | .done => by
    rw [HoleText.flat, HoleText.text]
    exact GoesOn.nil
  | .char c hc rest => by
    rw [HoleText.flat, HoleText.text]
    exact rest.scanned.char (isTemplateChar_of_isTypeChar hc)
  | .unicode rest => by
    rw [HoleText.flat, HoleText.text]
    exact rest.scanned.escape 'u'
  | .passage p body _ rest => by
    rw [HoleText.flat, HoleText.text, ← List.append_assoc body, ← List.append_assoc]
    exact (p.scanned body).append rest.scanned
  | .braces inside rest => by
    rw [HoleText.flat, HoleText.text]
    have hrest : Scanned rest.flat ('\x7d' :: rest.text) := rest.scanned.char (by decide)
    exact (inside.scanned.append hrest).char (by decide)
  | .template inside rest => by
    rw [HoleText.flat, HoleText.text]
    exact StopsIn.backtick _

end

/-! ## Tokens -/

/-- The token that a template literal is at the front of a source. -/
def templateToken (s : String) : Token :=
  { kind := .template s, text := s.toList, start := 0 }

/-- Behind a template literal the lexer starts anew. -/
theorem lexChars_template {text rest : List Char}
    (h : templateRest (text ++ rest) = text) :
    lexChars ('\x60' :: text ++ rest) =
      (lexChars rest).cons (templateToken (String.ofList ('\x60' :: text))) := by
  have hstands : Piece.Stands
      ⟨'\x60' :: text, .token (.template (String.ofList ('\x60' :: text)))⟩ rest := by
    refine ⟨'\x60', text, rfl, ?_⟩
    show Piece.ofKind ('\x60' :: templateRest (text ++ rest)) _ = _
    rw [h]
    rfl
  rw [lexChars_append hstands, templateToken, String.toList_ofList]

/-- The front of a literal that is one token, and what is left of the literal. -/
theorem TemplateText.literal_split (t : TemplateText) :
    ∃ front back : List Char, t.literal.toList = ('\x60' :: front) ++ back ∧
      (back = [] ↔ t.flat = true) ∧
      ∀ rest, templateRest (front ++ (back ++ rest)) = front := by
  have hscanned := t.scanned
  have hliteral : t.literal.toList = '\x60' :: (t.text ++ ['\x60']) := by
    rw [literal, String.toList_ofList]
  rw [hliteral]
  cases hflat : t.flat with
  | true =>
    rw [hflat] at hscanned
    -- the literal goes on up to its own backtick
    refine ⟨t.text ++ ['\x60'], [], (List.append_nil _).symm, by simp, fun rest => ?_⟩
    have hstop : templateRest ('\x60' :: rest) = ['\x60'] := by simp [templateRest]
    rw [List.nil_append, List.append_assoc, List.singleton_append]
    exact (hscanned _).trans (by rw [hstop])
  | false =>
    rw [hflat] at hscanned
    -- it ends before, and its own backtick is left at least
    obtain ⟨front, back, htext, hstop⟩ := hscanned
    refine ⟨front ++ ['\x60'], back ++ ['\x60'], by simp [htext], by simp, fun rest => ?_⟩
    have hrest := hstop (['\x60'] ++ rest)
    rw [htext] at hrest
    simpa using hrest

/-- **A template literal is one token if it is flat, and only then.** What stands behind the literal
is cut as it is cut alone. If the literal is not flat, its token is a proper front of it, and what
is left of the literal is cut together with what stands behind. -/
theorem lex_template (t : TemplateText) : ∃ front back : String,
    t.literal = front ++ back ∧ (back = "" ↔ t.flat = true) ∧
      ∀ rest : String,
        lex (t.literal ++ rest) = (lex (back ++ rest)).cons (templateToken front) := by
  obtain ⟨front, back, hliteral, hback, hfront⟩ := t.literal_split
  refine ⟨String.ofList ('\x60' :: front), String.ofList back, ?_, ?_, fun rest => ?_⟩
  · rw [← String.toList_inj, hliteral, String.toList_append, String.toList_ofList,
      String.toList_ofList]
  · rw [← hback, ← String.toList_inj, String.toList_ofList]
    rfl
  · rw [lex, lex, String.toList_append, String.toList_append, hliteral, String.toList_ofList,
      List.append_assoc]
    exact lexChars_template (hfront rest.toList)

/-- A type in a substitution can have braces, but no backtick that ends the literal. -/
example : (lex "\x60a$\x7b\x7bb\x7d\x7d\x60;").tokens.length = 2 ∧
    (lex "\x60a$\x7b\x60b\x60\x7d\x60;").tokens.length = 4 := by
  decide

end Ambient
