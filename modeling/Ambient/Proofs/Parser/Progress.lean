import Ambient.Proofs.Parser.TwinDecls
import Ambient.Proofs.Token.Positions

/-!
# The parser comes to its end

The loops of the parser and the nesting of its calls are bounded by a number, and reaching that
bound would be an error of its own. It is never reached (`lex_terminates`): every round of every loop
passes a token or fails, unless the source is at its end, where every loop stops; and every reader
of types or blocks is called behind a token that its caller has passed. A bound above the number of
tokens is therefore as good as none.
-/

namespace Ambient

/-- A source is its own twin. -/
theorem Twin.lexChars (cs : List Char) : Twin (· = ·) (lexChars cs) (lexChars cs) :=
  .self (fun _ => kind_ne_eof_lexChars) (kind_eof_lexChars cs)

theorem Ends.eq {l : Lexed} {n : Nat} {α : Type} {R : α → α → Prop}
    {x y : Except ParseError (α × Cursor)} (h : Ends (· = ·) l l n R x y)
    (hR : ∀ a b, R a b → a = b) : x = y := by
  cases h with
  | ok _ _ h => rw [hR _ _ h]
  | error _ h _ _ => rw [h.eq fun _ _ ht => ht.eq fun _ _ => rfl]

/-! ## Rounds -/

/-- From the position `i` on, a parser passes at least one token or fails, and it does not fail
because a bound was reached. -/
def Lexed.Advances (l : Lexed) (i : Nat) {α : Type} (p : Parser α) : Prop :=
  match p (l.cursorAt i) with
  | .ok (_, c) => ∃ j, i < j ∧ j ≤ l.tokens.length ∧ c = l.cursorAt j
  | .error e => e.cause ≠ .exhausted

theorem Twin.Agree.advances {l m : Lexed} {S : String → String → Prop} {tw : Twin S l m} {i : Nat}
    {α β : Type} {p : Parser α} {q : Parser β} {R : α → β → Prop} (h : tw.Agree i (i + 1) p q R)
    (hi : i ≤ l.tokens.length) : l.Advances i p := by
  have h := h hi
  rw [Lexed.Advances]
  generalize p (l.cursorAt i) = x at h ⊢
  generalize q (m.cursorAt i) = y at h
  cases h with
  | ok hn hj _ => exact ⟨_, hn, hj, rfl⟩
  | error _ _ hc _ => exact hc

/-- What one round of a loop does that starts at the position `i`. The bound `n` is one on the
rounds of the loops inside it, `k` and `b` are bounds on the nesting of types and of blocks. -/
structure Lexed.RoundsAdvance (l : Lexed) (i n k b : Nat) : Prop where
  /-- An item of a file or of a block. -/
  item (hi : i < l.tokens.length) :
    l.Advances i (Parser.item n (Parser.readTy k) (Parser.readBlock b))
  member (hi : i < l.tokens.length) : l.Advances i (Parser.member n (Parser.readTy k))
  classMember (hi : i < l.tokens.length) : l.Advances i (Parser.classMember n (Parser.readTy k))
  enumMember : l.Advances i Parser.enumMember
  declarator : l.Advances i (Parser.declarator (Parser.readTy k))
  exportedName : l.Advances i Parser.exportedName
  param (inSuper : Bool) : l.Advances i (Parser.param (Parser.readTy k) inSuper)
  typeParam (inSuper : Bool) : l.Advances i (Parser.typeParam (Parser.readTy k) inSuper)
  tupleElement : l.Advances i (Parser.tupleElement (Parser.readTy k))
  /-- An argument of a type, or a type of an `extends` or `implements` list. -/
  ty (form : TyForm) (inSuper : Bool) : l.Advances i (Parser.readTy k form inSuper)
  /-- A type between two `|`. -/
  intersected (inSuper : Bool) : l.Advances i (Parser.intersected n (Parser.readTy k) inSuper)
  /-- A type between two `&`. -/
  postfixed (inSuper : Bool) : l.Advances i (Parser.postfixed n (Parser.readTy k) inSuper)
  /-- A type looks at its reader of types behind its first token only. -/
  nestedTypes (ty : TyReader) (hty : ∀ j, i < j → ∀ form inSuper,
      ty form inSuper (l.cursorAt j) = Parser.readTy k form inSuper (l.cursorAt j))
      (inSuper : Bool) :
    Parser.full n ty inSuper (l.cursorAt i) =
        Parser.full n (Parser.readTy k) inSuper (l.cursorAt i) ∧
      Parser.postfixed n ty inSuper (l.cursorAt i) =
        Parser.postfixed n (Parser.readTy k) inSuper (l.cursorAt i)
  /-- An item looks at its reader of blocks behind its first token only. -/
  nestedBlocks (block : Parser (List Item))
      (hblock : ∀ j, i < j → block (l.cursorAt j) = Parser.readBlock b (l.cursorAt j)) :
    Parser.item n (Parser.readTy k) block (l.cursorAt i) =
      Parser.item n (Parser.readTy k) (Parser.readBlock b) (l.cursorAt i)

/-- Every loop that starts at the end of a source stops there. -/
structure Lexed.StopsAtEnd (l : Lexed) : Prop where
  itemsUntil {α : Type} (close : Kind) (item : Parser (Option α)) (n : Nat) :
    Parser.itemsUntil close item (n + 1) (l.cursorAt l.tokens.length) =
      .ok ([], l.cursorAt l.tokens.length)
  commaList {α : Type} (close : Kind) (element : Parser α) (n : Nat) :
    Parser.commaList close element (n + 1) (l.cursorAt l.tokens.length) =
      .ok ([], l.cursorAt l.tokens.length)
  expression (depth : Nat) (passed : List Token) : passExpression depth passed [] = (passed, [])
  computedName (depth : Nat) (passed : List Token) : passComputedName? depth passed [] = none
  pattern (depth : Nat) (passed : List Token) : passPattern? depth passed [] = none

/-- One round of a scan stops, or passes a token. -/
structure ScansAdvance : Prop where
  expression (depth : Nat) (passed : List Token) (t : Token) (ts : List Token) :
    passExpression depth passed (t :: ts) = (passed, t :: ts) ∨
      ∃ d, passExpression depth passed (t :: ts) = passExpression d (t :: passed) ts
  computedName (depth : Nat) (passed : List Token) (t : Token) (ts : List Token) :
    passComputedName? depth passed (t :: ts) = some (t :: passed, ts) ∨
      ∃ d, passComputedName? depth passed (t :: ts) = passComputedName? d (t :: passed) ts
  pattern (depth : Nat) (passed : List Token) (t : Token) (ts : List Token) :
    passPattern? depth passed (t :: ts) = some (t :: passed, ts) ∨
      ∃ d, passPattern? depth passed (t :: ts) = passPattern? d (t :: passed) ts

/-- The parser comes to its end on a source. -/
structure Lexed.Terminates (l : Lexed) : Prop where
  /-- The bound, one more than there are tokens, is not reached. -/
  not_exhausted (e : ParseError) (h : l.parse = .error e) : e.cause ≠ .exhausted
  /-- A larger bound makes no difference. -/
  bound (b : Nat) (hb : l.tokens.length < b) :
    Parser.file b l.cursor = Parser.file (l.tokens.length + 1) l.cursor
  rounds (i n k b : Nat) (hi : i ≤ l.tokens.length) (hn : l.tokens.length < n + i)
    (hk : l.tokens.length < k + i) (hb : l.tokens.length < b + i) : l.RoundsAdvance i n k b
  ends : l.StopsAtEnd
  scans : ScansAdvance

theorem scansAdvance : ScansAdvance where
  expression depth passed t ts := by
    rw [passExpression_cons]
    cases expressionDepth depth t.kind with
    | none => exact .inl rfl
    | some d => exact .inr ⟨d, rfl⟩
  computedName depth passed t ts := by
    rw [passComputedName?_cons]
    cases computedDepth depth t.kind with
    | none => exact .inl rfl
    | some d => exact .inr ⟨d, rfl⟩
  pattern depth passed t ts := by
    rw [passPattern?_cons]
    cases patternDepth depth t.kind with
    | none => exact .inl rfl
    | some d => exact .inr ⟨d, rfl⟩

section

variable {l : Lexed} (tw : Twin (· = ·) l l)
include tw

theorem Twin.stopsAtEnd : l.StopsAtEnd := by
  have heof : (l.cursorAt l.tokens.length).kindAt 0 = .eof := by
    rw [Lexed.cursorAt, List.drop_length]
    exact tw.eof.1
  refine ⟨fun {α} close item n => ?_, fun {α} close element n => ?_, fun _ _ => rfl,
    fun _ _ => rfl, fun _ _ => rfl⟩
  · show (if (l.cursorAt l.tokens.length).kindAt 0 = close ∨
        (l.cursorAt l.tokens.length).kindAt 0 = .eof then (pure [] : Parser (List α)) else _) _ = _
    rw [if_pos (.inr heof)]
    rfl
  · show (if (l.cursorAt l.tokens.length).kindAt 0 = close ∨
        (l.cursorAt l.tokens.length).kindAt 0 = .eof then (pure [] : Parser (List α)) else _) _ = _
    rw [if_pos (.inr heof)]
    rfl

theorem Twin.roundsAdvance {i n k b : Nat} (hi : i ≤ l.tokens.length)
    (hn : l.tokens.length < n + i) (hk : l.tokens.length < k + i)
    (hb : l.tokens.length < b + i) : l.RoundsAdvance i n k b := by
  have h := tw.readers_readTy hn hn hk hk
  have hty (form : TyForm) (inSuper : Bool) := tw.agree_readTy hk hk form inSuper
  have hblock (j : Nat) (hj : i < j) :
      tw.Agree j (j + 1) (Parser.readBlock b) (Parser.readBlock b)
        (List.Forall₂ (Item.Like (· = ·))) :=
    tw.agree_readBlock (by omega) (by omega)
  constructor
  case item =>
    intro hlt
    exact ((tw.agree_item h hblock).weaken (by omega)).advances hi
  case member =>
    intro hlt
    exact (h.member.weaken (by omega)).advances hi
  case classMember =>
    intro hlt
    exact (h.classMember.weaken (by omega)).advances hi
  case enumMember => exact (tw.agree_enumMember i).advances hi
  case declarator => exact h.declarator.advances hi
  case exportedName => exact (tw.agree_exportedName i).advances hi
  case param => exact fun inSuper => (h.param inSuper).advances hi
  case typeParam => exact fun inSuper => (h.typeParam inSuper).advances hi
  case tupleElement =>
    have helement : tw.Agree i (i + 1) (Parser.tupleElement (Parser.readTy k))
        (Parser.tupleElement (Parser.readTy k)) (TupleElement.Like (· = ·)) :=
      Twin.agree_tupleElement fun j hj => tw.agree_readTy (by omega) (by omega) _ _
    exact helement.advances hi
  case ty => exact fun form inSuper => (hty form inSuper).advances hi
  case intersected => exact fun inSuper => (h.intersected inSuper).advances hi
  case postfixed => exact fun inSuper => (h.postfixed inSuper).advances hi
  case nestedTypes =>
    intro ty hty inSuper
    -- a reader that agrees behind the position is as good as `readTy`
    have h' : tw.Readers i n n ty (Parser.readTy k) := by
      refine ⟨hn, hn, fun {j} form inSuper hj hle => ?_⟩
      rw [hty j hj]
      exact tw.agree_readTy (by omega) (by omega) form inSuper hle
    exact ⟨(h'.full inSuper hi).eq fun t _ ht => (Ty.Like.differsIn t ht).eq,
      (h'.postfixed inSuper hi).eq fun t _ ht => (Ty.Like.differsIn t ht).eq⟩
  case nestedBlocks =>
    intro block hblock'
    have h' (j : Nat) (hj : i < j) : tw.Agree j (j + 1) block (Parser.readBlock b)
        (List.Forall₂ (Item.Like (· = ·))) := by
      intro hle
      rw [hblock' j hj]
      exact hblock j hj hle
    refine (tw.agree_item h h' hi).eq fun x y hxy => ?_
    cases hxy with
    | none => rfl
    | some hxy => rw [(Item.Like.differsIn _ hxy).eq]

end

/-- **The parser comes to its end on every source.** Its bound on rounds and nesting, one more than
the source has tokens, is never reached. -/
theorem lex_terminates (source : String) : (lex source).Terminates := by
  have tw := Twin.lexChars source.toList
  constructor
  case rounds => exact fun i n k b hi hn hk hb => tw.roundsAdvance hi hn hk hb
  case ends => exact tw.stopsAtEnd
  case scans => exact scansAdvance
  case bound =>
    intro b hb
    exact (tw.agree_file hb (Nat.lt_succ_self _) (Nat.zero_le _)).eq fun _ _ h => h.differsIn.eq
  case not_exhausted =>
    intro e he
    rcases tw.parse with ⟨f, _, hf, -, -⟩ | ⟨c, _, k, -, hc, -, hne, -⟩
    · cases hf.symm.trans he
    · cases hc.symm.trans he
      exact hne

end Ambient
