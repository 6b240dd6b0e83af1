import Ambient.Proofs.Parser.Names

/-!
# Tokens with brackets in pairs

`Bracketed` is the grammar of tokens in which each bracket has its partner. The scan over an
expression passes such tokens without a look at what stands behind them, if no comma and no
semicolon stands outside of their brackets (`passExpression_bracketed`). So an expression ends right
behind them when one of these or a closing brace follows (`expression_bracketed`).
-/

namespace Ambient

/-- The bracket that closes a bracket. -/
def Kind.closing? : Kind → Option Kind
  | .symbol .lparen => some .rparen
  | .symbol .lbracket => some .rbracket
  | .symbol .lbrace => some .rbrace
  | _ => none

/-- Whether the token is a bracket. Angle brackets are none: in an expression they compare. -/
def Kind.isBracket : Kind → Bool
  | .symbol .lparen | .symbol .rparen | .symbol .lbracket | .symbol .rbracket | .symbol .lbrace
  | .symbol .rbrace => true
  | _ => false

/-- Tokens in which the brackets come in pairs. Commas and semicolons stand inside of brackets only,
those of the tokens themselves or others around them. -/
inductive Bracketed : (inside : Bool) → List Kind → Prop
  | nil {i : Bool} : Bracketed i []
  | cons {i : Bool} {k : Kind} {ks : List Kind} (hk : k.isBracket = false)
      (hs : i = false → k ≠ .comma ∧ k ≠ .semicolon) (h : Bracketed i ks) : Bracketed i (k :: ks)
  | pair {i : Bool} {k close : Kind} {ks ls : List Kind} (hk : k.closing? = some close)
      (h : Bracketed true ks) (hs : Bracketed i ls) : Bracketed i (k :: (ks ++ close :: ls))

theorem Kind.closing?_eq_some {k close : Kind} (h : k.closing? = some close) :
    k = .lparen ∧ close = .rparen ∨ k = .lbracket ∧ close = .rbracket ∨
      k = .lbrace ∧ close = .rbrace := by
  unfold closing? at h
  split at h <;> simp_all

/-! ## Expressions -/

/-- The scan passes a token that is no bracket, and no separator unless inside of brackets. -/
theorem passExpression_other {depth : Nat} {passed ts : List Token} {t : Token}
    (hk : t.kind.isBracket = false) (hs : depth = 0 → t.kind ≠ .comma ∧ t.kind ≠ .semicolon) :
    passExpression depth passed (t :: ts) = passExpression depth (t :: passed) ts := by
  rw [passExpression]
  split <;> simp_all [Kind.isBracket]

/-- The scan passes an opening bracket, being inside of it then. -/
theorem passExpression_open {depth : Nat} {passed ts : List Token} {t : Token} {close : Kind}
    (hk : t.kind.closing? = some close) :
    passExpression depth passed (t :: ts) = passExpression (depth + 1) (t :: passed) ts := by
  rcases Kind.closing?_eq_some hk with ⟨h, -⟩ | ⟨h, -⟩ | ⟨h, -⟩ <;> simp [passExpression, h]

theorem passExpression_close {depth : Nat} {passed ts : List Token} {t : Token} {k : Kind}
    (hk : k.closing? = some t.kind) :
    passExpression (depth + 1) passed (t :: ts) = passExpression depth (t :: passed) ts := by
  rcases Kind.closing?_eq_some hk with ⟨-, h⟩ | ⟨-, h⟩ | ⟨-, h⟩ <;> simp [passExpression, h]

/-- **The scan passes bracketed tokens**, whatever stands behind them. -/
theorem passExpression_bracketed {i : Bool} {depth : Nat} {ts : List Token}
    (h : Bracketed i (ts.map Token.kind)) (hd : i = true → depth ≠ 0) (passed rest : List Token) :
    passExpression depth passed (ts ++ rest) =
      passExpression depth (ts.reverse ++ passed) rest := by
  generalize hks : ts.map Token.kind = ks at h
  induction h generalizing depth ts passed rest with
  | nil =>
    obtain rfl := List.map_eq_nil_iff.1 hks
    rfl
  | @cons i k ks hk hs _ ih =>
    obtain ⟨t, ts, rfl, rfl, rfl⟩ := List.map_eq_cons_iff.1 hks
    have hsep (h0 : depth = 0) : t.kind ≠ .comma ∧ t.kind ≠ .semicolon :=
      hs (Bool.eq_false_iff.2 fun hi => hd hi h0)
    rw [List.cons_append, passExpression_other hk hsep, ih hd _ _ rfl, List.reverse_cons,
      List.append_assoc]
    rfl
  | @pair i k close ks ls hk _ _ ih ihs =>
    obtain ⟨t, r, rfl, rfl, hr⟩ := List.map_eq_cons_iff.1 hks
    obtain ⟨us, r', rfl, rfl, hr'⟩ := List.map_eq_append_iff.1 hr
    obtain ⟨u, vs, rfl, rfl, rfl⟩ := List.map_eq_cons_iff.1 hr'
    calc passExpression depth passed (t :: (us ++ u :: vs) ++ rest)
        = passExpression (depth + 1) (t :: passed) (us ++ (u :: (vs ++ rest))) := by
          rw [List.cons_append, passExpression_open hk, List.append_assoc, List.cons_append]
      _ = passExpression depth (u :: (us.reverse ++ t :: passed)) (vs ++ rest) := by
          rw [ih (fun _ => Nat.succ_ne_zero depth) _ _ rfl, passExpression_close hk]
      _ = passExpression depth ((t :: (us ++ u :: vs)).reverse ++ passed) rest := by
          rw [ihs hd _ _ rfl]
          simp

/-- What can stand behind an expression: something that ends it, or the end of the source. -/
def BehindExpression (ts : List Token) : Prop :=
  ∀ t ∈ ts.head?, EndsExpression t.kind

/-- **An expression with brackets in pairs is passed up to what ends it.** -/
theorem expression_bracketed {e rest : List Token} {eof : Token}
    (h : Bracketed false (e.map Token.kind)) (hrest : BehindExpression rest) :
    Parser.expression ⟨e ++ rest, eof⟩ = .ok (Parser.written e.reverse, ⟨rest, eof⟩) := by
  have hpass : passExpression 0 [] (e ++ rest) = (e.reverse, rest) := by
    rw [passExpression_bracketed h (by simp), List.append_nil]
    cases rest with
    | nil => rfl
    | cons t ts =>
      have ht : EndsExpression t.kind := hrest t rfl
      rcases ht with h | h | h <;> simp [passExpression, h]
  rw [Parser.expression]
  simp only [hpass]

/-! ## Behind a token -/

namespace Parser

variable {α : Type} {p : Parser α} {k : Kind}

theorem after?_of_ne {c : Cursor} (h : c.kindAt 0 ≠ k) : after? k p c = .ok (none, c) := by
  rw [after?, bind_apply, accept, if_neg h]
  rfl

theorem after?_of_kind {t : Token} {ts : List Token} {eof : Token} (h : t.kind = k) :
    after? k p ⟨t :: ts, eof⟩ = (some <$> p) ⟨ts, eof⟩ := by
  rw [after?, bind_apply, accept, if_pos (by exact h)]
  rfl

end Parser

end Ambient
