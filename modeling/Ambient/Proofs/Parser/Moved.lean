import Ambient.Proofs.Parser.TwinTypes

/-!
# Tokens that have moved

When something is added to a source, the tokens behind it stand in other places than before. Only
errors tell of places: parameters are read from tokens that have moved as before (`params_moved`).
-/

namespace Ambient

/-- The same token in another place. -/
def Token.Moved (t u : Token) : Prop :=
  u = { t with start := u.start }

/-- The same tokens in other places. -/
structure Cursor.Moved (c d : Cursor) : Prop where
  rest : List.Forall₂ Token.Moved c.rest d.rest
  eof : c.eof.Moved d.eof

/-- The cursor in front of the last `k` tokens. -/
def Cursor.before (c : Cursor) (k : Nat) : Cursor :=
  { c with rest := c.rest.drop (c.rest.length - k) }

variable {t u : Token} {ts us : List Token} {c d : Cursor}

namespace Token.Moved

theorem kind (h : t.Moved u) : u.kind = t.kind := by
  rw [h]

theorem gap (h : t.Moved u) : u.gap = t.gap := by
  rw [h]

theorem text (h : t.Moved u) : u.text = t.text := by
  rw [h]

theorem doc (h : t.Moved u) : u.doc = t.doc := by
  rw [h]

theorem span (h : List.Forall₂ Token.Moved ts us) : Token.span us = Token.span ts := by
  cases h with
  | nil => rfl
  | @cons t u ts us h hs =>
    have htail : us.flatMap (fun u => u.gap ++ u.text) = ts.flatMap fun t => t.gap ++ t.text := by
      induction hs with
      | nil => rfl
      | cons h _ ih => rw [List.flatMap_cons, List.flatMap_cons, h.gap, h.text, ih]
    rw [Token.span, Token.span, h.text, htail]

end Token.Moved

/-- Tokens that have moved are twins of the tokens before. -/
theorem Cursor.Moved.twin (h : c.Moved d) (heof : c.eof.kind = .eof)
    (hne : ∀ t ∈ c.rest, t.kind ≠ .eof) :
    Twin (· = ·) ⟨c.rest, c.eof⟩ ⟨d.rest, d.eof⟩ where
  joins := joins_eq
  tokens := by
    refine List.Forall₂.imp ?_ ((List.forall₂_and_left _ _).2 ⟨hne, h.rest⟩)
    rintro t u ⟨ht, hmoved⟩
    exact ⟨hmoved.kind ▸ .same _, hmoved.doc.symm, ht⟩
  eof := ⟨heof, h.eof.kind.trans heof⟩
  doc := h.eof.doc.symm
  written {i j} _ hij hj := by
    have hspan := Token.Moved.span (List.forall₂_take (j - i) (List.forall₂_drop i h.rest))
    simp only [Lexed.written, Parser.written, Lexed.between, List.reverse_reverse, hspan]

section

variable {n m : Nat} {s : Bool} (h : c.Moved d) (heof : c.eof.kind = .eof)
  (hne : ∀ t ∈ c.rest, t.kind ≠ .eof) (hn : c.rest.length < n) (hm : c.rest.length < m)
include h heof hne hn hm

/-- **Parameters are read from tokens that have moved as before**, with the same cause if they cannot
be read. -/
theorem params_moved :
    (∀ r c', Parser.params n (Parser.readTy m) s c = .ok (r, c') →
      Parser.params n (Parser.readTy m) s d = .ok (r, d.before c'.rest.length)) ∧
    (∀ r d', Parser.params n (Parser.readTy m) s d = .ok (r, d') →
      ∃ c', Parser.params n (Parser.readTy m) s c = .ok (r, c') ∧
        c'.rest.length = d'.rest.length) ∧
    ∀ x, Parser.params n (Parser.readTy m) s c = .error x →
      ∃ pos, Parser.params n (Parser.readTy m) s d = .error ⟨x.cause, pos⟩ := by
  have tw := h.twin heof hne
  have hlength : c.rest.length = d.rest.length := h.rest.length_eq
  have hends := (tw.readers_readTy (i := 0) hn hn hm hm).params s (Nat.zero_le _)
  have hc : (⟨c.rest, c.eof⟩ : Lexed).cursorAt 0 = c := rfl
  have hd : (⟨d.rest, d.eof⟩ : Lexed).cursorAt 0 = d := rfl
  rw [hc, hd] at hends
  generalize Parser.params n (Parser.readTy m) s c = p at hends ⊢
  generalize Parser.params n (Parser.readTy m) s d = q at hends ⊢
  cases hends with
  | @ok a b j hn hj hab =>
    have hsame : a = b := Prod.ext (opt_differsIn _ hab.1).eq (params_differIn _ hab.2).eq
    subst hsame
    refine ⟨?_, ?_, ?_⟩
    · intro r c' hr
      obtain ⟨rfl, rfl⟩ := Prod.mk.inj (Except.ok.inj hr)
      have hle : j ≤ c.rest.length := hj
      have hplace : d.rest.length - (c.rest.drop j).length = j := by
        rw [List.length_drop]
        omega
      rw [Cursor.before, Lexed.cursorAt, Lexed.cursorAt, hplace]
    · intro r d' hr
      obtain ⟨rfl, rfl⟩ := Prod.mk.inj (Except.ok.inj hr)
      refine ⟨_, rfl, ?_⟩
      rw [Lexed.cursorAt, Lexed.cursorAt, List.length_drop, List.length_drop, hlength]
    · intro x hx
      cases hx
  | error hk hcause hc hd =>
    refine ⟨?_, ?_, ?_⟩
    · intro r c' hr
      cases hr
    · intro r d' hr
      cases hr
    · intro x hx
      obtain rfl := Except.error.inj hx
      rw [hcause.eq fun _ _ => tw.template]
      exact ⟨_, rfl⟩

end

end Ambient
