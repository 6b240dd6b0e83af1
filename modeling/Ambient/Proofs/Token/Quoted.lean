import Ambient.Proofs.Token.Layout

/-!
# A token in front of a text

A piece that is a token and ends where it does whatever follows leaves nothing behind it: no
characters that wait for the next token, and no documentation. The text behind it is cut as it is
cut alone, only later (`lexChars_append`). Quoted texts are such pieces, for a backslash stands in
front of every quote and every backslash in them: `lex_quote_append`.
-/

namespace Ambient

open Text (quote byteLength)

/-- A token in front of a source. Everything in the source starts later by the bytes of the token. -/
def Lexed.cons (t : Token) (l : Lexed) : Lexed where
  tokens := t :: l.tokens.map (Token.moved t.stop)
  eof := l.eof.moved t.stop

namespace LexState

/-- The state behind a token at the front of a source differs from the one at the front in the token
and in the offset. -/
theorem step_front {p : Piece} {k : Kind} (h : p.content = .token k) :
    step {} p = (moved (byteLength p.text) {}).behind #[{ kind := k, text := p.text, start := 0 }] := by
  rw [step_token {} h]
  simp [moved]

theorem finish_front (t : Token) (s : LexState) :
    ((s.moved t.stop).behind #[t]).finish = s.finish.cons t := by
  simp [finish, moved, behind, Lexed.cons, Token.moved]

end LexState

/-- **Behind a token the lexer starts anew.** -/
theorem lexChars_append {text rest : List Char} {k : Kind}
    (h : Piece.Stands ⟨text, .token k⟩ rest) :
    lexChars (text ++ rest) = (lexChars rest).cons { kind := k, text, start := 0 } := by
  have hpieces : pieces (text ++ rest) = ⟨text, .token k⟩ :: pieces rest := h.pieces_append
  have hstop : byteLength text = ({ kind := k, text, start := 0 } : Token).stop :=
    (Nat.zero_add _).symm
  rw [lexChars_eq_foldl, lexChars_eq_foldl, hpieces, List.foldl_cons, LexState.step_front rfl,
    LexState.foldl_step_behind, LexState.foldl_step_moved, hstop, LexState.finish_front]

/-- The token that a quoted text is at the front of a source. -/
def quoteToken (s : String) : Token :=
  { kind := .string s, text := (quote s).toList, start := 0 }

theorem stop_quoteToken (s : String) : (quoteToken s).stop = byteLength (quote s).toList := by
  rw [quoteToken, Token.stop, Nat.zero_add]

/-- **Quoting is undone by the lexer, whatever follows.** The quoted text is the first token, from the
front of the source to its closing quote. The tokens behind it and the end of the source are those of
what follows, with their documentation, and start as many bytes later as the quoted text has. -/
theorem lex_quote_append (s rest : String) :
    lex (quote s ++ rest) = (lex rest).cons (quoteToken s) ∧
      (quoteToken s).stop = byteLength (quote s).toList := by
  refine ⟨?_, stop_quoteToken s⟩
  rw [lex, lex, String.toList_append, quoteToken, lexChars_append (stands_quote s rest.toList)]

end Ambient
