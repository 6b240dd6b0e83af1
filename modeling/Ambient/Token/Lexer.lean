import Ambient.Token.Piece

/-!
# Tokens of a source

`lex` turns the pieces of a source into tokens: skipped pieces go into the gap before the next
token, and the last documentation comment before a token is attached to it. Gaps and texts of the
tokens are the source again (`source_lex`).
-/

namespace Ambient

open Text (byteLength)

/-- Tokens found so far, and what waits for the next one. -/
structure LexState where
  tokens : Array Token := #[]
  /-- The characters skipped since the last token, from the last to the first. -/
  skipped : List Char := []
  /-- The byte offset behind the skipped characters. -/
  offset : Nat := 0
  doc : Option String := none

namespace LexState

/-- Takes in the next piece. -/
def step (s : LexState) (p : Piece) : LexState :=
  let offset := s.offset + byteLength p.text
  match p.content with
  | .skipped => { s with skipped := p.text.reverseAux s.skipped, offset }
  | .doc d => { s with skipped := p.text.reverseAux s.skipped, offset, doc := some d }
  | .token kind =>
    let t : Token :=
      { kind, gap := s.skipped.reverse, text := p.text, start := s.offset, doc := s.doc }
    { tokens := s.tokens.push t, skipped := [], offset, doc := none }

/-- The tokens at the end of the source. -/
def finish (s : LexState) : Lexed :=
  { tokens := s.tokens.toList
    eof := { kind := .eof, gap := s.skipped.reverse, start := s.offset, doc := s.doc } }

end LexState

/-- The tokens of a list of characters. -/
def lexChars (cs : List Char) : Lexed :=
  ((cutOnto #[] 0 cs).foldl LexState.step {}).finish

/-- The tokens of a source. -/
def lex (source : String) : Lexed :=
  lexChars source.toList

/-- The tokens of a source, through the pieces that it consists of. -/
theorem lexChars_eq_foldl (cs : List Char) :
    lexChars cs = ((pieces cs).foldl LexState.step {}).finish := by
  simp [lexChars, pieces, ← Array.foldl_toList, toList_cutOnto]

namespace LexState

/-- The characters taken in so far. -/
def source (s : LexState) : List Char :=
  (s.tokens.toList.flatMap fun t => t.gap ++ t.text) ++ s.skipped.reverse

theorem source_step (s : LexState) (p : Piece) : (s.step p).source = s.source ++ p.text := by
  unfold step
  split <;> simp [source, List.reverseAux_eq]

theorem source_foldl_step (ps : List Piece) (s : LexState) :
    (ps.foldl step s).source = s.source ++ ps.flatMap (·.text) := by
  induction ps generalizing s with
  | nil => simp
  | cons p ps ih => simp [ih, source_step]

theorem source_finish (s : LexState) : s.finish.source = s.source := by
  simp [finish, Lexed.source, Lexed.toList, source]

end LexState

/-- Gaps and texts of the tokens are the source. -/
theorem source_lexChars (cs : List Char) : (lexChars cs).source = cs := by
  rw [lexChars_eq_foldl, LexState.source_finish, LexState.source_foldl_step, flatMap_text_pieces]
  simp [LexState.source]

end Ambient
