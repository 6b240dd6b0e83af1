import Ambient.Text.Lines
import Ambient.Token.Basic
import Ambient.Token.Doc

/-!
# Pieces of a source

A source is cut into pieces from left to right: runs of white space, comments, tokens, and single
characters that mean nothing and are skipped. `Piece.first` is the piece at the front of a
non-empty text and looks only as far ahead as the piece reaches, plus two characters. `pieces` cuts
a whole source. No piece is empty (`Piece.text_ne_nil`), each one stands at the front of the text
that it was cut from (`Piece.text_prefix`), and together they are the source
(`flatMap_text_pieces`).
-/

namespace Ambient

open Text (isSpace isAlphabetic isAlphanumeric cleanDoc trimStart)

/-! ## The characters that a token takes after its first one -/

/-- Characters of an identifier after the first one. -/
def isIdentRest (c : Char) : Bool :=
  isAlphanumeric c || c == '_' || c == '$'

/-- Characters that start an identifier. -/
def isIdentStart (c : Char) : Bool :=
  isAlphabetic c || c == '_' || c == '$' || c == '#'

/-- Whether a number goes on with `c` after `prev`. A sign belongs to the number only directly
after the mark of an exponent. -/
def continuesNumber (prev c : Char) : Bool :=
  c.isAlphanum || c == '.' || c == '_' ||
    ((c == '-' || c == '+') && (prev == 'e' || prev == 'E'))

/-- The rest of a number whose last character so far is `prev`. -/
def numberRest (prev : Char) : List Char → List Char
  | [] => []
  | c :: cs => if continuesNumber prev c then c :: numberRest c cs else []

/-- What a backslash and the character after it stand for. A pair without a meaning of its own
stands for both characters. -/
def unescape (c : Char) : List Char :=
  if c = 'n' then ['\n']
  else if c = 't' then ['\t']
  else if c = 'r' then ['\r']
  else if c = '\\' then ['\\']
  else if c = '"' then ['"']
  else if c = '\'' then ['\'']
  else ['\\', c]

/-- The rest of a quoted literal after its opening quote: the characters up to and with the
closing quote, or all of them, and the value. -/
def stringRest (quote : Char) : List Char → List Char × List Char
  | [] => ([], [])
  | ['\\'] => (['\\'], [])
  | '\\' :: c :: cs =>
    let r := stringRest quote cs
    ('\\' :: c :: r.1, unescape c ++ r.2)
  | c :: cs =>
    if c = quote then ([c], [])
    else
      let r := stringRest quote cs
      (c :: r.1, c :: r.2)

/-- The rest of a template literal after its opening backtick: up to and with the next backtick
that no backslash precedes, or everything. -/
def templateRest : List Char → List Char
  | [] => []
  | ['\\'] => ['\\']
  | '\\' :: c :: cs => '\\' :: c :: templateRest cs
  | c :: cs => if c = '\x60' then [c] else c :: templateRest cs

/-- The body of a block comment after its opening mark, and whether the closing mark follows. -/
def blockBody : List Char → List Char × Bool
  | [] => ([], false)
  | '*' :: '/' :: _ => ([], true)
  | c :: cs => let r := blockBody cs; (c :: r.1, r.2)

/-- The characters up to the next line feed. -/
def lineRest (cs : List Char) : List Char :=
  cs.takeWhile (· != '\n')

/-! ## References in triple-slash comments -/

/-- The text after the first occurrence of a pattern. -/
def after? (pattern : List Char) : List Char → Option (List Char)
  | [] => if pattern.isEmpty then some [] else none
  | c :: cs =>
    if pattern.isPrefixOf (c :: cs) then some ((c :: cs).drop pattern.length)
    else after? pattern cs

/-- The double-quoted value of the first attribute with the given name, if the quote is closed. -/
def attributeValue? (name : String) (cs : List Char) : Option String := do
  let r ← after? (name.toList ++ ['=', '"']) cs
  if r.contains '"' then some (String.ofList (r.takeWhile (· != '"'))) else none

/-- The target of a reference, from the characters after three slashes: the first of the
attributes `path`, `types` and `lib` that has a closed value. -/
def reference? (line : List Char) : Option String :=
  let content := line.dropWhile fun c => c == ' ' || c == '\t'
  if "<reference".toList.isPrefixOf (trimStart content) then
    ["path", "types", "lib"].findSome? fun name =>
      (attributeValue? name content).map fun value => name ++ ":" ++ value
  else none

/-! ## Pieces -/

/-- What a piece of a source means. -/
inductive Content where
  | skipped
  /-- A documentation comment with a text. -/
  | doc (text : String)
  | token (kind : Kind)
  deriving DecidableEq, Repr

/-- A piece of a source. -/
structure Piece where
  text : List Char
  content : Content
  deriving DecidableEq, Repr

namespace Piece

/-- A piece that is the given token. -/
def ofKind (text : List Char) (kind : Kind) : Piece :=
  ⟨text, .token kind⟩

/-- A piece that is the given symbol. -/
def ofSymbol (text : List Char) (s : Symbol) : Piece :=
  ⟨text, .token (.symbol s)⟩

/-- The block comment whose opening mark stands before `cs`. It documents the next token when its
body starts with a star and the rest of the body has a text. -/
def blockComment (cs : List Char) : Piece :=
  let r := blockBody cs
  { text := '/' :: '*' :: r.1 ++ if r.2 then ['*', '/'] else []
    content :=
      match r.1 with
      | '*' :: body =>
        match cleanDoc body with
        | [] => .skipped
        | d => .doc (String.ofList d)
      | _ => .skipped }

/-- The comment of one line whose first two slashes stand before `cs`. -/
def lineComment : List Char → Piece
  | '/' :: cs =>
    let line := lineRest cs
    { text := '/' :: '/' :: '/' :: line
      content :=
        match reference? line with
        | some target => .token (.reference target)
        | none => .skipped }
  | cs => ⟨'/' :: '/' :: lineRest cs, .skipped⟩

/-- The piece that starts with a slash before `cs`. -/
def slash : List Char → Piece
  | '/' :: cs => lineComment cs
  | '*' :: cs => blockComment cs
  | _ => ofSymbol ['/'] .slash

/-- The piece that starts with a dot before `cs`. Two dots count as one. -/
def dots : List Char → Piece
  | '.' :: '.' :: _ => ofSymbol ['.', '.', '.'] .ellipsis
  | '.' :: _ => ofSymbol ['.', '.'] .dot
  | _ => ofSymbol ['.'] .dot

/-- The piece that starts with an equals sign before `cs`. -/
def equals : List Char → Piece
  | '>' :: _ => ofSymbol ['=', '>'] .arrow
  | _ => ofSymbol ['='] .eq

/-- The identifier or reserved word with the given characters. -/
def word (text : List Char) : Piece :=
  let name := String.ofList text
  ofKind text (match Keyword.ofText? name with
    | some k => .keyword k
    | none => .ident name)

/-- The piece that starts with `c` before `cs`, where `c` starts no symbol. -/
def wordOrNumber (c : Char) (cs : List Char) : Piece :=
  if c.isDigit then
    let text := c :: numberRest c cs
    ofKind text (.number (String.ofList text))
  else if isIdentStart c then word (c :: cs.takeWhile isIdentRest)
  else ⟨[c], .skipped⟩

/-- The piece at the front of `c :: cs`. -/
def first (c : Char) (cs : List Char) : Piece :=
  if isSpace c then ⟨c :: cs.takeWhile isSpace, .skipped⟩
  else if c = '"' ∨ c = '\'' then
    let r := stringRest c cs
    ofKind (c :: r.1) (.string (String.ofList r.2))
  else if c = '\x60' then
    let text := c :: templateRest cs
    ofKind text (.template (String.ofList text))
  else if c = '/' then slash cs
  else if c = '.' then dots cs
  else if c = '=' then equals cs
  else
    match Symbol.ofChar? c with
    | some s => ofSymbol [c] s
    | none => wordOrNumber c cs

end Piece

/-- The pieces of a text whose first `skip` characters belong to a piece that is already cut. -/
def piecesAfter : (skip : Nat) → List Char → List Piece
  | _, [] => []
  | n + 1, _ :: cs => piecesAfter n cs
  | 0, c :: cs =>
    let p := Piece.first c cs
    p :: piecesAfter (p.text.length - 1) cs

/-- The pieces of a source. -/
def pieces (cs : List Char) : List Piece :=
  piecesAfter 0 cs

/-- `piecesAfter` with the pieces cut so far, so that a long source needs no deep stack. -/
def cutOnto (done : Array Piece) : (skip : Nat) → List Char → Array Piece
  | _, [] => done
  | n + 1, _ :: cs => cutOnto done n cs
  | 0, c :: cs =>
    let p := Piece.first c cs
    cutOnto (done.push p) (p.text.length - 1) cs

theorem toList_cutOnto (done : Array Piece) (skip : Nat) (cs : List Char) :
    (cutOnto done skip cs).toList = done.toList ++ piecesAfter skip cs := by
  induction cs generalizing done skip with
  | nil => cases skip <;> simp [cutOnto, piecesAfter]
  | cons c cs ih => cases skip <;> simp [cutOnto, piecesAfter, ih]

/-! ## The pieces are the source -/

theorem numberRest_prefix (prev : Char) (cs : List Char) : numberRest prev cs <+: cs := by
  induction cs generalizing prev with
  | nil => simp [numberRest]
  | cons c cs ih =>
    unfold numberRest
    split
    · simpa using ih c
    · simp

theorem stringRest_prefix (quote : Char) (cs : List Char) : (stringRest quote cs).1 <+: cs := by
  fun_induction stringRest quote cs with
  | case1 => simp
  | case2 => simp
  | case3 c cs r ih => simpa using ih
  | case4 cs => simp
  | case5 c cs _ _ _ r ih => simpa using ih

theorem templateRest_prefix (cs : List Char) : templateRest cs <+: cs := by
  fun_induction templateRest cs with
  | case1 => simp
  | case2 => simp
  | case3 c cs ih => simpa using ih
  | case4 cs => simp
  | case5 c cs _ _ _ ih => simpa using ih

theorem blockBody_prefix (cs : List Char) :
    ((blockBody cs).1 ++ if (blockBody cs).2 then ['*', '/'] else []) <+: cs := by
  fun_induction blockBody cs with
  | case1 => simp
  | case2 cs => simp
  | case3 c cs _ r ih => simpa using ih

namespace Piece

theorem text_prefix (c : Char) (cs : List Char) : (first c cs).text <+: c :: cs := by
  have line (cs : List Char) : lineRest cs <+: cs := List.takeWhile_prefix _
  unfold first
  split
  · simpa using List.takeWhile_prefix _
  split
  · simpa [ofKind] using stringRest_prefix c cs
  split
  · simpa [ofKind] using templateRest_prefix cs
  split
  · rename_i h
    subst h
    unfold slash
    split
    · unfold lineComment
      split
      · simpa using line _
      · simpa using line _
    · simpa [blockComment] using blockBody_prefix _
    · simp [ofSymbol]
  split
  · rename_i h
    subst h
    unfold dots
    split <;> simp [ofSymbol]
  split
  · rename_i h
    subst h
    unfold equals
    split <;> simp [ofSymbol]
  split
  · simp [ofSymbol]
  · unfold wordOrNumber
    split
    · simpa [ofKind] using numberRest_prefix c cs
    split
    · simpa [word, ofKind] using List.takeWhile_prefix _
    · simp

theorem text_ne_nil (c : Char) (cs : List Char) : (first c cs).text ≠ [] := by
  unfold first
  repeat' split
  all_goals try simp [ofKind, ofSymbol]
  · unfold slash lineComment
    repeat' split
    all_goals simp [ofSymbol, blockComment]
  · unfold dots
    repeat' split
    all_goals simp [ofSymbol]
  · unfold equals
    repeat' split
    all_goals simp [ofSymbol]
  · unfold wordOrNumber
    repeat' split
    all_goals simp [ofKind, word]

end Piece

theorem flatMap_text_piecesAfter (skip : Nat) (cs : List Char) :
    (piecesAfter skip cs).flatMap (·.text) = cs.drop skip := by
  induction cs generalizing skip with
  | nil => cases skip <;> simp [piecesAfter]
  | cons c cs ih =>
    cases skip with
    | succ n => simp [piecesAfter, ih]
    | zero =>
      obtain ⟨r, hr⟩ := Piece.text_prefix c cs
      cases ht : (Piece.first c cs).text with
      | nil => exact absurd ht (Piece.text_ne_nil c cs)
      | cons d ds =>
        rw [ht] at hr
        obtain ⟨rfl, rfl⟩ : d = c ∧ ds ++ r = cs := by simpa using hr
        simp [piecesAfter, ih, ht]

theorem flatMap_text_pieces (cs : List Char) : (pieces cs).flatMap (·.text) = cs := by
  simpa [pieces] using flatMap_text_piecesAfter 0 cs

end Ambient
