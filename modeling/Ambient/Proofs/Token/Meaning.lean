import Ambient.Proofs.Token.Positions
import Ambient.Proofs.Token.Quoted
import Ambient.Text.Hex

/-!
# What quoted literals mean

`Literal.Means` gives a quoted literal the string that it stands for in the language, a list of UTF-16
code units: a backslash starts an escape (`Escape`), which stands for a character or, at the end of a
line, for nothing, and every other character stands for itself.

The lexer knows six escapes only, those of `isShortEscape`. It leaves the backslash of every other
one in the value, and quoting that value puts a second backslash in front of it. So the quoted value
means what the literal meant if the literal has short escapes only, and a longer string otherwise
(`means_quote_iff`).
-/

namespace Ambient

open Text (quote hexDigit? hexValue?)

/-! ## Code units -/

/-- The UTF-16 code units of a code point. -/
def unitsOf (code : Nat) : List Nat :=
  if code < 0x10000 then [code]
  else [0xD800 + (code - 0x10000) / 0x400, 0xDC00 + (code - 0x10000) % 0x400]

/-- The UTF-16 code units of a text. -/
def units (cs : List Char) : List Nat :=
  cs.flatMap fun c => unitsOf c.toNat

@[simp] theorem units_nil : units [] = [] := rfl

@[simp] theorem units_cons (c : Char) (cs : List Char) :
    units (c :: cs) = unitsOf c.toNat ++ units cs := rfl

@[simp] theorem units_append (as bs : List Char) : units (as ++ bs) = units as ++ units bs :=
  List.flatMap_append

theorem length_unitsOf (code : Nat) : 1 ≤ (unitsOf code).length ∧ (unitsOf code).length ≤ 2 := by
  unfold unitsOf
  split <;> simp

theorem length_le_units (cs : List Char) : cs.length ≤ (units cs).length := by
  induction cs with
  | nil => exact Nat.le_refl 0
  | cons c cs ih =>
    have hc := (length_unitsOf c.toNat).1
    rw [units_cons, List.length_append, List.length_cons]
    omega

/-! ## Escapes -/

/-- The character that a letter behind a backslash names. Every other character names itself. -/
def escapedChar : Char → Char
  | 'n' => '\n'
  | 't' => '\t'
  | 'r' => '\r'
  | 'b' => '\x08'
  | 'v' => '\x0b'
  | 'f' => '\x0c'
  | c => c

/-- Whether a line ends with the character. -/
def endsLine (c : Char) : Bool :=
  c == '\n' || c == '\r' || c == '\u2028' || c == '\u2029'

/-- `Escape text next ws` says that behind a backslash and in front of `next` the characters `text` are
an escape that stands for the code units `ws`. -/
inductive Escape : List Char → List Char → List Nat → Prop
  | named {c : Char} {next : List Char} (hd : c.isDigit = false) (hx : c ≠ 'x' ∧ c ≠ 'u')
    (hl : endsLine c = false) : Escape [c] next (unitsOf (escapedChar c).toNat)
  | zero {next : List Char} (hd : ∀ d ∈ next.head?, d.isDigit = false) : Escape ['0'] next [0]
  | hex {a b : Char} {next : List Char} {code : Nat} (h : hexValue? [a, b] = some code) :
    Escape ['x', a, b] next [code]
  | unicode {a b c d : Char} {next : List Char} {code : Nat}
    (h : hexValue? [a, b, c, d] = some code) : Escape ['u', a, b, c, d] next [code]
  | codePoint {digits next : List Char} {code : Nat} (hne : digits ≠ [])
    (h : hexValue? digits = some code) (hcode : code ≤ 0x10FFFF) :
    Escape ('u' :: '\x7b' :: (digits ++ ['\x7d'])) next (unitsOf code)
  /-- The line goes on. -/
  | lineEnd {c : Char} {next : List Char} (hl : endsLine c = true)
    (hn : c = '\r' → next.head? ≠ some '\n') : Escape [c] next []
  | crlf {next : List Char} : Escape ['\r', '\n'] next []

/-- The characters of a literal behind its opening quote, its closing quote included, and the code
units that it stands for. -/
inductive Literal.Body (q : Char) : List Char → List Nat → Prop
  | close : Body q [q] []
  | char {c : Char} {cs : List Char} {us : List Nat} (hq : c ≠ q) (hb : c ≠ '\\')
    (hn : c ≠ '\n' ∧ c ≠ '\r') (h : Body q cs us) : Body q (c :: cs) (unitsOf c.toNat ++ us)
  | escape {text cs : List Char} {ws us : List Nat} (he : Escape text cs ws) (h : Body q cs us) :
    Body q ('\\' :: (text ++ cs)) (ws ++ us)

/-- The literal stands for the code units. -/
inductive Literal.Means : List Char → List Nat → Prop
  | quoted {q : Char} {cs : List Char} {us : List Nat} (hq : q = '"' ∨ q = '\'')
    (h : Literal.Body q cs us) : Means (q :: cs) us

/-- The characters that stand behind the backslash of an escape that the lexer knows. -/
def isShortEscape (c : Char) : Bool :=
  ['n', 't', 'r', '\\', '"', '\''].contains c

/-- Whether a short escape starts at every backslash. -/
def shortEscapes : List Char → Bool
  | [] => true
  | ['\\'] => false
  | '\\' :: c :: cs => isShortEscape c && shortEscapes cs
  | _ :: cs => shortEscapes cs

theorem shortEscapes_cons {c : Char} (h : c ≠ '\\') (cs : List Char) :
    shortEscapes (c :: cs) = shortEscapes cs := by
  rw [shortEscapes]
  · exact fun e => absurd e h
  · exact fun _ _ e => absurd e h

/-! ## Escapes and the lexer -/

/-- A character that neither starts an escape nor closes a literal. -/
def IsInner (c : Char) : Prop :=
  c ≠ '\\' ∧ c ≠ '"' ∧ c ≠ '\''

theorem isInner_of_hexDigit? {c : Char} {n : Nat} (h : hexDigit? c = some n) : IsInner c := by
  refine ⟨?_, ?_, ?_⟩
  all_goals
    rintro rfl
    cases h

theorem isInner_of_hexValue? {cs : List Char} {n : Nat} (h : hexValue? cs = some n) :
    ∀ c ∈ cs, IsInner c := by
  rw [hexValue?] at h
  generalize 0 = acc at h
  induction cs generalizing acc with
  | nil => exact List.forall_mem_nil _
  | cons c cs ih =>
    rw [List.foldlM_cons] at h
    obtain ⟨acc', hc, hcs⟩ := Option.bind_eq_some_iff.1 h
    obtain ⟨d, hd, -⟩ := Option.map_eq_some_iff.1 hc
    exact List.forall_mem_cons.2 ⟨isInner_of_hexDigit? hd, ih acc' hcs⟩

/-- An escape that the lexer does not know keeps its backslash. -/
theorem unescape_of_not_short {c : Char} (h : isShortEscape c = false) : unescape c = ['\\', c] := by
  simp only [isShortEscape, List.contains_eq_mem, List.mem_cons, List.not_mem_nil, or_false,
    decide_eq_false_iff_not, not_or] at h
  obtain ⟨hn, ht, hr, hb, hd, hs⟩ := h
  rw [unescape, if_neg hn, if_neg ht, if_neg hr, if_neg hb, if_neg hd, if_neg hs]

theorem length_unitsOf_escapedChar (c : Char) :
    (unitsOf (escapedChar c).toNat).length ≤ (unitsOf c.toNat).length := by
  fun_cases escapedChar c with
  | case7 => exact Nat.le_refl _
  | _ => decide

theorem unescape_of_short {c : Char} (h : isShortEscape c = true) : unescape c = [escapedChar c] := by
  simp only [isShortEscape, List.contains_eq_mem, List.mem_cons, List.not_mem_nil, or_false,
    decide_eq_true_eq] at h
  rcases h with rfl | rfl | rfl | rfl | rfl | rfl <;> rfl

theorem not_isShortEscape_of_endsLine {c : Char} (h : endsLine c = true) :
    isShortEscape c = false := by
  simp only [endsLine, Bool.or_eq_true, beq_iff_eq] at h
  rcases h with ((rfl | rfl) | rfl) | rfl <;> decide

/-- What an escape is made of: a character behind the backslash, and others that are inner characters
of the literal. A short escape is that one character, and means what the lexer takes it for. Every
other escape means fewer code units than its own characters have. -/
theorem Escape.parts {text next : List Char} {ws : List Nat} (h : Escape text next ws) :
    ∃ c inner, text = c :: inner ∧ (∀ d ∈ inner, IsInner d) ∧
      (isShortEscape c = true ∧ inner = [] ∧ ws = units (unescape c) ∨
        isShortEscape c = false ∧ ws.length < (units (unescape c ++ inner)).length) := by
  -- the backslash and the letter count twice, and an escape means two code units at most
  have long {c : Char} {inner : List Char} {ws : List Nat} (hc : isShortEscape c = false)
      (hws : ws.length ≤ inner.length + 1) : ws.length < (units (unescape c ++ inner)).length := by
    have hle := length_le_units (unescape c ++ inner)
    rw [unescape_of_not_short hc] at hle ⊢
    simp only [List.length_append, List.length_cons, List.length_nil] at hle
    omega
  cases h with
  | @named c _ hd hx hl =>
    refine ⟨c, [], rfl, List.forall_mem_nil _, ?_⟩
    cases hc : isShortEscape c with
    | true => exact .inl ⟨rfl, rfl, by rw [unescape_of_short hc]; simp⟩
    | false =>
      refine .inr ⟨rfl, ?_⟩
      have hle := length_unitsOf_escapedChar c
      have hbackslash := (length_unitsOf '\\'.toNat).1
      rw [unescape_of_not_short hc]
      simp only [List.append_nil, units_cons, units_nil, List.length_append]
      omega
  | zero hd => exact ⟨'0', [], rfl, List.forall_mem_nil _, .inr ⟨rfl, long rfl (by decide)⟩⟩
  | hex h => exact ⟨'x', _, rfl, isInner_of_hexValue? h, .inr ⟨rfl, long rfl (by simp)⟩⟩
  | unicode h => exact ⟨'u', _, rfl, isInner_of_hexValue? h, .inr ⟨rfl, long rfl (by simp)⟩⟩
  | @codePoint digits _ code hne h hcode =>
    have hbraces : IsInner '\x7b' ∧ IsInner '\x7d' := by simp [IsInner]
    refine ⟨'u', _, rfl, ?_, .inr ⟨rfl, long rfl ?_⟩⟩
    · rw [List.forall_mem_cons, List.forall_mem_append, List.forall_mem_singleton]
      exact ⟨hbraces.1, isInner_of_hexValue? h, hbraces.2⟩
    · have htwo := (length_unitsOf code).2
      simp only [List.length_cons, List.length_append]
      omega
  | @lineEnd c _ hl hn =>
    have hc := not_isShortEscape_of_endsLine hl
    exact ⟨c, [], rfl, List.forall_mem_nil _, .inr ⟨hc, long hc (Nat.zero_le _)⟩⟩
  | crlf => exact ⟨'\r', ['\n'], rfl, by simp [IsInner], .inr ⟨rfl, long rfl (Nat.zero_le _)⟩⟩

/-! ## What the lexer takes a literal for -/

theorem stringRest_inner {q : Char} (hq : q = '"' ∨ q = '\'') {inner : List Char}
    (h : ∀ d ∈ inner, IsInner d) (cs : List Char) :
    stringRest q (inner ++ cs) = (inner ++ (stringRest q cs).1, inner ++ (stringRest q cs).2) := by
  induction inner with
  | nil => rfl
  | cons d inner ih =>
    obtain ⟨⟨hb, hd, hs⟩, hinner⟩ := List.forall_mem_cons.1 h
    have hne : d ≠ q := by rcases hq with rfl | rfl <;> assumption
    rw [List.cons_append, stringRest_cons hb, if_neg hne, ih hinner]
    rfl

/-- The lexer takes the whole literal, whatever follows, for a value that means the same if the
literal has short escapes only, and is longer than the meaning of the literal otherwise. -/
theorem Literal.Body.stringRest {q : Char} {cs : List Char} {us : List Nat}
    (h : Literal.Body q cs us) (hq : q = '"' ∨ q = '\'') :
    ∃ value, (∀ rest, stringRest q (cs ++ rest) = (cs, value)) ∧
      us.length ≤ (units value).length ∧
      (shortEscapes cs = true → units value = us) ∧
      (shortEscapes cs = false → us.length < (units value).length) := by
  have hbackslash : q ≠ '\\' := by rcases hq with rfl | rfl <;> decide
  induction h with
  | close =>
    have hshort : shortEscapes [q] = true := shortEscapes_cons hbackslash []
    refine ⟨[], fun rest => ?_, Nat.le_refl 0, fun _ => rfl, fun hs => ?_⟩
    · rw [List.singleton_append, stringRest_cons hbackslash, if_pos rfl]
    · rw [hshort] at hs
      cases hs
  | @char c cs us hne hb hn _ ih =>
    obtain ⟨value, hrest, hle, heq, hlt⟩ := ih
    refine ⟨c :: value, fun rest => ?_, ?_, fun hs => ?_, fun hs => ?_⟩
    · rw [List.cons_append, stringRest_cons hb, if_neg hne, hrest]
    · simpa using hle
    · rw [shortEscapes_cons hb] at hs
      rw [units_cons, heq hs]
    · rw [shortEscapes_cons hb] at hs
      simpa using hlt hs
  | @escape text cs ws us he _ ih =>
    obtain ⟨value, hrest, hle, heq, hlt⟩ := ih
    obtain ⟨c, inner, rfl, hinner, hparts⟩ := he.parts
    have hall (rest : List Char) : Ambient.stringRest q ('\\' :: (c :: inner ++ cs) ++ rest) =
        ('\\' :: (c :: inner ++ cs), unescape c ++ inner ++ value) := by
      rw [List.cons_append, List.cons_append, List.cons_append, Ambient.stringRest,
        List.append_assoc, stringRest_inner hq hinner, hrest, List.append_assoc]
    have hshort : shortEscapes ('\\' :: (c :: inner ++ cs)) =
        (isShortEscape c && shortEscapes (inner ++ cs)) := rfl
    refine ⟨_, hall, ?_⟩
    rw [hshort, units_append, List.length_append, List.length_append]
    rcases hparts with ⟨hc, rfl, rfl⟩ | ⟨hc, hws⟩
    · -- the value goes on as the meaning does
      rw [hc, Bool.true_and, List.append_nil, List.nil_append]
      exact ⟨Nat.add_le_add_left hle _, fun hs => by rw [heq hs],
        fun hs => Nat.add_lt_add_left (hlt hs) _⟩
    · rw [hc, Bool.false_and]
      have hmore := Nat.add_lt_add_of_lt_of_le hws hle
      refine ⟨Nat.le_of_lt hmore, fun hs => ?_, fun _ => hmore⟩
      cases hs

/-! ## What quoted values mean -/

theorem Escape.short {c : Char} (h : isShortEscape c = true) (next : List Char) :
    Escape [c] next (unitsOf (escapedChar c).toNat) := by
  have hnamed : c.isDigit = false ∧ (c ≠ 'x' ∧ c ≠ 'u') ∧ endsLine c = false := by
    simp only [isShortEscape, List.contains_eq_mem, List.mem_cons, List.not_mem_nil, or_false,
      decide_eq_true_eq] at h
    rcases h with rfl | rfl | rfl | rfl | rfl | rfl <;> decide
  exact .named hnamed.1 hnamed.2.1 hnamed.2.2

/-- Inside a quoted text a character stands for itself or is the meaning of a short escape. -/
theorem escapeChar_cases (c : Char) :
    (Text.escapeChar c = [c] ∧ c ≠ '"' ∧ c ≠ '\\' ∧ c ≠ '\n' ∧ c ≠ '\r') ∨
      ∃ e, Text.escapeChar c = ['\\', e] ∧ isShortEscape e = true ∧ escapedChar e = c := by
  unfold Text.escapeChar
  split
  · next h => exact .inr ⟨'"', rfl, rfl, h.symm⟩
  next hquote =>
  split
  · next h => exact .inr ⟨'\\', rfl, rfl, h.symm⟩
  next hbackslash =>
  split
  · next h => exact .inr ⟨'n', rfl, rfl, h.symm⟩
  next hfeed =>
  split
  · next h => exact .inr ⟨'r', rfl, rfl, h.symm⟩
  next hreturn =>
  split
  · next h => exact .inr ⟨'t', rfl, rfl, h.symm⟩
  · exact .inl ⟨rfl, hquote, hbackslash, hfeed, hreturn⟩

theorem body_quoteChars (cs : List Char) :
    Literal.Body '"' (cs.flatMap Text.escapeChar ++ ['"']) (units cs) := by
  induction cs with
  | nil => exact .close
  | cons c cs ih =>
    rw [List.flatMap_cons, List.append_assoc, units_cons]
    rcases escapeChar_cases c with ⟨hc, hquote, hbackslash, hline⟩ | ⟨e, hc, he, rfl⟩
    · rw [hc]
      exact .char hquote hbackslash hline ih
    · rw [hc]
      exact .escape (Escape.short he _) ih

theorem shortEscapes_quoteChars (cs : List Char) :
    shortEscapes (cs.flatMap Text.escapeChar ++ ['"']) = true := by
  induction cs with
  | nil => rfl
  | cons c cs ih =>
    rw [List.flatMap_cons, List.append_assoc]
    rcases escapeChar_cases c with ⟨hc, -, hbackslash, -⟩ | ⟨e, hc, he, -⟩
    · rw [hc, List.singleton_append, shortEscapes_cons hbackslash, ih]
    · have hcons (r : List Char) : shortEscapes (['\\', e] ++ r) =
          (isShortEscape e && shortEscapes r) := rfl
      rw [hc, hcons, he, ih, Bool.true_and]

/-- A quoted text means the text. -/
theorem means_quote (v : String) (us : List Nat) :
    Literal.Means (quote v).toList us ↔ us = units v.toList := by
  have hquote : (quote v).toList = '"' :: (v.toList.flatMap Text.escapeChar ++ ['"']) := by
    simp [quote, Text.quoteChars]
  rw [hquote]
  constructor
  · rintro (@⟨_, _, _, -, h⟩)
    obtain ⟨value, hrest, -, hshort, -⟩ := h.stringRest (.inl rfl)
    have hvalue := hrest []
    rw [List.append_nil, stringRest_quoteChars v.toList []] at hvalue
    rw [← hshort (shortEscapes_quoteChars v.toList), (Prod.mk.inj hvalue).2]
  · rintro rfl
    exact .quoted (.inl rfl) (body_quoteChars v.toList)

/-! ## Literals in a source -/

/-- **A literal is one token,** wherever the source goes on behind it, and its value means the same if
and only if the literal has short escapes only. -/
theorem Literal.Means.value {lit : List Char} {us : List Nat} (h : Literal.Means lit us) :
    ∃ v : String, (∀ rest, Piece.Stands ⟨lit, .token (.string v)⟩ rest) ∧
      (us = units v.toList ↔ shortEscapes lit = true) := by
  obtain @⟨q, cs, us, hq, hbody⟩ := h
  obtain ⟨value, hrest, -, hshort, hlong⟩ := hbody.stringRest hq
  have hbackslash : q ≠ '\\' := by rcases hq with rfl | rfl <;> decide
  refine ⟨String.ofList value, fun rest => ⟨q, cs, rfl, ?_⟩, ?_⟩
  · have hspace : Text.isSpace q = false := by rcases hq with rfl | rfl <;> decide
    rw [Piece.first, if_neg (by simp [hspace]), if_pos hq, hrest]
    rfl
  · rw [shortEscapes_cons hbackslash, String.toList_ofList]
    constructor
    · intro hus
      by_contra hnot
      have hlt := hlong (Bool.eq_false_iff.2 hnot)
      rw [← hus] at hlt
      exact Nat.lt_irrefl _ hlt
    · exact fun hs => (hshort hs).symm

/-- A token that is written as a literal has the value of the literal. -/
theorem kind_of_text_eq {cs lit : List Char} {v : String} {t : Token}
    (ht : t ∈ (lexChars cs).tokens) (htext : t.text = lit)
    (h : ∀ rest, Piece.Stands ⟨lit, .token (.string v)⟩ rest) : t.kind = .string v := by
  obtain ⟨p, hp, hkind, hptext⟩ := exists_piece_of_mem ht
  obtain ⟨c, ds, rfl⟩ := exists_first_of_mem_pieces hp
  obtain ⟨rest, hrest⟩ := Piece.text_prefix c ds
  obtain ⟨q, es, (hlit : lit = q :: es), hfirst⟩ := h rest
  rw [hptext, htext, hlit, List.cons_append] at hrest
  obtain ⟨rfl, rfl⟩ := List.cons.inj hrest
  rw [hfirst] at hkind
  exact (Content.token.inj hkind).symm

end Ambient
