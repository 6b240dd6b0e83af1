import Ambient.Proofs.Parser.Counters
import Ambient.Proofs.Parser.Progress

/-!
# Positions of the parser

The parser moves from token to token: each of its routines starts in front of a token of the source
or of its end, and ends in front of another one or with an error at a token (`Lexed.RoutinesStay`).
What it keeps as written are parts of the source between such places. An error therefore tells of a
place between characters, and the mark below it covers the character there (`parse_positions`).
-/

namespace Ambient

open Text (byteLength trim)

/-! ## Places of routines -/

/-- Started at the position `i`, a parser ends in front of a token of the source, not before the
first one, or with an error at a token. -/
def Lexed.StaysFrom (l : Lexed) (i : Nat) {α : Type} (p : Parser α) : Prop :=
  match p (l.cursorAt i) with
  | .ok (_, c) => ∃ j, i ≤ j ∧ j ≤ l.tokens.length ∧ c = l.cursorAt j
  | .error e => ∃ t ∈ l.toList, e.pos = t.start

/-- A parser that keeps the text which it passes, if it succeeds. -/
def Lexed.KeepsFrom (l : Lexed) (i : Nat) (p : Parser String) : Prop :=
  ∀ s c, p (l.cursorAt i) = .ok (s, c) → ∃ j, i ≤ j ∧ j ≤ l.tokens.length ∧ c = l.cursorAt j ∧
    s = Parser.written (l.between i j).reverse

theorem Lexed.current_mem (l : Lexed) (i : Nat) : (l.cursorAt i).current ∈ l.toList := by
  rw [cursorAt, Cursor.current, toList]
  cases h : l.tokens.drop i with
  | nil => exact List.mem_append_right _ List.mem_cons_self
  | cons t ts =>
    have ht : t ∈ l.tokens.drop i := h ▸ List.mem_cons_self
    exact List.mem_append_left _ (List.mem_of_mem_drop ht)

theorem Twin.Agree.stays {l m : Lexed} {S : String → String → Prop} {tw : Twin S l m} {i n : Nat}
    {α β : Type} {p : Parser α} {q : Parser β} {R : α → β → Prop} (h : tw.Agree i n p q R)
    (hi : i ≤ l.tokens.length) (hn : i ≤ n) : l.StaysFrom i p := by
  have h := h hi
  rw [Lexed.StaysFrom]
  generalize p (l.cursorAt i) = x at h ⊢
  generalize q (m.cursorAt i) = y at h
  cases h with
  | ok hj hle _ => exact ⟨_, Nat.le_trans hn hj, hle, rfl⟩
  | error _ _ _ _ => exact ⟨_, l.current_mem _, rfl⟩

/-- The token at a position counts from the front of the source. -/
theorem Lexed.getElem?_toList (l : Lexed) (i n : Nat) :
    ∃ t, l.toList[min (i + n) l.tokens.length]? = some t ∧ t.kind = (l.cursorAt i).kindAt n := by
  rw [toList, cursorAt, Cursor.kindAt]
  by_cases h : i + n < l.tokens.length
  · refine ⟨l.tokens[i + n], ?_, ?_⟩
    · rw [Nat.min_eq_left (Nat.le_of_lt h), List.getElem?_append_left h, List.getElem?_eq_getElem h]
    · rw [List.getD_eq_getElem?_getD, List.getElem?_drop, List.getElem?_eq_getElem h]
      rfl
  · refine ⟨l.eof, ?_, ?_⟩
    · rw [Nat.min_eq_right (Nat.le_of_not_lt h), List.getElem?_append_right (Nat.le_refl _),
        Nat.sub_self]
      rfl
    · rw [List.getD_eq_getElem?_getD, List.getElem?_drop,
        List.getElem?_eq_none (Nat.le_of_not_lt h)]
      rfl

/-- The texts from one token to another are a part of the source. -/
theorem slice?_between {cs : List Char} {i j : Nat} (hij : i < j)
    (hj : j ≤ (lexChars cs).tokens.length) :
    ∃ t u, (lexChars cs).toList[i]? = some t ∧ (lexChars cs).toList[j - 1]? = some u ∧
      slice? t.start u.stop cs = some (Token.span ((lexChars cs).between i j)) := by
  generalize hl : lexChars cs = l at hj
  obtain ⟨t, ts, hts⟩ : ∃ t ts, l.between i j = t :: ts := by
    refine List.exists_cons_of_ne_nil fun h => ?_
    have hlen := congrArg List.length h
    rw [Lexed.between, List.length_take, List.length_drop, List.length_nil] at hlen
    omega
  have hsplit : l.toList = l.tokens.take i ++ (t :: ts) ++ (l.tokens.drop j ++ [l.eof]) := by
    have hdrop : l.tokens.drop i = l.between i j ++ l.tokens.drop j := by
      have h := List.take_append_drop (j - i) (l.tokens.drop i)
      rw [List.drop_drop, Nat.add_sub_cancel' (Nat.le_of_lt hij)] at h
      exact h.symm
    rw [← hts, Lexed.toList, List.append_assoc, ← List.append_assoc (l.between i j), ← hdrop,
      ← List.append_assoc, List.take_append_drop]
  have hlen : (t :: ts).length = j - i := by
    rw [← hts, Lexed.between, List.length_take, List.length_drop]
    omega
  have htake : (l.tokens.take i).length = i := by
    rw [List.length_take]
    omega
  refine ⟨t, (t :: ts).getLast (List.cons_ne_nil t ts), ?_, ?_, ?_⟩
  · rw [hsplit, List.append_assoc, List.getElem?_append_right (by omega), htake, Nat.sub_self]
    rfl
  · rw [hsplit, List.append_assoc, List.getElem?_append_right (by omega), htake,
      List.getElem?_append_left (by omega), List.getLast_eq_getElem,
      List.getElem?_eq_getElem (show j - 1 - i < (t :: ts).length by omega)]
    congr 2
    omega
  · rw [hts]
    subst hl
    exact slice?_span hsplit

/-! ## Texts kept as written -/

theorem Lexed.between_add (l : Lexed) (i k : Nat) :
    l.between i (i + k) = (l.tokens.drop i).take k := by
  rw [between, Nat.add_sub_cancel_left]

theorem Lexed.keeps_expression (l : Lexed) {i : Nat} (hi : i ≤ l.tokens.length) :
    l.KeepsFrom i Parser.expression := by
  intro s c h
  have hk := drop_drop_le hi (counted_le expressionDepth 0 (l.tokens.drop i))
  simp only [Parser.expression, Lexed.cursorAt, passExpression_eq, passing, List.drop_drop] at h
  cases h
  refine ⟨_, Nat.le_add_right i _, hk, rfl, ?_⟩
  rw [l.between_add, List.append_nil]

theorem Lexed.keeps_scanned (l : Lexed) {i : Nat} (hi : i ≤ l.tokens.length) (cause : Cause)
    (step : Nat → Kind → Option Nat) {scan : List Token → Option (List Token × List Token)}
    (hscan : ∀ ts, scan ts = if counted step 0 ts < ts.length then
      some (passing (counted step 0 ts + 1) [] ts) else none) :
    l.KeepsFrom i (Parser.scanned cause scan) := by
  intro s c h
  have hscan := hscan (l.tokens.drop i)
  simp only [Parser.scanned, Lexed.cursorAt] at h
  rw [hscan] at h
  by_cases hlt : counted step 0 (l.tokens.drop i) < (l.tokens.drop i).length
  · have hk := drop_drop_le hi (Nat.succ_le_of_lt hlt)
    rw [if_pos hlt] at h
    simp only [passing, List.drop_drop] at h
    cases h
    refine ⟨_, Nat.le_add_right i _, hk, rfl, ?_⟩
    rw [l.between_add, List.append_nil]
  · rw [if_neg hlt] at h
    cases h

theorem Lexed.keeps_computedName (l : Lexed) {i : Nat} (hi : i ≤ l.tokens.length) :
    l.KeepsFrom i Parser.computedName :=
  l.keeps_scanned hi _ computedDepth (passComputedName?_eq 0 [])

theorem Lexed.keeps_pattern (l : Lexed) {i : Nat} (hi : i ≤ l.tokens.length) :
    l.KeepsFrom i Parser.pattern :=
  l.keeps_scanned hi _ patternDepth (passPattern?_eq 0 [])

/-! ## Routines -/

/-- Started at the position `i`, the routines of the parser end in front of tokens or with an error
at a token. The bound `n` is one on the rounds of loops, `k` and `b` are bounds on the nesting of
types and of blocks. -/
structure Lexed.RoutinesStay (l : Lexed) (i n k b : Nat) : Prop where
  file : l.StaysFrom 0 (Parser.file (l.tokens.length + 1))
  block : l.StaysFrom i (Parser.readBlock b)
  item : l.StaysFrom i (Parser.item n (Parser.readTy k) (Parser.readBlock b))
  exportedNames : l.StaysFrom i (Parser.exportedNames n)
  function (doc : Option String) : l.StaysFrom i (Parser.function n (Parser.readTy k) doc)
  interface (doc : Option String) : l.StaysFrom i (Parser.interface n (Parser.readTy k) doc)
  typeAlias (doc : Option String) : l.StaysFrom i (Parser.typeAlias n (Parser.readTy k) doc)
  classDecl (doc : Option String) (isAbstract : Bool) :
    l.StaysFrom i (Parser.classDecl n (Parser.readTy k) doc isAbstract)
  enum (doc : Option String) (isConst : Bool) : l.StaysFrom i (Parser.enum n doc isConst)
  variableStatement (doc : Option String) (kind : VariableKind) :
    l.StaysFrom i (Parser.variableStatement n (Parser.readTy k) doc kind)
  member : l.StaysFrom i (Parser.member n (Parser.readTy k))
  members : l.StaysFrom i (Parser.members n (Parser.readTy k))
  classMember : l.StaysFrom i (Parser.classMember n (Parser.readTy k))
  signature (inSuper : Bool) : l.StaysFrom i (Parser.signature n (Parser.readTy k) inSuper)
  functionOrParens (inSuper : Bool) :
    l.StaysFrom i (Parser.functionOrParens n (Parser.readTy k) inSuper)
  mappedOrObject : l.StaysFrom i (Parser.mappedOrObject n (Parser.readTy k))
  tuple : l.StaysFrom i (Parser.tuple n (Parser.readTy k))
  ty (form : TyForm) (inSuper : Bool) : l.StaysFrom i (Parser.readTy k form inSuper)
  memberName : l.StaysFrom i Parser.memberName?
  propertyName : l.StaysFrom i Parser.propertyName
  dottedName : l.StaysFrom i Parser.dottedName
  computedName : l.StaysFrom i Parser.computedName ∧ l.KeepsFrom i Parser.computedName
  pattern : l.StaysFrom i Parser.pattern ∧ l.KeepsFrom i Parser.pattern
  expression : l.StaysFrom i Parser.expression ∧ l.KeepsFrom i Parser.expression
  statement : l.StaysFrom i Parser.statement

theorem Twin.routinesStay {l : Lexed} (tw : Twin (· = ·) l l) {i n k b : Nat}
    (hi : i ≤ l.tokens.length) (hn : l.tokens.length < n + i) (hk : l.tokens.length < k + i)
    (hb : l.tokens.length < b + i) : l.RoutinesStay i n k b := by
  have h := tw.readers_readTy hn hn hk hk
  have hblock (j : Nat) (hj : i ≤ j) := tw.agree_readBlock (i := j)
    (show l.tokens.length < b + j by omega) (show l.tokens.length < b + j by omega)
  have hfile := tw.agree_file (Nat.lt_succ_self _) (Nat.lt_succ_self _)
  have hmin : i ≤ min (i + 1) l.tokens.length := Nat.le_min.2 ⟨Nat.le_succ i, hi⟩
  have hsame {p : Parser String} : KeptAlike (· = ·) l l i p := fun _ _ _ _ _ => rfl
  exact {
    file := hfile.stays (Nat.zero_le _) (Nat.zero_le _)
    block := (hblock i (Nat.le_refl i)).stays hi (Nat.le_succ i)
    item := (tw.agree_item h fun j hj => hblock j (Nat.le_of_lt hj)).stays hi hmin
    exportedNames := h.exportedNames.stays hi (Nat.le_succ i)
    function := fun doc => (h.function doc).stays hi (Nat.le_succ i)
    interface := fun doc => (h.interface doc).stays hi (Nat.le_succ i)
    typeAlias := fun doc => (h.typeAlias doc).stays hi (Nat.le_succ i)
    classDecl := fun doc isAbstract => (h.classDecl doc isAbstract).stays hi (Nat.le_succ i)
    enum := fun doc isConst => (h.enum doc isConst).stays hi (Nat.le_succ i)
    variableStatement := fun doc kind => (h.variableStatement doc kind).stays hi (Nat.le_succ i)
    member := h.member.stays hi hmin
    members := h.members.stays hi (Nat.le_succ i)
    classMember := h.classMember.stays hi hmin
    signature := fun inSuper => (h.signature inSuper).stays hi (Nat.le_succ i)
    functionOrParens := fun inSuper => (h.functionOrParens inSuper).stays hi (Nat.le_succ i)
    mappedOrObject := h.mappedOrObject.stays hi (Nat.le_succ i)
    tuple := h.tuple.stays hi (Nat.le_succ i)
    ty := fun form inSuper => (tw.agree_readTy hk hk form inSuper).stays hi (Nat.le_succ i)
    memberName := (tw.agree_memberName? i).stays hi hmin
    propertyName := (tw.agree_propertyName i).stays hi (Nat.le_succ i)
    dottedName := (tw.agree_dottedName i).stays hi (Nat.le_succ i)
    computedName :=
      ⟨(tw.agree_computedName i hsame).stays hi (Nat.le_succ i), l.keeps_computedName hi⟩
    pattern := ⟨(tw.agree_pattern i hsame).stays hi (Nat.le_succ i), l.keeps_pattern hi⟩
    expression := ⟨(tw.agree_expression i hsame).stays hi (Nat.le_refl i), l.keeps_expression hi⟩
    statement := (tw.agree_statement i).stays hi hmin }

/-! ## Errors -/

/-- The bytes that are marked below an error at a byte offset: those of the character there. Nothing,
if the offset lies inside of a character. -/
def mark? (cs : List Char) (pos : Nat) : Option (Nat × Nat) :=
  let start := min pos (byteLength cs)
  (slice? start (byteLength cs) cs).map fun rest =>
    match rest with
    | c :: _ :: _ => (start, start + c.utf8Size)
    | _ => (start, byteLength cs)

theorem mark?_append (before behind : List Char) :
    mark? (before ++ behind) (byteLength before) =
      some (byteLength before, byteLength before + byteLength (behind.take 1)) := by
  have hmin : min (byteLength before) (byteLength (before ++ behind)) = byteLength before := by
    rw [Text.byteLength_append]
    exact Nat.min_eq_left (Nat.le_add_right _ _)
  have hslice : slice? (byteLength before) (byteLength (before ++ behind)) (before ++ behind) =
      some behind := by
    rw [Text.byteLength_append]
    simpa using slice?_append before behind []
  rw [mark?]
  simp only [hmin, hslice, Option.map_some]
  cases behind with
  | nil => simp
  | cons c cs =>
    cases cs with
    | nil => simp
    | cons d ds => simp

/-- What is known of the places in a source. All offsets count bytes. -/
structure PositionsUsable (source : String) : Prop where
  /-- The text of a token stands where the token is said to be. -/
  token {t : Token} (ht : t ∈ (lex source).toList) :
    slice? t.start t.stop source.toList = some t.text
  nonempty {t : Token} (ht : t ∈ (lex source).tokens) : t.start < t.stop
  ordered : (lex source).toList.Pairwise fun t u => t.stop ≤ u.start
  eof : (lex source).eof.start = byteLength source.toList ∧
    (lex source).eof.stop = byteLength source.toList
  /-- What is looked at while the source is cut are parts of it. -/
  piece {p : Piece} {ps qs : List Piece} (h : pieces source.toList = ps ++ p :: qs) :
    p.LooksAt (byteLength (textOf ps)) source.toList
  /-- A position is the index of a token, also when looking ahead. -/
  index (i n : Nat) : ∃ t, (lex source).toList[min (i + n) (lex source).tokens.length]? = some t ∧
    t.kind = ((lex source).cursorAt i).kindAt n
  /-- A text kept as written is a part of the source but for white space at its edges. -/
  kept {i j : Nat} (hij : i < j) (hj : j ≤ (lex source).tokens.length) :
    ∃ t u part, (lex source).toList[i]? = some t ∧ (lex source).toList[j - 1]? = some u ∧
      slice? t.start u.stop source.toList = some part ∧
      Parser.written ((lex source).between i j).reverse = String.ofList (trim part)
  routines {i n k b : Nat} (hi : i ≤ (lex source).tokens.length)
    (hn : (lex source).tokens.length < n + i) (hk : (lex source).tokens.length < k + i)
    (hb : (lex source).tokens.length < b + i) : (lex source).RoutinesStay i n k b
  counters : CountersStay
  /-- An error stands at a token, where the report counts to, and its mark covers the character
  there, or nothing at the end of the source. -/
  error {e : ParseError} (h : parse source = .error e) :
    (∃ t ∈ (lex source).toList, e.pos = t.start) ∧
      ∃ before behind stop, source.toList = before ++ behind ∧ byteLength before = e.pos ∧
        passBytes e.pos [] source.toList = (before.reverse, behind) ∧
        mark? source.toList e.pos = some (e.pos, stop) ∧
        ((∃ c, slice? e.pos stop source.toList = some [c]) ∨
          e.pos = byteLength source.toList ∧ stop = e.pos)

/-- The start of a token stands between characters, and the mark there covers one of them. -/
theorem mark?_of_mem {cs : List Char} {t : Token} (h : t ∈ (lexChars cs).toList) :
    ∃ before behind stop, cs = before ++ behind ∧ byteLength before = t.start ∧
      passBytes t.start [] cs = (before.reverse, behind) ∧ mark? cs t.start = some (t.start, stop) ∧
      ((∃ c, slice? t.start stop cs = some [c]) ∨ t.start = byteLength cs ∧ stop = t.start) := by
  obtain ⟨before, rest, hcs, hstart, -⟩ := slice?_eq_some_iff.1 (slice?_token h)
  rw [List.append_assoc] at hcs
  generalize t.text ++ rest = behind at hcs
  refine ⟨before, behind, byteLength before + byteLength (behind.take 1), hcs, hstart, ?_, ?_, ?_⟩
  · rw [hcs, ← hstart]
    simpa using passBytes_byteLength [] before behind
  · rw [hcs, ← hstart]
    exact mark?_append before behind
  · cases behind with
    | nil =>
      right
      rw [hcs, ← hstart]
      simp
    | cons c ds =>
      left
      refine ⟨c, slice?_eq_some_iff.2 ⟨before, ds, ?_, hstart, ?_⟩⟩
      · simpa using hcs
      · rw [hstart]
        rfl

/-- **The parser keeps to the places of tokens on every source**, and so do its errors. -/
theorem parse_positions (source : String) : PositionsUsable source := by
  have tw := Twin.lexChars source.toList
  constructor
  case token => exact fun ht => slice?_token ht
  case nonempty =>
    intro t ht
    have hne := text_ne_nil_of_mem ht
    have hpos : byteLength t.text ≠ 0 := fun h => hne (Text.eq_nil_of_byteLength h)
    rw [Token.stop]
    omega
  case ordered => exact (placed_lexChars source.toList).pairwise.1
  case eof => exact ⟨start_eof_lexChars source.toList, start_eof_lexChars source.toList⟩
  case piece => exact fun h => looksAt_of_pieces h
  case index => exact fun i n => (lex source).getElem?_toList i n
  case kept =>
    intro i j hij hj
    obtain ⟨t, u, ht, hu, hslice⟩ := slice?_between hij hj
    refine ⟨t, u, _, ht, hu, hslice, ?_⟩
    rw [Parser.written, List.reverse_reverse]
    rfl
  case routines => exact fun hi hn hk hb => tw.routinesStay hi hn hk hb
  case counters => exact countersStay
  case error =>
    intro e he
    rcases tw.parse with ⟨f, _, hf, -, -⟩ | ⟨c, _, k, -, hc, -, -, -⟩
    · cases hf.symm.trans he
    · cases hc.symm.trans he
      have hmem := (lex source).current_mem k
      exact ⟨⟨_, hmem, rfl⟩, mark?_of_mem hmem⟩

end Ambient
