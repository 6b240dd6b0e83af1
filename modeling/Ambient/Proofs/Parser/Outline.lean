import Ambient.Proofs.Parser.ForwardDecls
import Ambient.Proofs.Parser.Operand
import Ambient.Proofs.Tree.Outline

/-!
# Blocks and outlines

A block is read in rounds: each of them passes some tokens and gives an item or nothing
(`readBlock_eq_ok_iff`). Whatever the items look like, the block ends at its own brace if no round
passes a brace without its partner (`InBraces.behindBrace`).

A source with the tokens of an outline is read part by part: a part that is an item gives it, and
every other part is passed without giving anything (`Outlines.part`). So a block with an outline is
read, it ends at its own brace, and every item is in the block that it stands in
(`readBlock_ownBrace`).
-/

namespace Ambient

variable {m n count : Nat} {ty : TyReader} {block : Parser (List Item)} {ls us : List Lexeme}
variable {b : Bool} {close : Kind} {vs : List Item}

theorem Rounds.mono {count' : Nat} {item : Parser (Option Item)} (hc : count ≤ count')
    (h : Rounds close item count b ls vs us) : Rounds close item count' b ls vs us :=
  fun n hn => h n (Nat.lt_of_le_of_lt hc hn)

/-! ## Rounds -/

/-- A round of a loop over items: the tokens that it passes, and the item that it gives, if any. -/
structure Round where
  kinds : List Kind
  item? : Option Item

/-- Rounds one behind the other, from a cursor to another one. None of them starts in front of the
closing token or at the end of the source. -/
inductive Rounded (close : Kind) (item : Parser (Option Item)) :
    Cursor → List Round → Cursor → Prop
  | nil (c : Cursor) : Rounded close item c [] c
  | cons {c c' d : Cursor} {r : Round} {rs : List Round}
    (hstart : ¬(c.kindAt 0 = close ∨ c.kindAt 0 = .eof)) (h : item c = .ok (r.item?, c'))
    (hkinds : c.kinds = r.kinds ++ c'.kinds) (hs : Rounded close item c' rs d) :
    Rounded close item c (r :: rs) d

/-- A loop over items goes round by round, up to the closing token or the end of the source. -/
theorem itemsUntil_eq_ok_iff {item : Parser (Option Item)} (hitem : Forward item) {c d : Cursor}
    {is : List Item} (heof : c.eof.kind = .eof) :
    Parser.itemsUntil close item n c = .ok (is, d) ↔
      ∃ rs, Rounded close item c rs d ∧ (d.kindAt 0 = close ∨ d.kindAt 0 = .eof) ∧ rs.length < n ∧
        is = rs.filterMap Round.item? := by
  -- Each round uses up one of the bound, and so does the look at the token that ends the loop.
  induction n generalizing c is with
  | zero =>
    constructor
    · intro h
      cases h
    · rintro ⟨rs, -, -, hlength, -⟩
      exact absurd hlength (Nat.not_lt_zero _)
  | succ n ih =>
    by_cases hstop : c.kindAt 0 = close ∨ c.kindAt 0 = .eof
    · rw [itemsUntil_done hstop]
      constructor
      · intro h
        obtain ⟨rfl, rfl⟩ := Prod.mk.inj (Except.ok.inj h)
        exact ⟨[], .nil _, hstop, Nat.succ_pos n, rfl⟩
      · rintro ⟨rs, hrs, -, -, rfl⟩
        cases hrs with
        | nil => rfl
        | cons hstart _ _ _ => exact absurd hstop hstart
    · rw [itemsUntil_round hstop]
      constructor
      · intro h
        obtain ⟨i, c', hi, h⟩ := Parser.bind_eq_ok h
        obtain ⟨is', d', his, h⟩ := Parser.bind_eq_ok h
        obtain ⟨rfl, rfl⟩ := Prod.mk.inj (Except.ok.inj h)
        obtain ⟨heof', ts, hts, -⟩ := hitem c heof i c' hi
        obtain ⟨rs, hrs, hend, hlength, rfl⟩ := (ih (heof'.symm ▸ heof)).1 his
        refine ⟨⟨ts.map Token.kind, i⟩ :: rs, .cons hstop hi ?_ hrs, hend,
          Nat.succ_lt_succ hlength, ?_⟩
        · rw [Cursor.kinds, hts, List.map_append, Cursor.kinds]
        · cases i <;> rfl
      · rintro ⟨rs, hrs, hend, hlength, rfl⟩
        cases hrs with
        | nil => exact absurd hend hstop
        | @cons _ c' _ r rs _ h hkinds hs =>
          have hrest := (ih ((hitem c heof _ c' h).1.symm ▸ heof)).2
            ⟨rs, hs, hend, Nat.lt_of_succ_lt_succ hlength, rfl⟩
          rw [Parser.bind_apply, h]
          show (Parser.itemsUntil close item n c').bind _ = _
          rw [hrest, List.filterMap_cons]
          cases r.item? <;> rfl

namespace Rounded

variable {item : Parser (Option Item)} {c d : Cursor} {rs : List Round}

theorem eof_eq (hitem : Forward item) (heof : c.eof.kind = .eof)
    (h : Rounded close item c rs d) : d.eof = c.eof := by
  induction h with
  | nil c => rfl
  | cons _ h _ _ ih =>
    have heof' := (hitem _ heof _ _ h).1
    exact (ih (heof'.symm ▸ heof)).trans heof'

/-- **Rounds that pass no brace without its partner stay in their block.** -/
theorem behindBrace (h : Rounded close item c rs d) (hb : ∀ r ∈ rs, Braced r.kinds) :
    behindBrace 0 c.kinds = Ambient.behindBrace 0 d.kinds := by
  induction h with
  | nil c => rfl
  | cons _ _ hkinds _ ih =>
    rw [hkinds, hb _ List.mem_cons_self]
    exact ih fun r hr => hb r (List.mem_cons_of_mem _ hr)

end Rounded

/-! ## Blocks -/

/-- Rounds in braces, from the one brace up to behind the other one, with a bound on the nesting in
them. -/
structure InBraces (n : Nat) (c : Cursor) (rs : List Round) (c' : Cursor) : Prop where
  left : c.kindAt 0 = .lbrace
  right : ∃ d, Rounded .rbrace (Parser.item (n + 1) (Parser.readTy (n + 1)) (Parser.readBlock n))
    c.advance rs d ∧ d.kindAt 0 = .rbrace ∧ c' = d.advance

theorem forward_blockItem (n : Nat) :
    Forward (Parser.item (n + 1) (Parser.readTy (n + 1)) (Parser.readBlock n)) :=
  forward_item (faithful_readTy (n + 1)).forward (forward_readBlock n)

/-- **A block is read if it is made of rounds in braces**, and gives the items of the rounds. -/
theorem readBlock_eq_ok_iff {c c' : Cursor} {is : List Item} (heof : c.eof.kind = .eof) :
    Parser.readBlock (n + 1) c = .ok (is, c') ↔
      ∃ rs, InBraces n c rs c' ∧ rs.length ≤ n ∧ is = rs.filterMap Round.item? := by
  have heof' : c.advance.eof.kind = .eof := heof
  constructor
  · intro h
    obtain ⟨_, c₁, hopen, h⟩ := Parser.bind_eq_ok h
    obtain ⟨is', d, his, h⟩ := Parser.bind_eq_ok h
    obtain ⟨_, c₂, hclose, h⟩ := Parser.bind_eq_ok h
    obtain ⟨rfl, rfl⟩ := Prod.mk.inj (Except.ok.inj h)
    obtain ⟨hleft, rfl⟩ := expect_eq_ok_iff.1 hopen
    obtain ⟨hright, rfl⟩ := expect_eq_ok_iff.1 hclose
    obtain ⟨rs, hrs, -, hlength, rfl⟩ := (itemsUntil_eq_ok_iff (forward_blockItem n) heof').1 his
    exact ⟨rs, ⟨hleft, d, hrs, hright, rfl⟩, Nat.le_of_lt_succ hlength, rfl⟩
  · rintro ⟨rs, ⟨hleft, d, hrs, hright, rfl⟩, hlength, rfl⟩
    have hitems := (itemsUntil_eq_ok_iff (forward_blockItem n) heof').2
      ⟨rs, hrs, .inl hright, Nat.lt_succ_of_le hlength, rfl⟩
    rw [Parser.readBlock, Parser.bind_apply, expect_eq_ok_iff.2 ⟨hleft, rfl⟩]
    show (Parser.itemsUntil .rbrace _ (n + 1) c.advance).bind _ = _
    rw [hitems]
    show (Parser.expect .rbrace d).bind _ = _
    rw [expect_eq_ok_iff.2 ⟨hright, rfl⟩]
    rfl

theorem kinds_of_kindAt {c : Cursor} {k : Kind} (heof : c.eof.kind = .eof) (hne : k ≠ .eof)
    (h : c.kindAt 0 = k) : c.kinds = k :: c.advance.kinds := by
  obtain ⟨_ | ⟨t, ts⟩, eof⟩ := c
  · exact absurd (h.symm.trans heof) hne
  · rw [Cursor.kinds, Cursor.kinds, Cursor.advance, List.map_cons, show t.kind = k from h]
    rfl

/-- The brace behind the rounds is the one that counting finds. -/
theorem InBraces.behindBrace {c c' : Cursor} {rs : List Round} (heof : c.eof.kind = .eof)
    (h : InBraces n c rs c') (hb : ∀ r ∈ rs, Braced r.kinds) :
    behindBrace 0 c.advance.kinds = some c'.kinds := by
  obtain ⟨-, d, hrs, hright, rfl⟩ := h
  have hadvance : c.advance.eof.kind = .eof := heof
  have heof' : d.eof.kind = .eof := hrs.eof_eq (forward_blockItem n) hadvance ▸ hadvance
  rw [hrs.behindBrace hb, kinds_of_kindAt heof' (by simp) hright]
  rfl

/-! ## What is passed -/

/-- A token that starts nothing is passed alone. -/
theorem takes_stray {l : Lexeme} (hl : l.kind.isStray = true)
    (hglobal : l.kind = .ident "global" → kindAt us 0 ≠ .lbrace) :
    Takes (Parser.item n ty block) (l :: us) none us := by
  have hplain (d : Option String) :
      Takes (Parser.plainItem n ty block l.doc false) ({ l with doc := d } :: us) none us := by
    refine (takes_peekAt 1).bind (takes_peek.bind ?_)
    rw [kindAt_cons_zero, kindAt_cons_succ]
    split
    · next k hk =>
      rw [show l.kind = .keyword k from hk] at hl
      unfold Parser.keywordItem
      split <;> first | cases hl | exact takes_advance.bind .pure
    · next hk =>
      refine takes_advance.bind ?_
      rw [if_neg (hglobal hk)]
      exact .pure
    · next hk =>
      rw [show l.kind = .symbol .lbrace from hk] at hl
      cases hl
    · exact takes_advance.bind .pure
  have hword : kindAt (l :: us) 0 ≠ .keyword .exportKw ∧ kindAt (l :: us) 0 ≠ .keyword .declareKw := by
    constructor <;> intro hk <;> rw [kindAt_cons_zero] at hk <;> rw [hk] at hl <;> cases hl
  have hread : Reads false true (Parser.item n ty block)
      (documented l.doc (Place.file.lexemes false ++ l :: us)) none us :=
    Reads.words (by simp) hword hplain
  exact hread

/-- Several tokens that start nothing are passed one by one. -/
theorem Strays.rounds {ls ms : List Lexeme} (h : Strays ls) (hclose : close = .rbrace ∨ close = .eof)
    (hms : Rounds close (Parser.item n ty block) count b ms vs us) :
    Rounds close (Parser.item n ty block) (ls.length + count) b (ls ++ ms) vs us := by
  induction ls with
  | nil => simpa using hms
  | cons l ls ih =>
    have hl := h.stray l List.mem_cons_self
    have hne : l.kind ≠ close ∧ l.kind ≠ .eof := by
      constructor <;> rintro hk
      · rcases hclose with rfl | rfl <;> rw [hk] at hl <;> cases hl
      · rw [hk] at hl
        cases hl
    have hstray : Takes (Parser.item n ty block) (l :: (ls ++ ms)) none (ls ++ ms) := by
      refine takes_stray hl fun hglobal => ?_
      cases ls with
      | nil => exact absurd hglobal (h.last l rfl)
      | cons l' ls =>
        intro hk
        have hl' := h.stray l' (by simp)
        rw [show l'.kind = .lbrace from hk] at hl'
        cases hl'
    have hrest : Strays ls := by
      refine ⟨fun m hm => h.stray m (List.mem_cons_of_mem l hm), fun m hm => h.last m ?_⟩
      cases ls with
      | nil => cases hm
      | cons l' ls => rwa [List.getLast?_cons_cons]
    have hls : kindAt (l :: (ls ++ ms)) 0 ≠ close ∧ kindAt (l :: (ls ++ ms)) 0 ≠ .eof := hne
    rw [List.length_cons, Nat.add_right_comm]
    exact Rounds.round hls hstray.reads (ih hrest)

theorem takes_statement (h : ∀ l ∈ ls, l.kind ≠ .semicolon) :
    Takes Parser.statement (ls ++ .sym .semicolon :: us) () us := by
  refine takes_skip fun ts hts => ?_
  induction ls generalizing ts with
  | nil =>
    cases hts with
    | cons ht hts =>
      rw [skipStatement, if_pos (by exact ht.1)]
      exact hts
  | cons l ls ih =>
    cases hts with
    | cons ht hts =>
      rw [skipStatement, if_neg (by rw [ht.1]; exact h l List.mem_cons_self)]
      exact ih (fun m hm => h m (List.mem_cons_of_mem l hm)) _ hts

/-- A statement is passed with its semicolon. -/
theorem PassedStatement.takes {p : Place} {k : Kind} {doc : Option String}
    (h : PassedStatement p.exported k ls) :
    Takes (Parser.item n ty block)
      (documented doc (p.lexemes false ++ { kind := k } :: (ls ++ .sym .semicolon :: us))) none
      us := by
  have hskip (d : Option String) : Takes (Parser.statement >>= fun _ => pure (none : Option Item))
      ({ kind := k, doc := d } :: (ls ++ .sym .semicolon :: us)) none us := by
    have hls : ∀ l ∈ { kind := k, doc := d } :: ls, l.kind ≠ .semicolon := by
      refine List.forall_mem_cons.2 ⟨?_, h.noSemicolon⟩
      rcases h.head with rfl | ⟨-, rfl | rfl⟩ <;> simp
    exact (takes_statement hls).bind .pure
  rcases h.head with rfl | ⟨hp, hk⟩
  · exact Reads.item (b := true) rfl fun d => Reads.plainItem (k := .importKw) rfl (hskip d)
  · refine Reads.words (b := true) (by simp) ?_ fun d => ?_
    · rcases hk with rfl | rfl <;> simp
    rw [hp, if_pos rfl]
    have hfirst : kindAt (documented d ({ kind := k } :: (ls ++ .sym .semicolon :: us))) 0 = k := rfl
    refine Takes.then (takes_accept_false ?_) ?_
    · rcases hk with rfl | rfl <;> simp
    refine Takes.then takes_peek (Takes.then (takes_peekAt 1) (Takes.then (takes_peekAt 2) ?_))
    rw [hfirst, if_neg (by rcases hk with rfl | rfl <;> simp)]
    refine Takes.then (takes_accept_false ?_) (Takes.then takes_peek ?_)
    · rcases hk with rfl | rfl <;> simp
    rw [hfirst, if_pos hk]
    exact hskip d

/-! ## Parts -/

/-- The reader reads the items of every block whose outline has at most `m` lexemes, the braces
included. -/
structure Outlines (m : Nat) (block : Parser (List Item)) : Prop where
  items : ∀ {xs : List Part} {us : List Lexeme}, legibleParts xs →
    (lexemesParts xs).length + 2 ≤ m →
    Reads false (clearItems (itemsOf xs)) block
      (.sym .lbrace :: (lexemesParts xs ++ .sym .rbrace :: us))
      (rewrittenItems .reread (itemsOf xs)) us

/-- One round, that takes the lexemes. -/
theorem Rounds.single {ok : Bool} {i : Option Item} {ms : List Lexeme}
    (hclose : close = .rbrace ∨ close = .eof) (hls : StartsWith (fun k => k ≠ .rbrace ∧ k ≠ .eof) ls)
    (hread : Reads false ok (Parser.item n ty block) (ls ++ ms) i ms)
    (hms : Rounds close (Parser.item n ty block) count b ms vs us) :
    Rounds close (Parser.item n ty block) (ls.length + count) (ok && b) (ls ++ ms) (i.toList ++ vs)
      us := by
  obtain ⟨l, r, rfl, hl⟩ := hls
  have hne : l.kind ≠ close ∧ l.kind ≠ .eof := by
    rcases hclose with rfl | rfl
    · exact hl
    · exact ⟨hl.2, hl.2⟩
  have hcount : count + 1 ≤ (l :: r).length + count := by
    rw [List.length_cons]
    omega
  exact Rounds.mono hcount (Rounds.round hne hread hms)

theorem PassedStatement.startsWith {p : Place} {k : Kind} (h : PassedStatement p.exported k ls) :
    StartsWith (fun k => k ≠ .rbrace ∧ k ≠ .eof) (p.lexemes false ++ { kind := k } :: us) := by
  rcases h.head with rfl | ⟨hp, -⟩
  · exact Place.startsWith rfl
  · rw [Place.lexemes, hp]
    exact ⟨.kw .exportKw, _, rfl, by simp⟩

/-- A part takes one round for every lexeme at most, and gives the item that it is. -/
theorem Outlines.part (ho : Outlines m block) (hr : Reader m ty) (hb : Blocks m block)
    (hn : m < n) (hclose : close = .rbrace ∨ close = .eof) {x : Part} (h : x.Legible)
    (hm : x.lexemes.length ≤ m)
    (hms : Rounds close (Parser.item n ty block) count b us vs ls) :
    Rounds close (Parser.item n ty block) (x.lexemes.length + count)
      (x.item?.all Item.clear && b) (x.lexemes ++ us)
      ((x.item?.map Item.reread).toList ++ vs) ls := by
  cases x with
  | item p i =>
    rw [Part.Legible] at h
    rw [Part.lexemes] at hm ⊢
    exact Rounds.single hclose i.startsWith (hr.item hb hn h hm) hms
  | statement p doc k ls =>
    rw [Part.Legible] at h
    rw [Part.lexemes]
    have hread : Reads false true (Parser.item n ty block) (documented doc (p.lexemes false ++
        { kind := k } :: (ls ++ [.sym .semicolon])) ++ us) none us := by
      rw [← documented_append h.startsWith.ne_nil, List.append_assoc, List.cons_append,
        List.append_assoc]
      exact h.takes.reads
    exact Rounds.single hclose (h.startsWith.documented doc) hread hms
  | reexport names module =>
    rw [Part.Legible] at h
    rw [Part.lexemes] at hm ⊢
    simp only [List.length_append, List.length_cons, List.length_nil] at hm
    have hread : Takes (Parser.item n ty block) _ _ us :=
      takes_exportList h (.inr ⟨{ kind := .string module }, rfl⟩) (by omega)
    refine Rounds.single hclose ⟨.kw .exportKw, _, rfl, by simp⟩ ?_ hms
    show Reads false true _ _ (some (Item.exportStatement (.named names))) us
    simpa using hread.reads
  | strays ls =>
    rw [Part.Legible] at h
    rw [Part.lexemes]
    exact h.rounds hclose hms
  | ns p name doc parts =>
    rw [Part.Legible] at h
    rw [Part.lexemes] at hm ⊢
    simp only [length_documented, List.length_append, List.length_cons, List.length_nil] at hm
    have hfirst : StartsWith (fun k => k ≠ .rbrace ∧ k ≠ .eof) (p.lexemes true ++
        (.kw .namespaceKw :: (lexemesOf name ++
          (.sym .lbrace :: (lexemesParts parts ++ [.sym .rbrace]))))) := Place.startsWith rfl
    have hblock : Reads false (clearItems (itemsOf parts)) block _ _ us := ho.items h.2 (by omega)
    refine Rounds.single hclose (hfirst.documented _) ?_ hms
    rw [← documented_append hfirst.ne_nil]
    simp only [List.append_assoc, List.cons_append, List.nil_append]
    exact Reads.item rfl fun d => reads_namespace h.1 hblock d
  | ambientModule p name doc parts =>
    rw [Part.Legible] at h
    rw [Part.lexemes] at hm ⊢
    simp only [length_documented, List.length_append, List.length_cons, List.length_nil] at hm
    have hfirst : StartsWith (fun k => k ≠ .rbrace ∧ k ≠ .eof) (p.lexemes true ++
        (moduleLexemes name ++ (.sym .lbrace :: (lexemesParts parts ++ [.sym .rbrace])))) :=
      Place.startsWith (opensItem_moduleLexemes name _)
    have hblock : Reads false (clearItems (itemsOf parts)) block _ _ us := ho.items h (by omega)
    refine Rounds.single hclose (hfirst.documented _) ?_ hms
    rw [← documented_append hfirst.ne_nil]
    simp only [List.append_assoc, List.cons_append, List.nil_append]
    exact Reads.item (opensItem_moduleLexemes name _) fun d => reads_ambientModule name hblock d

/-- Parts one after the other, and then the end of the loop. -/
theorem Outlines.rounds (ho : Outlines m block) (hr : Reader m ty) (hb : Blocks m block)
    (hn : m < n) (hclose : close = .rbrace ∨ close = .eof) {xs : List Part} (h : legibleParts xs)
    (hm : (lexemesParts xs).length ≤ m) (hu : kindAt us 0 = close) :
    Rounds close (Parser.item n ty block) (lexemesParts xs).length (clearItems (itemsOf xs))
      (lexemesParts xs ++ us) (rewrittenItems .reread (itemsOf xs)) us := by
  rw [clearItems_eq_all, rewrittenItems_eq_map]
  induction xs with
  | nil => exact Rounds.done hu
  | cons x xs ih =>
    rw [legibleParts] at h
    rw [lexemesParts, List.length_append] at hm
    have hpart := ho.part hr hb hn hclose h.1 (by omega) (ih h.2 (by omega))
    rw [lexemesParts, List.length_append, itemsOf, List.all_append, List.map_append,
      List.append_assoc]
    cases hi : x.item? with
    | none =>
      rw [hi] at hpart
      exact hpart
    | some i =>
      rw [hi] at hpart
      rw [Option.toList_some, List.all_cons, List.all_nil, Bool.and_true]
      exact hpart

/-- **Blocks are read part by part,** as long as they have no more lexemes than the bound on
nesting. -/
theorem outlines_readBlock (m : Nat) : Outlines m (Parser.readBlock m) := by
  induction m with
  | zero =>
    constructor
    intro xs us h hm
    omega
  | succ m ih =>
    constructor
    intro xs us h hm
    -- The braces take two of the `m + 1` lexemes, so what stands between them fits below `m`.
    have hr := (reader_readTy (m + 1)).mono (Nat.le_succ m)
    have hrounds : Rounds .rbrace _ _ _ _ _ (.sym .rbrace :: us) :=
      ih.rounds hr (blocks_readBlock m) (Nat.lt_succ_self m) (.inl rfl) h (by omega) rfl
    have hitems : Reads false (clearItems (itemsOf xs)) (Parser.itemsUntil .rbrace _ (m + 1)) _ _
        (.sym .rbrace :: us) := hrounds (m + 1) (by omega)
    refine Takes.then (takes_expect rfl) ?_
    rw [← Bool.and_true (clearItems _)]
    exact hitems.bind_false (Takes.reads ((takes_expect rfl).bind .pure))

/-- An import with a list in braces, and an alias behind it. -/
def importThenAlias : List Part :=
  [.statement .file none (.keyword .importKw)
    [.sym .lbrace, { kind := .ident "A" }, .sym .rbrace, .kw .fromKw, { kind := .string "m" }],
   .item .file (.decl (.typeAlias ⟨"B", none, [], .named "C" []⟩))]

theorem legible_importThenAlias : legibleParts importThenAlias := by
  have hname : TypeAlias.Legible ⟨"B", none, [], .named "C" []⟩ :=
    ⟨.inl ⟨'B', [], rfl, rfl⟩, by simp [legibleDoc?], trivial, rfl,
      (Ty.legible_named ⟨'C', [], rfl, rfl⟩).2⟩
  rw [importThenAlias, legibleParts, legibleParts, legibleParts, Part.Legible, Part.Legible,
    Item.Legible, Decl.Legible]
  exact ⟨⟨.inl rfl, by simp⟩, hname, trivial⟩

/-- The text of the import and the alias, in braces. -/
theorem shows_importThenAlias :
    Shows (lex "\x7b import \x7b A \x7d from \"m\";\ntype B = C;\n\x7d").cursor
      (.sym .lbrace :: (lexemesParts importThenAlias ++ [.sym .rbrace])) := by
  have hitem := legible_importThenAlias
  rw [importThenAlias, legibleParts, legibleParts, Part.Legible] at hitem
  have hopen {next : List Char} : Spells "\x7b import \x7b A \x7d from \"m\";\n"
      [.sym .lbrace, .kw .importKw, .sym .lbrace, { kind := .ident "A" }, .sym .rbrace,
        .kw .fromKw, { kind := .string "m" }, .sym .semicolon] next := .fixed rfl
  have hclose : Spells "\x7d" [.sym .rbrace] [] := .fixed rfl
  have hshows := (hopen.append ((Item.spells .file 0 _ hitem.2.1).append hclose)).shows
  have htext : "\x7b import \x7b A \x7d from \"m\";\n" ++ (Item.print .file 0
      (.decl (.typeAlias ⟨"B", none, [], .named "C" []⟩)) ++ "\x7d") =
      "\x7b import \x7b A \x7d from \"m\";\ntype B = C;\n\x7d" := by decide
  rw [htext] at hshows
  simpa [importThenAlias, lexemesParts, Part.lexemes, documented, Place.lexemes, Place.file,
    lexemesIf, Lexeme.kw] using hshows

/-- A block with an alias that has a bar in front of its only alternative, and a class whose property
has an initializer, which is passed over. -/
def barredBlock : Lexed :=
  lex "\x7b type A = | B; class C \x7b x = 1; \x7d \x7d"

/-- The rounds in it. -/
def barredRounds : List Round :=
  [⟨[.keyword .typeKw, .ident "A", .eq, .symbol .pipe, .ident "B", .semicolon],
      some (.decl (.typeAlias ⟨"A", none, [], .named "B" []⟩))⟩,
    ⟨[.keyword .classKw, .ident "C", .lbrace, .ident "x", .eq, .number "1", .semicolon, .rbrace],
      some (.decl (.cls ⟨"C", none, false, [], none, [],
        [⟨none, .property "x" none false false {}⟩]⟩))⟩]

theorem inBraces_barredRounds :
    InBraces 15 barredBlock.cursor barredRounds (barredBlock.cursorAt 16) := by
  have hclass : Rounded .rbrace (Parser.item 16 (Parser.readTy 16) (Parser.readBlock 15))
      (barredBlock.cursorAt 7) barredRounds.tail (barredBlock.cursorAt 15) :=
    .cons (by decide) rfl rfl (.nil _)
  exact ⟨rfl, barredBlock.cursorAt 15, .cons (by decide) rfl rfl hclass, rfl, rfl⟩

theorem braced_barredRounds : ∀ r ∈ barredRounds, Braced r.kinds := by
  have hhead : Braced [.keyword .classKw, .ident "C"] := .of_noBrace (by simp)
  have hbody : Braced [.ident "x", .eq, .number "1", .semicolon] := .of_noBrace (by simp)
  intro r hr
  rcases List.mem_pair.1 hr with rfl | rfl
  · exact .of_noBrace (by simp)
  · exact hhead.append hbody.braces

/-- **A block ends at its own brace**, the one that counting finds. A block is read if it is made of
rounds in braces, of whatever form the items that they pass are; it gives the items of the rounds and
ends at its own brace if no round passes a brace without its partner. And a block with an outline is
read so, with the items in it that its outline has. -/
theorem readBlock_ownBrace (n : Nat) (c : Cursor) :
    (c.eof.kind = .eof → ∀ is c', Parser.readBlock (n + 1) c = .ok (is, c') ↔
      ∃ rs, InBraces n c rs c' ∧ rs.length ≤ n ∧ is = rs.filterMap Round.item?) ∧
    (c.eof.kind = .eof → ∀ rs c', InBraces n c rs c' → (∀ r ∈ rs, Braced r.kinds) →
      behindBrace 0 c.advance.kinds = some c'.kinds) ∧
    ∀ xs us, legibleParts xs → bracedParts xs → clearItems (itemsOf xs) = true →
      Shows c (.sym .lbrace :: (lexemesParts xs ++ .sym .rbrace :: us)) →
      (lexemesParts xs).length + 2 ≤ n →
      ∃ c', Parser.readBlock n c = .ok (rewrittenItems .reread (itemsOf xs), c') ∧ Shows c' us ∧
        behindBrace 0 c.advance.kinds = some c'.kinds := by
  refine ⟨fun heof is c' => readBlock_eq_ok_iff heof,
    fun heof rs c' h hb => h.behindBrace heof hb, ?_⟩
  intro xs us h hb hclear hc hn
  have hread : Reads false _ (Parser.readBlock n) _ _ us := (outlines_readBlock n).items h hn
  rw [hclear] at hread
  obtain ⟨c', hc', hus⟩ := hread c hc
  refine ⟨c', hc', hus, ?_⟩
  rw [Cursor.kinds, map_kind_of_describes hc.advance.rest, behindBrace_lexemesParts h hb,
    Cursor.kinds, map_kind_of_describes hus.rest]

/-- The braces of a passed list are not taken for the end of the block, nor are those of a class. -/
theorem readBlock_ownBrace_both :
    (let c := (lex "\x7b import \x7b A \x7d from \"m\";\ntype B = C;\n\x7d").cursor
    ∃ c', Parser.readBlock 16 c = .ok ((File.alias "B" (.named "C" [])).items, c') ∧ Shows c' [] ∧
      behindBrace 0 c.advance.kinds = some c'.kinds) ∧
    Parser.readBlock 16 barredBlock.cursor =
      .ok (barredRounds.filterMap Round.item?, barredBlock.cursorAt 16) ∧
    behindBrace 0 barredBlock.cursor.advance.kinds = some (barredBlock.cursorAt 16).kinds := by
  constructor
  · intro c
    have hbraced : bracedParts importThenAlias := by
      rw [importThenAlias, bracedParts, bracedParts, bracedParts, Part.Braced, Part.Braced]
      exact ⟨fun _ _ => rfl, .of_noBrace (by decide), trivial⟩
    exact (readBlock_ownBrace 16 c).2.2 importThenAlias [] legible_importThenAlias hbraced rfl
      shows_importThenAlias (by decide)
  · obtain ⟨hread, hbrace, -⟩ := readBlock_ownBrace 15 barredBlock.cursor
    exact ⟨(hread rfl _ _).2 ⟨barredRounds, inBraces_barredRounds, by decide, rfl⟩,
      hbrace rfl _ _ inBraces_barredRounds braced_barredRounds⟩

/-- A source is read as the items of its outline if they are clear and refused if they are not. -/
theorem Shows.parse_outline {s : String} {xs : List Part} (h : legibleParts xs)
    (hs : Shows (lex s).cursor (lexemesParts xs)) (g : File) :
    parse s = .ok g ↔ (File.mk (itemsOf xs)).clear = true ∧ g = (File.mk (itemsOf xs)).reread := by
  have hr := (reader_readTy ((lexemesParts xs).length + 1)).mono (Nat.le_succ _)
  have hb := (blocks_readBlock ((lexemesParts xs).length + 1)).mono (Nat.le_succ _)
  have ho : Outlines (lexemesParts xs).length (Parser.readBlock ((lexemesParts xs).length + 1)) :=
    ⟨fun h hm => (outlines_readBlock _).items h (Nat.le_succ_of_le hm)⟩
  have hrounds : Rounds .eof _ _ _ _ _ [] :=
    ho.rounds hr hb (Nat.lt_succ_self _) (.inr rfl) h (Nat.le_refl _) rfl
  have hitems := hrounds _ (Nat.lt_succ_self _)
  rw [List.append_nil, clearItems_eq_all, rewrittenItems_eq_map] at hitems
  exact hs.parse_eq_ok (hitems.bind_pure File.mk) g

end Ambient
