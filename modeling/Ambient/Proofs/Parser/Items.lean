import Ambient.Proofs.Parser.Decls
import Ambient.Proofs.Parser.Faithful
import Ambient.Proofs.Tree.SpellingDecl

/-!
# Reading files

An item is told from the others by its first token behind the words `export` and `declare`
(`Reads.item`, `Reads.plainItem`). The items of a body are read by a reader for blocks, which is
there for every bound on the nesting (`blocks_readBlock`). A printed file is cut into its lexemes,
and so it is read back if its types are clear and refused if they are not (`parse_print`).
-/

namespace Ambient

variable {m n : Nat} {ty : TyReader} {block : Parser (List Item)} {ls us : List Lexeme}
variable {p : Place} {runtime b : Bool} {doc : Option String}

/-- A value is made of what a parser reads. -/
theorem Reads.bind_pure {α β : Type} {q : Parser α} {v : α} (g : α → β)
    (hq : Reads false b q ls v us) :
    Reads false b (q >>= fun x => pure (g x)) ls (g v) us := by
  rw [← Bool.and_true b]
  exact hq.bind_false Takes.pure.reads

/-! ## The words before an item -/

/-- The words before an item, and whether `export` is one of them. -/
def Parser.itemWords : Parser Bool := fun c =>
  .ok ((itemModifiers c.rest).1, { c with rest := (itemModifiers c.rest).2 })

/-- Kinds of the first token of an item behind the words before it. -/
def Kind.opensItem : Kind → Bool
  | .keyword .exportKw | .keyword .declareKw | .keyword .defaultKw | .keyword .asKw | .symbol .eq
  | .symbol .star | .symbol .rbrace | .eof => false
  | _ => true

theorem Kind.opensItem.ne {k : Kind} (h : k.opensItem = true) :
    (k ≠ .keyword .exportKw ∧ k ≠ .keyword .declareKw) ∧ (k ≠ .symbol .eq ∧
      k ≠ .keyword .defaultKw ∧ ¬(k = .keyword .asKw ∨ k = .symbol .star)) ∧
        k ≠ .symbol .rbrace ∧ k ≠ .eof := by
  refine ⟨⟨?_, ?_⟩, ⟨?_, ?_, ?_⟩, ?_, ?_⟩ <;> rintro (rfl | rfl) <;> cases h

/-- Words before an item are passed up to what is none. -/
theorem itemModifiers_words {ws : List Lexeme}
    (hws : ∀ l ∈ ws, l.kind = .keyword .exportKw ∨ l.kind = .keyword .declareKw)
    (hls : kindAt ls 0 ≠ .keyword .exportKw ∧ kindAt ls 0 ≠ .keyword .declareKw) {ts : List Token}
    (hts : List.Forall₂ Lexeme.Describes (ws ++ ls) ts) :
    (itemModifiers ts).1 = ws.any (·.kind == .keyword .exportKw) ∧
      List.Forall₂ Lexeme.Describes ls (itemModifiers ts).2 := by
  induction ws generalizing ts with
  | nil =>
    rw [List.nil_append] at hts
    cases hts with
    | nil => exact ⟨rfl, .nil⟩
    | cons ht h =>
      rw [kindAt_cons_zero, ← ht.1] at hls
      rw [itemModifiers, if_neg hls.1, if_neg hls.2]
      exact ⟨rfl, .cons ht h⟩
  | cons l ws ih =>
    cases hts with
    | cons ht h =>
      obtain ⟨hany, hrest⟩ := ih (fun l hl => hws l (List.mem_cons_of_mem _ hl)) h
      rw [itemModifiers, ht.1, List.any_cons]
      rcases hws l List.mem_cons_self with hl | hl
      · rw [hl, if_pos rfl]
        exact ⟨rfl, hrest⟩
      · rw [hl, if_neg (by simp), if_pos rfl]
        exact ⟨hany, hrest⟩

theorem Place.lexemes_kind (p : Place) (runtime : Bool) :
    (∀ l ∈ p.lexemes runtime, l.kind = .keyword .exportKw ∨ l.kind = .keyword .declareKw) ∧
      (p.lexemes runtime).any (·.kind == .keyword .exportKw) = p.exported := by
  obtain ⟨exported, ambient⟩ := p
  cases exported <;> cases ambient <;> cases runtime <;> decide

/-- **The words before an item are passed.** The documentation before them is not kept. -/
theorem takes_itemWords (p : Place) (runtime : Bool)
    (hls : kindAt ls 0 ≠ .keyword .exportKw ∧ kindAt ls 0 ≠ .keyword .declareKw)
    (d : Option String) :
    ∃ d', Takes Parser.itemWords (documented d (p.lexemes runtime ++ ls)) p.exported
      (documented d' ls) := by
  obtain ⟨hkind, hany⟩ := p.lexemes_kind runtime
  -- The documentation belongs to the first word, and to the item itself only if there is none.
  cases hp : p.lexemes runtime with
  | nil =>
    rw [hp] at hany
    refine ⟨d, takes_scan fun ts hts => ?_⟩
    have hwords : List.Forall₂ Lexeme.Describes ([] ++ documented d ls) ts := hts
    rw [← hany]
    exact itemModifiers_words (by simp) (by simpa using hls) hwords
  | cons l ws =>
    rw [hp] at hkind hany
    obtain ⟨d', hd'⟩ := exists_documented ls
    refine ⟨d', takes_scan fun ts hts => ?_⟩
    have hwords : List.Forall₂ Lexeme.Describes (({ l with doc := d } :: ws) ++ ls) ts := hts
    obtain ⟨hexport, hrest⟩ :=
      itemModifiers_words (by simpa only [List.forall_mem_cons] using hkind) hls hwords
    rw [hd', ← hany]
    exact ⟨hexport, hrest⟩

/-! ## Items by their first token -/

theorem Parser.item_eq : item n ty block = peekDoc >>= fun doc => itemWords >>= fun exported =>
    if exported then exportedItem n ty block doc else plainItem n ty block doc false := rfl

/-- An item behind the word `export`, where no word stands that means something of its own. -/
theorem Reads.exportedItem {v : Option Item} (hls : (kindAt ls 0).opensItem = true)
    (hv : Reads false b (Parser.plainItem n ty block doc true) ls v us) :
    Reads false b (Parser.exportedItem n ty block doc) ls v us := by
  obtain ⟨-, ⟨heq, hdefault, hpassed⟩, -⟩ := Kind.opensItem.ne hls
  refine Takes.then (takes_accept_false heq) ?_
  refine Takes.then takes_peek (Takes.then (takes_peekAt 1) (Takes.then (takes_peekAt 2) ?_))
  rw [if_neg fun h => hdefault h.1]
  refine Takes.then (takes_accept_false hdefault) (Takes.then takes_peek ?_)
  rw [if_neg hpassed]
  exact hv

/-- What stands behind the documentation and the words before an item. -/
theorem Reads.words {v : Option Item} (hne : p.lexemes runtime ++ ls ≠ [])
    (hls : kindAt ls 0 ≠ .keyword .exportKw ∧ kindAt ls 0 ≠ .keyword .declareKw)
    (hv : ∀ d, Reads false b (if p.exported then Parser.exportedItem n ty block doc
      else Parser.plainItem n ty block doc false) (documented d ls) v us) :
    Reads false b (Parser.item n ty block) (documented doc (p.lexemes runtime ++ ls)) v us := by
  obtain ⟨l, r, hlr⟩ := List.exists_cons_of_ne_nil hne
  obtain ⟨d, hd⟩ := takes_itemWords p runtime hls doc
  have hpeek : Takes Parser.peekDoc (documented doc (p.lexemes runtime ++ ls)) doc
      (documented doc (p.lexemes runtime ++ ls)) := by
    rw [hlr]
    exact takes_peekDoc (l := { l with doc })
  rw [Parser.item_eq]
  exact Takes.then hpeek (Takes.then hd (hv d))

/-- An item behind its documentation and the words before it. -/
theorem Reads.item {v : Option Item} (hls : (kindAt ls 0).opensItem = true)
    (hv : ∀ d, Reads false b (Parser.plainItem n ty block doc p.exported) (documented d ls) v us) :
    Reads false b (Parser.item n ty block) (documented doc (p.lexemes runtime ++ ls)) v us := by
  obtain ⟨hword, -, -, heof⟩ := Kind.opensItem.ne hls
  have hne : p.lexemes runtime ++ ls ≠ [] := by
    rintro h
    rw [(List.append_eq_nil_iff.1 h).2, kindAt_nil] at heof
    exact heof rfl
  refine Reads.words hne hword fun d => ?_
  have hvd := hv d
  cases hp : p.exported with
  | false =>
    rw [hp] at hvd
    exact hvd
  | true =>
    rw [hp] at hvd
    exact hvd.exportedItem (by rwa [kindAt_documented_self])

/-- An item that starts with a reserved word. -/
theorem Reads.plainItem {exported : Bool} {v : Option Item} {k : Keyword}
    (hk : kindAt ls 0 = .keyword k)
    (hv : Reads false b (Parser.keywordItem n ty block doc k (kindAt ls 1)) ls v us) :
    Reads false b (Parser.plainItem n ty block doc exported) ls v us := by
  refine Takes.then (takes_peekAt 1) (Takes.then takes_peek ?_)
  rw [hk]
  exact hv

/-! ## Bodies -/

/-- The reader reads the items of every legible block of at most `m` lexemes. -/
structure Blocks (m : Nat) (block : Parser (List Item)) : Prop where
  items : ∀ {is : List Item} {us : List Lexeme}, legibleItems is →
    (lexemesBody is).flatten.length + 2 ≤ m →
    Reads false (clearItems is) block
      (.sym .lbrace :: ((lexemesBody is).flatten ++ .sym .rbrace :: us))
      (rewrittenItems .reread is) us

theorem Reader.mono {m' : Nat} (hr : Reader m ty) (h : m' ≤ m) : Reader m' ty where
  full ht hp hm hu := hr.full ht hp (Nat.le_trans hm h) hu
  operand ht hp hl hm hu := hr.operand ht hp hl (Nat.le_trans hm h) hu

theorem Blocks.mono {m' : Nat} (hb : Blocks m block) (h : m' ≤ m) : Blocks m' block where
  items his hm := hb.items his (Nat.le_trans hm h)

@[simp] theorem length_documented (d : Option String) (ls : List Lexeme) :
    (documented d ls).length = ls.length := by
  cases ls <;> rfl

/-- A namespace behind the words before it, around what its block reads. -/
theorem reads_namespace {name : String} (h : DottedPath name) {is : List Item}
    (hblock : Reads false b block (.sym .lbrace :: ls) is us) {exported : Bool}
    (d : Option String) :
    Reads false b (Parser.plainItem n ty block doc exported)
      (documented d (.kw .namespaceKw :: (lexemesOf name ++ .sym .lbrace :: ls)))
      (some (.decl (.ns ⟨name, doc, is⟩))) us := by
  refine Reads.plainItem (k := .namespaceKw) rfl (Takes.then takes_advance ?_)
  exact Reads.bind_pure some (Takes.then (takes_dottedName h (by simp))
    (hblock.bind_pure fun is => Item.decl (.ns ⟨name, doc, is⟩)))

/-- An ambient module behind the words before it, around what its block reads. -/
theorem reads_ambientModule (name : String) {is : List Item}
    (hblock : Reads false b block (.sym .lbrace :: ls) is us) {exported : Bool}
    (d : Option String) :
    Reads false b (Parser.plainItem n ty block doc exported)
      (documented d (moduleLexemes name ++ .sym .lbrace :: ls)) (some (.ambientModule name is))
      us := by
  -- The name `global` is printed as a word of its own, every other one as a string.
  unfold moduleLexemes
  split
  case isTrue hname =>
    rw [hname]
    refine Takes.then (takes_peekAt 1) (Takes.then takes_peek (Takes.then takes_advance ?_))
    rw [if_pos (by rfl)]
    exact hblock.bind_pure fun is => some (Item.ambientModule "global" is)
  case isFalse =>
    refine Reads.plainItem (k := .moduleKw) rfl (Reads.bind_pure some ?_)
    refine Takes.then (takes_expect rfl) (Takes.then takes_peek (Takes.then takes_advance ?_))
    refine Takes.then (takes_accept_false (by simp)) ?_
    exact hblock.bind_pure fun is => Item.ambientModule name is

/-- A namespace behind the words before it. -/
theorem Blocks.namespace (hb : Blocks m block) {s : Namespace} (h : s.Legible)
    (hm : s.lexemes.length ≤ m) {exported : Bool} (d : Option String) :
    Reads false s.clear (Parser.plainItem n ty block (s.doc.map rereadDoc) exported)
      (documented d (s.lexemes ++ us)) (some (.decl (.ns (s.rewritten .reread)))) us := by
  obtain ⟨name, sdoc, items⟩ := s
  rw [Namespace.Legible] at h
  simp only [Namespace.lexemes, List.length_append, List.length_singleton] at hm
  have hblock : Reads false (clearItems items) block _ _ us := hb.items h.2.2 (by omega)
  simp only [Namespace.lexemes, List.append_assoc, List.cons_append, List.nil_append]
  rw [Namespace.clear, Namespace.rewritten]
  exact reads_namespace h.1 hblock d

/-- An ambient module behind the words before it. -/
theorem Blocks.ambientModule (hb : Blocks m block) {name : String} {is : List Item}
    (h : legibleItems is) (hm : (lexemesBody is).flatten.length + 2 ≤ m) {exported : Bool}
    (d : Option String) :
    Reads false (clearItems is) (Parser.plainItem n ty block doc exported)
      (documented d (moduleLexemes name ++
        (.sym .lbrace :: ((lexemesBody is).flatten ++ .sym .rbrace :: us))))
      (some (.ambientModule name (rewrittenItems .reread is))) us :=
  reads_ambientModule name (hb.items h hm) d

/-! ## Declarations -/

/-- A reserved word at the front of a name is the name. -/
theorem MemberName.eq_text {name : String} (h : MemberName name) {k : Keyword}
    (hk : kindAt (lexemesOf name ++ us) 0 = .keyword k) : name = k.text := by
  rcases h.front us with ⟨hn | hn | ⟨v, hn, -⟩, -⟩ | ⟨hn, -⟩
  · rw [hk] at hn
    exact (Option.some.inj hn).symm
  · simp [hk] at hn
  · simp [hk] at hn
  · simp [hk] at hn

theorem exists_separated_cons (s : Symbol) (x : List Lexeme) (xs : List (List Lexeme)) :
    ∃ r, separated s (x :: xs) = x ++ r := by
  cases xs with
  | nil => exact ⟨[], (List.append_nil x).symm⟩
  | cons y xs => exact ⟨_, List.append_assoc x _ _⟩

/-- The word that declares a constant is not taken for the start of an enumeration. -/
theorem Variables.Legible.kindAt_one {v : Variables} (h : v.Legible) (hk : v.kind = .const) :
    kindAt (v.lexemes ++ us) 1 ≠ .keyword .enumKw := by
  obtain ⟨vdoc, kind, declarators⟩ := v
  cases declarators with
  | nil => exact absurd rfl h.ne_nil
  | cons x xs =>
    intro hkw
    obtain ⟨r, hr⟩ := exists_separated_cons .comma x.lexemes (xs.map Declarator.lexemes)
    rw [Variables.lexemes, List.map_cons, hr, Declarator.lexemes] at hkw
    simp only [List.append_assoc, List.cons_append, List.nil_append, kindAt_cons_succ] at hkw
    exact h.notEnum hk x rfl
      ((h.declarators x List.mem_cons_self).name.eq_text (k := .enumKw) hkw)

theorem Reader.variables (hr : Reader m ty) (hn : m < n) {v : Variables} (h : v.Legible)
    (hm : v.lexemes.length ≤ m) {exported : Bool} (d : Option String) :
    Reads false (v.declarators.all Declarator.clear)
      (Parser.plainItem n ty block (v.doc.map rereadDoc) exported)
      (documented d (v.lexemes ++ us)) (some (.decl (.vars (v.rewritten .reread)))) us := by
  have hread : Reads false (v.declarators.all Declarator.clear) _ _ _ us :=
    (hr.variableStatement hn h hm d).bind_pure fun v => some (Item.decl (.vars v))
  refine Reads.plainItem (k := v.kind.keyword) rfl ?_
  cases hk : v.kind with
  | const =>
    rw [hk] at hread
    show Reads _ _ (if _ then _ else _) _ _ _
    rw [if_neg (by simpa using h.kindAt_one hk)]
    exact hread
  | letBound =>
    rw [hk] at hread
    exact hread
  | var =>
    rw [hk] at hread
    exact hread

/-- An enumeration behind the words before it. -/
theorem reads_enum {e : Enum} (h : e.Legible) (hn : e.lexemes.length < n) {exported : Bool}
    (d : Option String) :
    Reads false true (Parser.plainItem n ty block (e.doc.map rereadDoc) exported)
      (documented d (e.lexemes ++ us)) (some (.decl (.enum (e.rewritten .reread)))) us := by
  have hread (d : Option String) : Reads false true _ _ _ us :=
    ((takes_enum h hn (l := { kind := .keyword .enumKw, doc := d }) rfl).reads).bind_pure
      fun e => some (Item.decl (.enum e))
  simp only [Enum.lexemes, List.append_assoc]
  cases hc : e.isConst with
  | false =>
    rw [hc] at hread
    exact Reads.plainItem (k := .enumKw) rfl (hread d)
  | true =>
    rw [hc] at hread
    exact Reads.plainItem (k := .constKw) rfl (Takes.then takes_advance (hread none))

/-- A type alias behind the words before it. -/
theorem Reader.aliased (hr : Reader m ty) (hn : m < n) {t : TypeAlias} (h : t.Legible)
    (hm : t.lexemes.length ≤ m) {exported : Bool} (d : Option String) :
    Reads false t.clear (Parser.plainItem n ty block (t.doc.map rereadDoc) exported)
      (documented d (t.lexemes ++ us)) (some (.decl (.typeAlias (t.rewritten .reread)))) us := by
  obtain ⟨l, hl, -, hk⟩ := h.name.word.lexeme
  have hw : l.kind.isWord = true := Kind.isWord_of_wordText hk
  refine Reads.plainItem (k := .typeKw) rfl ?_
  show Reads _ _ (if _ then _ else _) _ _ _
  rw [if_pos (by simpa [TypeAlias.lexemes, hl] using hw)]
  exact (hr.typeAlias hn h hm d).bind_pure fun t => some (Item.decl (.typeAlias t))

/-- A class behind the words before it. -/
theorem Reader.cls (hr : Reader m ty) (hn : m < n) {c : Class} (h : c.Legible)
    (hm : c.lexemes.length ≤ m) {exported : Bool} (d : Option String) :
    Reads false c.clear (Parser.plainItem n ty block (c.doc.map rereadDoc) exported)
      (documented d (c.lexemes ++ us)) (some (.decl (.cls (c.rewritten .reread)))) us := by
  have hread (d : Option String) : Reads false c.clear _ _ _ us :=
    (hr.classDecl hn h hm (l := { kind := .keyword .classKw, doc := d }) rfl).bind_pure
      fun c => some (Item.decl (.cls c))
  simp only [Class.lexemes, List.append_assoc]
  cases hc : c.isAbstract with
  | false =>
    rw [hc] at hread
    exact Reads.plainItem (k := .classKw) rfl (hread d)
  | true =>
    rw [hc] at hread
    exact Reads.plainItem (k := .abstractKw) rfl (Takes.then takes_advance (hread none))

/-- **A declaration behind the words before it.** -/
theorem Reader.decl (hr : Reader m ty) (hb : Blocks m block) (hn : m < n) {x : Decl}
    (h : x.Legible) (hm : x.lexemes.length ≤ m) {exported : Bool} (d : Option String) :
    Reads false x.clear (Parser.plainItem n ty block (x.doc.map rereadDoc) exported)
      (documented d (x.lexemes ++ us)) (some (.decl (x.rewritten .reread))) us := by
  cases x with
  | ns s =>
    rw [Decl.Legible] at h
    rw [Decl.lexemes] at hm ⊢
    rw [Decl.clear, Decl.rewritten]
    exact hb.namespace h hm d
  | interface i =>
    rw [Decl.Legible] at h
    rw [Decl.lexemes] at hm ⊢
    rw [Decl.clear, Decl.rewritten]
    refine Reads.plainItem (k := .interfaceKw) rfl ?_
    exact (hr.interface hn h hm d).bind_pure fun i => some (Item.decl (.interface i))
  | enum e =>
    rw [Decl.Legible] at h
    rw [Decl.lexemes] at hm ⊢
    rw [Decl.clear, Decl.rewritten]
    exact reads_enum h (by omega) d
  | typeAlias t =>
    rw [Decl.Legible] at h
    rw [Decl.lexemes] at hm ⊢
    rw [Decl.clear, Decl.rewritten]
    exact hr.aliased hn h hm d
  | cls c =>
    rw [Decl.Legible] at h
    rw [Decl.lexemes] at hm ⊢
    rw [Decl.clear, Decl.rewritten]
    exact hr.cls hn h hm d
  | function f =>
    rw [Decl.Legible] at h
    rw [Decl.lexemes] at hm ⊢
    rw [Decl.clear, Decl.rewritten]
    refine Reads.plainItem (k := .functionKw) rfl ?_
    exact (hr.functionDecl hn h hm d).bind_pure fun f => some (Item.decl (.function f))
  | vars v =>
    rw [Decl.Legible] at h
    rw [Decl.lexemes] at hm ⊢
    rw [Decl.clear, Decl.rewritten]
    exact hr.variables hn h hm d

/-! ## Export statements -/

theorem takes_exportedName {x : String × Option String}
    (h : (MemberName x.1 ∧ x.1 ≠ "type") ∧ ∀ o ∈ x.2, MemberName o)
    (hu : kindAt us 0 = .comma ∨ kindAt us 0 = .rbrace) :
    Takes Parser.exportedName (exportedNameLexemes x ++ us) x us := by
  obtain ⟨name, outside⟩ := x
  obtain ⟨⟨hname, htype⟩, ho⟩ := h
  rw [exportedNameLexemes, List.append_assoc]
  refine (takes_accept_false fun hk => htype (hname.eq_text (k := .typeKw) hk)).bind
    ((takes_propertyName hname).bind ?_)
  cases outside with
  | none =>
    have has : kindAt us 0 ≠ .keyword .asKw := by rcases hu with hu | hu <;> simp [hu]
    exact (takes_after?_none has).bind .pure
  | some o =>
    have hout : Reads false true _ _ _ us := (takes_propertyName (ho o rfl)).reads
    exact Takes.bind (Reads.after?_some (l := .kw .asKw) rfl hout) .pure

theorem exportedName_startsWith {x : String × Option String} (h : MemberName x.1) :
    StartsWith (fun k => k ≠ .rbrace ∧ k ≠ .eof) (exportedNameLexemes x) :=
  (h.startsWith _).imp fun _ hk => hk.2.2

/-- What stands behind the word `export`. -/
theorem takes_exported {v : Option Item}
    (hls : kindAt ls 0 ≠ .keyword .exportKw ∧ kindAt ls 0 ≠ .keyword .declareKw)
    (hv : ∀ d, Takes (Parser.exportedItem n ty block none) (documented d ls) v us) :
    Takes (Parser.item n ty block) (.kw .exportKw :: ls) v us := by
  obtain ⟨d, hd⟩ := takes_itemWords Place.body false hls none
  rw [Parser.item_eq]
  exact takes_peekDoc.bind (hd.bind (hv d))

/-- **A list of names to export is read,** with the module that they come from or without one. -/
theorem takes_exportList {names : List (String × Option String)} (h : (Export.named names).Legible)
    {ms : List Lexeme} (hms : ms = [] ∨ ∃ l, ms = [.kw .fromKw, l])
    (hn : (separated .comma (names.map exportedNameLexemes)).length + 1 < n) :
    Takes (Parser.item n ty block)
      (.kw .exportKw :: .sym .lbrace :: (separated .comma (names.map exportedNameLexemes) ++
        (.sym .rbrace :: (ms ++ .sym .semicolon :: us))))
      (some (.exportStatement (.named names))) us := by
  have hcount : (names.map exportedNameLexemes).length ≤ _ := count_le_separated (s := .comma)
  rw [List.length_map] at hcount
  have hnames : Reads false (names.all fun _ => true)
      (Parser.commaList .rbrace Parser.exportedName n)
      (separated .comma (names.map exportedNameLexemes) ++
        (.sym .rbrace :: (ms ++ .sym .semicolon :: us)))
      (names.map id) (.sym .rbrace :: (ms ++ .sym .semicolon :: us)) :=
    Reads.commaList (F := fun k => k = .comma ∨ k = .rbrace) (.inl rfl) (.inr rfl) (by simp) rfl
      (by omega) (fun x hx => exportedName_startsWith (h x hx).1.1)
      fun x hx us hus => (takes_exportedName (h x hx) hus).reads
  rw [List.all_eq_true.2 fun _ _ => rfl, List.map_id] at hnames
  -- A brace behind `export` is read like an item that starts with it.
  have hread (d : Option String) : Reads false true
      (Parser.plainItem n ty block none Place.body.exported)
      (documented d (.sym .lbrace :: (separated .comma (names.map exportedNameLexemes) ++
        (.sym .rbrace :: (ms ++ .sym .semicolon :: us)))))
      (some (.exportStatement (.named names))) us := by
    refine Takes.then (takes_peekAt 1) (Takes.then takes_peek ?_)
    refine Reads.bind_pure (some ∘ Item.exportStatement) ?_
    refine Takes.then (takes_expect rfl) (Takes.then hnames (Takes.then (takes_expect rfl) ?_))
    rcases hms with rfl | ⟨l, rfl⟩
    · refine Takes.then (takes_accept_false (by simp)) ?_
      exact Takes.reads ((takes_accept rfl).bind .pure)
    · refine Takes.then (takes_accept rfl) (Takes.then takes_advance ?_)
      exact Takes.reads ((takes_accept rfl).bind .pure)
  have hitem : Reads false true (Parser.item n ty block)
      (documented none (Place.body.lexemes false ++ (.sym .lbrace ::
        (separated .comma (names.map exportedNameLexemes) ++
          (.sym .rbrace :: (ms ++ .sym .semicolon :: us)))))) _ us :=
    Reads.item rfl hread
  exact hitem

/-- **An export statement is read.** -/
theorem takes_export {e : Export} (h : e.Legible) (hn : e.lexemes.length < n) :
    Takes (Parser.item n ty block) (e.lexemes ++ us) (some (.exportStatement e)) us := by
  cases e with
  | assign name =>
    simp only [Export.lexemes, List.append_assoc, List.cons_append, List.nil_append]
    refine takes_exported (by simp) fun d => Takes.bind (takes_accept rfl) ?_
    rw [if_pos rfl]
    refine (takes_dottedName h (by simp)).bind ?_
    exact (takes_accept rfl).bind .pure
  | default name =>
    obtain ⟨l, hl, -, hk⟩ := (Binder.word h).lexeme
    have hw : l.kind.isWord = true := Kind.isWord_of_wordText hk
    have hname : Takes Parser.identifier (l :: .sym .semicolon :: us) name
        (.sym .semicolon :: us) := by
      have hread : Takes _ _ _ (.sym .semicolon :: us) := takes_identifier h
      rwa [hl] at hread
    simp only [Export.lexemes, hl, List.cons_append, List.nil_append]
    refine takes_exported (by simp) fun d => Takes.bind (takes_accept_false (by simp)) ?_
    refine takes_peek.bind ((takes_peekAt 1).bind ((takes_peekAt 2).bind ?_))
    rw [if_pos (by exact ⟨rfl, hw, .inl rfl⟩)]
    refine takes_advance.bind (hname.bind ?_)
    exact (takes_accept rfl).bind .pure
  | named names =>
    simp only [Export.lexemes, List.length_append, List.length_cons, List.length_nil] at hn
    simp only [Export.lexemes, List.append_assoc, List.cons_append, List.nil_append]
    exact takes_exportList h (.inl rfl) (by omega)

/-! ## Items -/

theorem Decl.opensItem (x : Decl) (us : List Lexeme) :
    (kindAt (x.lexemes ++ us) 0).opensItem = true := by
  cases x with
  | ns s => obtain ⟨name, sdoc, items⟩ := s; rw [Decl.lexemes, Namespace.lexemes]; rfl
  | interface i => rw [Decl.lexemes]; rfl
  | enum e =>
    rw [Decl.lexemes]
    simp only [Enum.lexemes, List.append_assoc]
    cases e.isConst <;> rfl
  | typeAlias t => rw [Decl.lexemes]; rfl
  | cls c =>
    rw [Decl.lexemes]
    simp only [Class.lexemes, List.append_assoc]
    cases c.isAbstract <;> rfl
  | function f => rw [Decl.lexemes]; rfl
  | vars v => obtain ⟨vdoc, kind, declarators⟩ := v; rw [Decl.lexemes]; cases kind <;> rfl

theorem opensItem_moduleLexemes (name : String) (us : List Lexeme) :
    (kindAt (moduleLexemes name ++ us) 0).opensItem = true := by
  unfold moduleLexemes
  split <;> rfl

/-- What stands behind the words before an item is not the end of a body. -/
theorem Place.startsWith (hls : (kindAt ls 0).opensItem = true) :
    StartsWith (fun k => k ≠ .rbrace ∧ k ≠ .eof) (p.lexemes runtime ++ ls) := by
  cases hp : p.lexemes runtime with
  | nil =>
    have hk := (Kind.opensItem.ne hls).2.2
    cases ls with
    | nil => exact absurd (kindAt_nil 0) hk.2
    | cons l r => exact ⟨l, r, rfl, hk⟩
  | cons l ws =>
    refine ⟨l, ws ++ ls, rfl, ?_⟩
    rcases (p.lexemes_kind runtime).1 l (by rw [hp]; exact List.mem_cons_self) with hl | hl <;>
      simp [hl]

theorem Decl.startsWith (x : Decl) :
    StartsWith (fun k => k ≠ .rbrace ∧ k ≠ .eof) (p.lexemes x.isRuntime ++ x.lexemes) := by
  have h := x.opensItem []
  rw [List.append_nil] at h
  exact Place.startsWith h

theorem Item.startsWith (i : Item) :
    StartsWith (fun k => k ≠ .rbrace ∧ k ≠ .eof) (i.lexemes p) := by
  cases i with
  | decl x =>
    rw [Item.lexemes]
    exact x.startsWith.documented _
  | ambientModule name is =>
    rw [Item.lexemes, List.append_assoc, List.append_assoc]
    exact Place.startsWith (opensItem_moduleLexemes name _)
  | exportStatement e =>
    rw [Item.lexemes]
    cases e <;> exact ⟨_, _, rfl, by simp⟩

/-- **An item is read back.** -/
theorem Reader.item (hr : Reader m ty) (hb : Blocks m block) (hn : m < n) {i : Item}
    (h : i.Legible) (hm : (i.lexemes p).length ≤ m) :
    Reads false i.clear (Parser.item n ty block) (i.lexemes p ++ us) (some (i.rewritten .reread))
      us := by
  cases i with
  | decl x =>
    rw [Item.Legible] at h
    rw [Item.lexemes] at hm ⊢
    rw [length_documented, List.length_append] at hm
    rw [Item.clear, Item.rewritten]
    rw [← documented_append x.startsWith.ne_nil, List.append_assoc]
    exact Reads.item (x.opensItem us) fun d => hr.decl hb hn h (by omega) d
  | ambientModule name is =>
    rw [Item.Legible] at h
    rw [Item.lexemes] at hm ⊢
    simp only [List.length_append, List.length_singleton] at hm
    rw [Item.clear, Item.rewritten]
    obtain ⟨d, hd⟩ := exists_documented (p.lexemes true ++ (moduleLexemes name ++
      (.sym .lbrace :: ((lexemesBody is).flatten ++ .sym .rbrace :: us))))
    simp only [List.append_assoc, List.cons_append, List.nil_append]
    rw [← hd]
    exact Reads.item (opensItem_moduleLexemes name _) fun d =>
      hb.ambientModule h (by omega) d
  | exportStatement e =>
    rw [Item.Legible] at h
    rw [Item.lexemes] at hm ⊢
    rw [Item.clear, Item.rewritten]
    exact (takes_export h (by omega)).reads

/-- **Bodies are read back,** as long as they have no more lexemes than the bound on nesting. -/
theorem blocks_readBlock (m : Nat) : Blocks m (Parser.readBlock m) := by
  induction m with
  | zero =>
    constructor
    intro is us h hm
    omega
  | succ m ih =>
    constructor
    intro is us h hm
    rw [legibleItems_iff] at h
    rw [lexemesBody_eq_map, ← List.flatMap_def] at hm ⊢
    rw [clearItems_eq_all, rewrittenItems_eq_map]
    have hcount : is.length ≤ (is.flatMap (Item.lexemes .body)).length :=
      count_le_flatMap fun i _ => i.startsWith.ne_nil
    -- The braces take two of the `m + 1` lexemes, so what stands between them fits below `m`.
    have hr := (reader_readTy (m + 1)).mono (Nat.le_succ m)
    have hitem (i : Item) (hi : i ∈ is) (us : List Lexeme) : Reads false i.clear
        (Parser.item (m + 1) (Parser.readTy (m + 1)) (Parser.readBlock m))
        (i.lexemes .body ++ us) (some (i.rewritten .reread)) us :=
      hr.item ih (Nat.lt_succ_self m) (h i hi) (Nat.le_trans (length_le_flatMap hi) (by omega))
    have hitems : Reads false (is.all Item.clear) (Parser.itemsUntil .rbrace _ (m + 1)) _ _
        (.sym .rbrace :: us) :=
      Reads.itemsUntil rfl (by omega) (fun i _ => i.startsWith) hitem
    refine Takes.then (takes_expect rfl) ?_
    rw [← Bool.and_true (List.all _ _)]
    exact hitems.bind_false (Takes.reads ((takes_expect rfl).bind .pure))

/-! ## Files -/

/-- The lexemes of a file. -/
def File.lexemes (f : File) : List Lexeme :=
  f.items.flatMap (Item.lexemes .file)

theorem File.spells {f : File} (h : f.Legible) : Spells f.print f.lexemes [] :=
  spells_items .file 0 h

theorem File.reads {f : File} (h : f.Legible) {bound : Nat} (hm : f.lexemes.length < bound) :
    Reads false f.clear (Parser.file bound) f.lexemes f.reread [] := by
  obtain ⟨m, rfl⟩ : ∃ m, bound = m + 1 := ⟨bound - 1, by omega⟩
  have hcount : f.items.length ≤ f.lexemes.length :=
    count_le_flatMap fun i _ => i.startsWith.ne_nil
  have hr := (reader_readTy (m + 1)).mono (Nat.le_succ m)
  have hb := (blocks_readBlock (m + 1)).mono (Nat.le_succ m)
  have hitem (i : Item) (hi : i ∈ f.items) (us : List Lexeme) : Reads false i.clear
      (Parser.item (m + 1) (Parser.readTy (m + 1)) (Parser.readBlock (m + 1)))
      (i.lexemes .file ++ us) (some i.reread) us :=
    hr.item hb (Nat.lt_succ_self m) (h i hi)
      (Nat.le_trans (length_le_flatMap hi) (Nat.le_of_lt_succ hm))
  have hitems : Reads false f.clear (Parser.itemsUntil .eof _ (m + 1)) _ _ [] :=
    Reads.itemsUntil rfl (by omega) (fun i _ => i.startsWith.imp fun k hk => ⟨hk.2, hk.2⟩) hitem
  rw [List.append_nil] at hitems
  exact hitems.bind_pure File.mk

/-- A source whose tokens are what a reader of files reads. -/
theorem Shows.parse_eq_ok {s : String} (hs : Shows (lex s).cursor ls) {f : File}
    (hf : Reads false b (Parser.file (ls.length + 1)) ls f []) (g : File) :
    parse s = .ok g ↔ b = true ∧ g = f := by
  have hlen : (lex s).tokens.length = ls.length := hs.rest.length_eq.symm
  rw [parse, Lexed.parse, hlen]
  cases b with
  | true =>
    obtain ⟨c, hc, -⟩ := hf _ hs
    rw [hc]
    exact ⟨fun h => ⟨rfl, (Except.ok.inj h).symm⟩, fun h => congrArg Except.ok h.2.symm⟩
  | false =>
    cases hc : Parser.file (ls.length + 1) (lex s).cursor with
    | error e => simp [Except.map]
    | ok r => exact absurd (hf _ hs r.1 r.2 hc).1 (by simp)

/-- **A legible file is read back if it is clear and refused if it is not.** What is read back is
the file up to parentheses (`File.erased_reread`), and it is printed like the file
(`File.print_reread`). -/
theorem parse_print {f : File} (h : f.Legible) (g : File) :
    parse f.print = .ok g ↔ f.clear = true ∧ g = f.reread :=
  (File.spells h).shows.parse_eq_ok (File.reads h (Nat.lt_succ_self _)) g

end Ambient
