import Ambient.Proofs.Parser.Bracketed
import Ambient.Proofs.Parser.ForwardDecls
import Ambient.Proofs.Parser.Layout
import Ambient.Proofs.Parser.Positions
import Ambient.Proofs.Parser.AliasFront
import Ambient.Proofs.Token.Closed
import Ambient.Proofs.Tree.Bindings

/-!
# Initializers are kept as written

Each variable and each member of an enumeration in a file was read somewhere in its source, in the
order of the file. `Gathered` is the trace of this: the bindings that are read on the way from one
cursor to another one. `Gathers` follows it through the parsers, where everything that is no binding
is only passed (`Forward`). At the end the cursors are places in the source.

Behind the name and the type of a binding stands an equals sign or there is no initializer
(`StandsAt`). What stands behind the sign is kept as it is written up to what ends an expression, and
is printed with the binding again (`parse_bindings`).
-/

namespace Ambient

/-! ## Bindings that are passed -/

/-- The cursor stands where the other one stands, or behind it. -/
def Cursor.Behind (c' c : Cursor) : Prop :=
  c'.eof = c.eof ∧ c'.rest <:+ c.rest

theorem Cursor.Behind.trans {c c' c'' : Cursor} (h : c'.Behind c) (h' : c''.Behind c') :
    c''.Behind c :=
  ⟨h'.1.trans h.1, h'.2.trans h.2⟩

/-- The name of the binding is read from the first cursor on, with the type of a variable, up to the
second one. -/
inductive Binding.Fronted : Binding → Cursor → Cursor → Prop
  | declarator {n : Nat} {d : Declarator} {c c₁ c₂ : Cursor}
    (hname : Parser.propertyName c = .ok (d.name, c₁))
    (hty : Parser.after? .colon (Parser.readTy n .full false) c₁ = .ok (d.ty, c₂)) :
    Fronted (.declarator d) c c₂
  | member {m : EnumMember} {c c₁ : Cursor} (hname : Parser.propertyName c = .ok (m.name, c₁)) :
    Fronted (.member m) c c₁

/-- The bindings are read one behind the other on the way from one cursor to another one. -/
inductive Gathered : List Binding → Cursor → Cursor → Prop
  | nil {c c' : Cursor} (h : c'.Behind c) : Gathered [] c c'
  | cons {b : Binding} {bs : List Binding} {c c₁ c₂ c₃ c' : Cursor} (hc : c₁.Behind c)
    (hfront : b.Fronted c₁ c₂)
    (hinit : Parser.after? .eq Parser.expression c₂ = .ok (b.initializer, c₃))
    (hs : Gathered bs c₃ c') : Gathered (b :: bs) c c'

namespace Gathered

variable {b : Binding} {bs cs : List Binding} {c c' c'' : Cursor}

theorem of_behind (hc : c'.Behind c) (h : Gathered bs c' c'') : Gathered bs c c'' := by
  cases h with
  | nil h => exact .nil (hc.trans h)
  | cons hc' hfront hinit hs => exact .cons (hc.trans hc') hfront hinit hs

theorem append (hb : Gathered bs c c') (hc : Gathered cs c' c'') : Gathered (bs ++ cs) c c'' := by
  induction hb with
  | nil h => exact hc.of_behind h
  | cons hc' hfront hinit _ ih => exact .cons hc' hfront hinit (ih hc)

end Gathered

/-- What the parser reads are bindings that are related to the result. -/
def Gathers {α : Type} (p : Parser α) (Q : List Binding → α → Prop) : Prop :=
  ∀ c, c.eof.kind = .eof → ∀ v c', p c = .ok (v, c') →
    c'.eof = c.eof ∧ ∃ bs, Gathered bs c c' ∧ Q bs v

section

variable {α β : Type} {p : Parser α} {f : α → Parser β} {Q : List Binding → α → Prop}
  {R : List Binding → β → Prop}

theorem Gathers.pure {v : α} (h : Q [] v) : Gathers (pure v) Q := by
  rintro c - _ _ ⟨⟩
  exact ⟨rfl, [], .nil ⟨rfl, List.suffix_refl _⟩, h⟩

theorem Gathers.fail {cause : Cause} : Gathers (Parser.fail cause : Parser α) Q := by
  rintro c - _ _ ⟨⟩

theorem Gathers.mono {Q' : List Binding → α → Prop} (h : Gathers p Q)
    (hQ : ∀ bs v, Q bs v → Q' bs v) : Gathers p Q' := by
  intro c heof v c' hp
  obtain ⟨hc', bs, hbs, hv⟩ := h c heof v c' hp
  exact ⟨hc', bs, hbs, hQ bs v hv⟩

theorem Forward.gathers (hp : Forward p) : Gathers p fun bs _ => bs = [] := by
  intro c heof v c' h
  obtain ⟨hc', ts, hts, -⟩ := hp c heof v c' h
  exact ⟨hc', [], .nil ⟨hc', ts, hts.symm⟩, rfl⟩

theorem Gathers.bind (hp : Gathers p Q)
    (hf : ∀ v, Gathers (f v) fun cs w => ∀ bs, Q bs v → R (bs ++ cs) w) : Gathers (p >>= f) R := by
  intro c heof w c'' h
  obtain ⟨v, c', hv, hw⟩ := Parser.bind_eq_ok h
  obtain ⟨hc', bs, hbs, hQ⟩ := hp c heof v c' hv
  obtain ⟨hc'', cs, hcs, hR⟩ := hf v c' (hc' ▸ heof) w c'' hw
  exact ⟨hc''.trans hc', bs ++ cs, hbs.append hcs, hR bs hQ⟩

/-- Behind a parser that reads no bindings. -/
theorem Forward.gathers_bind (hp : Forward p) (hf : ∀ v, Gathers (f v) R) :
    Gathers (p >>= f) R := by
  refine hp.gathers.bind fun v => (hf v).mono fun cs w hw bs hbs => ?_
  rwa [hbs]

theorem Gathers.peekAt {f : Kind → Parser β} (n : Nat) (h : ∀ k, Gathers (f k) R) :
    Gathers (Parser.peekAt n >>= f) R :=
  fun c => h _ c

theorem Gathers.peek {f : Kind → Parser β} (h : ∀ k, Gathers (f k) R) :
    Gathers (Parser.peek >>= f) R :=
  .peekAt 0 h

theorem Gathers.peekDoc {f : Option String → Parser β} (h : ∀ d, Gathers (f d) R) :
    Gathers (Parser.peekDoc >>= f) R :=
  fun c => h _ c

/-- A loop reads the bindings of its items. -/
theorem gathers_itemsUntil {item : Parser (Option α)} {g : α → List Binding} {close : Kind}
    (h : Gathers item fun bs o => bs = o.toList.flatMap g) (n : Nat) :
    Gathers (Parser.itemsUntil close item n) fun bs xs => bs = xs.flatMap g := by
  induction n with
  | zero => exact .fail
  | succ n ih =>
    refine .peek fun k => ?_
    split
    · exact .pure rfl
    · refine h.bind fun o => ih.bind fun xs => .pure fun cs hcs bs hbs => ?_
      rw [hbs, hcs, List.flatMap_append, List.append_nil]

theorem gathers_commaList {close : Kind} {g : α → Binding}
    (h : Gathers p fun bs x => bs = [g x]) (n : Nat) :
    Gathers (Parser.commaList close p n) fun bs xs => bs = xs.map g := by
  induction n with
  | zero => exact .fail
  | succ n ih =>
    refine .peek fun k => ?_
    split
    · exact .pure rfl
    · refine h.bind fun x => (forward_accept _).gathers_bind fun more => ?_
      cases more with
      | true => exact ih.bind fun xs => .pure fun cs hcs bs hbs => by simp [hbs, hcs]
      | false => exact .pure fun bs hbs => by simp [hbs]

theorem gathers_sepBy1 {sep : Kind} {g : α → Binding} (h : Gathers p fun bs x => bs = [g x])
    (n : Nat) : Gathers (Parser.sepBy1 sep p n) fun bs xs => bs = xs.map g := by
  induction n with
  | zero => exact .fail
  | succ n ih =>
    refine h.bind fun x => (forward_accept _).gathers_bind fun more => ?_
    cases more with
    | true => exact ih.bind fun xs => .pure fun cs hcs bs hbs => by simp [hbs, hcs]
    | false => exact .pure fun bs hbs => by simp [hbs]

end

/-! ## Declarations -/

theorem gathers_declarator (n : Nat) :
    Gathers (Parser.declarator (Parser.readTy n)) fun bs d => bs = [.declarator d] := by
  intro c heof d c' h
  obtain ⟨name, c₁, hname, h⟩ := Parser.bind_eq_ok h
  obtain ⟨type, c₂, htype, h⟩ := Parser.bind_eq_ok h
  obtain ⟨initializer, c₃, hinit, h⟩ := Parser.bind_eq_ok h
  cases h
  have hty : Forward (Parser.readTy n .full false) := (stops_readTy n).forward _ _
  have hc₁ := (forward_propertyName c heof _ _ hname).1
  have hc₂ := (forward_after? .colon hty c₁ (hc₁ ▸ heof) _ _ htype).1
  have hc₃ := (forward_after? .eq forward_expression c₂ (hc₂ ▸ hc₁ ▸ heof) _ _ hinit).1
  refine ⟨hc₃.trans (hc₂.trans hc₁), _, ?_, rfl⟩
  exact .cons ⟨rfl, List.suffix_refl _⟩ (.declarator (d := ⟨name, type, initializer⟩) hname htype)
    hinit (.nil ⟨rfl, List.suffix_refl _⟩)

theorem gathers_enumMember : Gathers Parser.enumMember fun bs m => bs = [.member m] := by
  refine .peekDoc fun doc c heof m c' h => ?_
  obtain ⟨name, c₁, hname, h⟩ := Parser.bind_eq_ok h
  obtain ⟨initializer, c₂, hinit, h⟩ := Parser.bind_eq_ok h
  cases h
  have hc₁ := (forward_propertyName c heof _ _ hname).1
  have hc₂ := (forward_after? .eq forward_expression c₁ (hc₁ ▸ heof) _ _ hinit).1
  refine ⟨hc₂.trans hc₁, _, ?_, rfl⟩
  exact .cons ⟨rfl, List.suffix_refl _⟩ (.member (m := ⟨name, doc, initializer⟩) hname) hinit
    (.nil ⟨rfl, List.suffix_refl _⟩)

theorem gathers_enum {n : Nat} {doc : Option String} {isConst : Bool} :
    Gathers (Parser.enum n doc isConst) fun bs e => bs = (Decl.enum e).bindings := by
  refine (forward_expect _).gathers_bind fun _ => forward_identifier.gathers_bind fun name => ?_
  refine (forward_expect _).gathers_bind fun _ => ?_
  refine (gathers_commaList gathers_enumMember n).bind fun ms => ?_
  refine (forward_expect _).gathers_bind fun _ => .pure fun bs hbs => ?_
  rw [hbs, List.append_nil, Decl.bindings]

theorem gathers_variableStatement {n : Nat} {doc : Option String} {kind : VariableKind} :
    Gathers (Parser.variableStatement n (Parser.readTy n) doc kind) fun bs v =>
      bs = (Decl.vars v).bindings := by
  refine forward_advance.gathers_bind fun _ => ?_
  refine (gathers_sepBy1 (gathers_declarator n) n).bind fun ds => ?_
  refine (forward_accept _).gathers_bind fun _ => .pure fun bs hbs => ?_
  rw [hbs, List.append_nil, Decl.bindings]

/-! ## Items -/

/-- The parser reads the bindings of the items that it gives. -/
def GathersItems (p : Parser (Option Item)) : Prop :=
  Gathers p fun bs o => bs = o.toList.flatMap Item.bindings

theorem bindingsOf_eq (is : List Item) : bindingsOf is = is.flatMap Item.bindings := by
  induction is with
  | nil => rfl
  | cons i is ih => rw [bindingsOf, List.flatMap_cons, ih]

theorem gathersItems_none {p : Parser Unit} (hp : Forward p) :
    GathersItems (p >>= fun _ => pure none) :=
  hp.gathers_bind fun _ => .pure rfl

/-- A declaration in which nothing binds a value. -/
theorem gathersItems_some {α : Type} {p : Parser α} (hp : Forward p) {f : α → Item}
    (hf : ∀ v, (f v).bindings = []) : GathersItems (p >>= fun v => pure (some (f v))) :=
  hp.gathers_bind fun v => .pure (by simp [hf v])

theorem gathersItems_of {α : Type} {p : Parser α} {f : α → Item}
    (hp : Gathers p fun bs v => bs = (f v).bindings) :
    GathersItems (p >>= fun v => pure (some (f v))) :=
  hp.bind fun v => .pure fun bs hbs => by simp [hbs]

section

variable {n : Nat} {block : Parser (List Item)}
  (hblock : Gathers block fun bs is => bs = bindingsOf is)
include hblock

theorem gathers_namespaceBody {doc : Option String} :
    Gathers (Parser.namespaceBody block doc) fun bs i => bs = i.bindings := by
  refine forward_dottedName.gathers_bind fun name => hblock.bind fun is => .pure fun bs hbs => ?_
  rw [hbs, List.append_nil, Item.bindings, Decl.bindings, Namespace.bindings]

theorem gathers_ambientModule :
    Gathers (Parser.ambientModule block) fun bs i => bs = i.bindings := by
  refine (forward_expect _).gathers_bind fun _ => .peek fun k => ?_
  split
  · refine forward_advance.gathers_bind fun _ => (forward_accept _).gathers_bind fun b => ?_
    cases b with
    | true => exact .pure (by simp [Item.bindings, bindingsOf])
    | false =>
      refine hblock.bind fun is => .pure fun bs hbs => ?_
      rw [hbs, List.append_nil, Item.bindings]
  · exact .fail

theorem gathers_keywordItem {doc : Option String} {k : Keyword} {next : Kind} :
    GathersItems (Parser.keywordItem n (Parser.readTy n) block doc k next) := by
  have hty (form : TyForm) (s : Bool) : Forward (Parser.readTy n form s) :=
    (stops_readTy n).forward form s
  unfold Parser.keywordItem
  split
  · exact gathersItems_some (forward_function hty) fun _ => rfl
  · exact gathersItems_some (forward_interface hty) fun _ => rfl
  · exact gathersItems_some (forward_classDecl hty) fun _ => rfl
  · refine forward_advance.gathers_bind fun _ => ?_
    split
    · exact gathersItems_some (forward_classDecl hty) fun _ => rfl
    · exact .pure rfl
  · exact gathersItems_of gathers_enum
  · split
    · exact forward_advance.gathers_bind fun _ => gathersItems_of gathers_enum
    · exact gathersItems_of gathers_variableStatement
  · exact gathersItems_of gathers_variableStatement
  · exact gathersItems_of gathers_variableStatement
  · split
    · exact gathersItems_some (forward_typeAlias hty) fun _ => rfl
    · exact gathersItems_none forward_advance
  · exact forward_advance.gathers_bind fun _ =>
      gathersItems_of (f := id) (gathers_namespaceBody hblock)
  · split
    · exact gathersItems_of (f := id) (gathers_ambientModule hblock)
    · exact forward_advance.gathers_bind fun _ =>
        gathersItems_of (f := id) (gathers_namespaceBody hblock)
  · exact gathersItems_none forward_statement
  · exact gathersItems_none forward_advance

theorem gathers_plainItem {doc : Option String} {exported : Bool} :
    GathersItems (Parser.plainItem n (Parser.readTy n) block doc exported) := by
  refine .peekAt 1 fun next => .peek fun k => ?_
  split
  · exact gathers_keywordItem hblock
  · refine forward_advance.gathers_bind fun _ => ?_
    split
    · exact gathersItems_of (f := Item.ambientModule "global") (by simpa [Item.bindings])
    · exact .pure rfl
  · split
    · exact gathersItems_some forward_exportedNames fun _ => rfl
    · exact gathersItems_none forward_advance
  · exact gathersItems_none forward_advance

theorem gathers_exportedItem {doc : Option String} :
    GathersItems (Parser.exportedItem n (Parser.readTy n) block doc) := by
  refine (forward_accept _).gathers_bind fun b => ?_
  split
  · exact forward_dottedName.gathers_bind fun _ => (forward_accept _).gathers_bind fun _ =>
      .pure rfl
  refine .peek fun k => .peekAt 1 fun next => .peekAt 2 fun afterNext => ?_
  split
  · exact forward_advance.gathers_bind fun _ => forward_identifier.gathers_bind fun _ =>
      (forward_accept _).gathers_bind fun _ => .pure rfl
  refine (forward_accept _).gathers_bind fun _ => .peek fun k => ?_
  split
  · exact gathersItems_none forward_statement
  · exact gathers_plainItem hblock

theorem gathers_item : GathersItems (Parser.item n (Parser.readTy n) block) := by
  refine .peekDoc fun doc => Forward.gathers_bind (fun c => ?_) fun exported => ?_
  · obtain ⟨ts, hts⟩ := itemModifiers_suffix c.rest
    exact .scan (F := itemModifiers) ⟨ts, hts.symm, fun _ => trivial⟩
  split
  · exact gathers_exportedItem hblock
  · exact gathers_plainItem hblock

end

/-- **A block reads the bindings of its items**, at any depth. -/
theorem gathers_readBlock (n : Nat) :
    Gathers (Parser.readBlock n) fun bs is => bs = bindingsOf is := by
  induction n with
  | zero => exact .fail
  | succ n ih =>
    refine (forward_expect _).gathers_bind fun _ => ?_
    refine (gathers_itemsUntil (gathers_item ih) (n + 1)).bind fun is => ?_
    refine (forward_expect _).gathers_bind fun _ => .pure fun bs hbs => ?_
    rw [hbs, List.append_nil, bindingsOf_eq]

/-- A file reads its bindings. -/
theorem Lexed.gathered {l : Lexed} {f : File} (heof : l.eof.kind = .eof) (h : l.parse = .ok f) :
    ∃ c, Gathered f.bindings l.cursor c := by
  obtain ⟨c, hrun⟩ := Lexed.parse_eq_ok.1 h
  obtain ⟨-, bs, hbs, hitems⟩ := gathers_itemsUntil (gathers_item (gathers_readBlock _)) _ _ heof
    _ _ hrun
  rw [File.bindings, bindingsOf_eq, ← hitems]
  exact ⟨c, hbs⟩

/-! ## Texts of tokens -/

/-- The texts from one token of a source to another one end with the text of the last one. -/
theorem Token.span_eq_append_getLast (t : Token) (ts : List Token) :
    ∃ cs, Token.span (t :: ts) = cs ++ ((t :: ts).getLast (List.cons_ne_nil t ts)).text := by
  rcases List.eq_nil_or_concat ts with rfl | ⟨us, u, rfl⟩
  · exact ⟨[], by simp [Token.span]⟩
  · exact ⟨t.text ++ us.flatMap (fun v => v.gap ++ v.text) ++ u.gap, by simp [Token.span]⟩

/-- There is no white space in front of the texts from one token to another one. -/
theorem trimStart_span {cs : List Char} {t : Token} (ts : List Token)
    (h : t ∈ (lexChars cs).tokens) :
    Text.trimStart (Token.span (t :: ts)) = Token.span (t :: ts) := by
  obtain ⟨c, text, htext⟩ := List.exists_cons_of_ne_nil (text_ne_nil_of_mem h)
  have hc := isSpace_head_of_mem h htext
  rw [Token.span, htext, List.cons_append, Text.trimStart_cons hc]

/-- There is no white space at the ends of the texts from one token to another one. -/
theorem trim_span {cs : List Char} {t : Token} {ts : List Token}
    (h : ∀ u ∈ t :: ts, u ∈ (lexChars cs).tokens)
    (hclosed : ∀ u ∈ (t :: ts).getLast?, u.kind.closedBy u.text = true) :
    Text.trim (Token.span (t :: ts)) = Token.span (t :: ts) := by
  have hstart := trimStart_span ts (h t List.mem_cons_self)
  obtain ⟨front, hspan⟩ := Token.span_eq_append_getLast t ts
  have hlast : (t :: ts).getLast (List.cons_ne_nil t ts) ∈ (t :: ts).getLast? :=
    List.getLast?_eq_some_getLast _
  generalize (t :: ts).getLast (List.cons_ne_nil t ts) = u at hspan hlast
  have hu : u ∈ (lexChars cs).tokens := h u (List.mem_of_getLast? hlast)
  rcases List.eq_nil_or_concat u.text with hnil | ⟨body, d, hutext⟩
  · exact absurd hnil (text_ne_nil_of_mem hu)
  · rw [List.concat_eq_append] at hutext
    have hd : Text.isSpace d = false :=
      isSpace_getLast_of_mem hu (hclosed u hlast) d (by simp [hutext])
    rw [Text.trim, hstart, hspan, hutext, ← List.append_assoc,
      Text.trimEnd_append_visible _ hd, Text.trimEnd_cons_of_not_space hd]
    rfl

/-- The text stands in the source from the first of the tokens to the last one. -/
def StandsAs (source : String) (ts : List Token) (s : String) : Prop :=
  ∃ t u, ts.head? = some t ∧ ts.getLast? = some u ∧
    slice? t.start u.stop source.toList = some s.toList

/-- What is kept of tokens of a source stands there. -/
theorem standsAs_written {source : String} {us e vs : List Token}
    (htokens : (lex source).tokens = us ++ e ++ vs) (hne : e ≠ [])
    (hclosed : ∀ u ∈ e.getLast?, u.kind.closedBy u.text = true) :
    StandsAs source e (Parser.written e.reverse) := by
  obtain ⟨t, ts, rfl⟩ := List.exists_cons_of_ne_nil hne
  refine ⟨t, _, rfl, List.getLast?_eq_some_getLast hne, ?_⟩
  have hmem (u : Token) (hu : u ∈ t :: ts) : u ∈ (lexChars source.toList).tokens := by
    show u ∈ (lex source).tokens
    rw [htokens]
    exact List.mem_append_left vs (List.mem_append_right us hu)
  rw [Parser.written, List.reverse_reverse, String.toList_ofList, trim_span hmem hclosed]
  have hsplit : (lexChars source.toList).toList =
      us ++ (t :: ts) ++ (vs ++ [(lex source).eof]) := by
    rw [← List.append_assoc, ← htokens]
    rfl
  exact slice?_span hsplit

/-! ## Places in the source -/

/-- The binding stands in the source with its name and its type in front of the token at the place
`k`. -/
structure StandsAt (source : String) (k : Nat) (b : Binding) : Prop where
  front : ∃ i, i < k ∧ k ≤ (lex source).tokens.length ∧
    b.Fronted ((lex source).cursorAt i) ((lex source).cursorAt k)
  absent (h : ((lex source).cursorAt k).kindAt 0 ≠ .eq) : b.initializer = none
  /-- Behind an equals sign, tokens with their brackets in pairs are the initializer, up to what ends
  an expression. It is kept as written. -/
  kept {t : Token} {e rest : List Token}
    (htokens : (lex source).tokens.drop k = t :: (e ++ rest)) (ht : t.kind = .eq) (hne : e ≠ [])
    (he : Bracketed false (e.map Token.kind)) (hrest : BehindExpression rest)
    (hclosed : ∀ u ∈ e.getLast?, u.kind.closedBy u.text = true) :
    ∃ s, b.initializer = some s ∧ StandsAs source e s

variable {l : Lexed}

theorem Lexed.cursorAt_of_behind {c : Cursor} {i : Nat} (hi : i ≤ l.tokens.length)
    (h : c.Behind (l.cursorAt i)) : ∃ j, i ≤ j ∧ j ≤ l.tokens.length ∧ c = l.cursorAt j := by
  obtain ⟨rest, eof⟩ := c
  obtain ⟨rfl, hrest⟩ := h
  have hlength := hrest.length_le
  have hdrop := List.suffix_iff_eq_drop.1 hrest
  simp only [Lexed.cursorAt, List.length_drop, List.drop_drop] at hlength hdrop
  refine ⟨_, Nat.le_add_right i _, ?_, congrArg (Cursor.mk · l.eof) hdrop⟩
  omega

theorem Forward.cursorAt {α : Type} {p : Parser α} (hp : Forward p) (heof : l.eof.kind = .eof)
    {i : Nat} (hi : i ≤ l.tokens.length) {v : α} {c : Cursor}
    (h : p (l.cursorAt i) = .ok (v, c)) :
    ∃ j, i ≤ j ∧ j ≤ l.tokens.length ∧ c = l.cursorAt j := by
  obtain ⟨hc, ts, hts, -⟩ := hp (l.cursorAt i) heof v c h
  exact Lexed.cursorAt_of_behind hi ⟨hc, ts, hts.symm⟩

/-- A name is at least one token. -/
theorem Twin.propertyName_cursorAt (tw : Twin (· = ·) l l) {i : Nat} (hi : i ≤ l.tokens.length)
    {name : String} {c : Cursor} (h : Parser.propertyName (l.cursorAt i) = .ok (name, c)) :
    ∃ j, i < j ∧ j ≤ l.tokens.length ∧ c = l.cursorAt j := by
  have hagree := tw.agree_propertyName i hi
  rw [h] at hagree
  generalize hr : (Except.ok (name, c) : Except ParseError (String × Cursor)) = r at hagree
  cases hagree with
  | ok hn hj _ =>
    cases hr
    exact ⟨_, hn, hj, rfl⟩
  | error _ _ _ _ => cases hr

theorem Binding.Fronted.cursorAt {b : Binding} {i : Nat} {c : Cursor}
    (h : b.Fronted (l.cursorAt i) c) (tw : Twin (· = ·) l l) (hi : i ≤ l.tokens.length) :
    ∃ k, i < k ∧ k ≤ l.tokens.length ∧ c = l.cursorAt k := by
  cases h with
  | @declarator n _ _ _ _ hname hty =>
    obtain ⟨j, hij, hj, rfl⟩ := tw.propertyName_cursorAt hi hname
    have hforward := forward_after? .colon ((stops_readTy n).forward .full false)
    obtain ⟨k, hjk, hk, rfl⟩ := hforward.cursorAt tw.eof.1 hj hty
    exact ⟨k, Nat.lt_of_lt_of_le hij hjk, hk, rfl⟩
  | member hname => exact tw.propertyName_cursorAt hi hname

/-- What is read behind the name and the type is the initializer. -/
theorem standsAt_of_after? {source : String} {b : Binding} {i k : Nat} {c : Cursor} (hik : i < k)
    (hk : k ≤ (lex source).tokens.length)
    (hfront : b.Fronted ((lex source).cursorAt i) ((lex source).cursorAt k))
    (h : Parser.after? .eq Parser.expression ((lex source).cursorAt k) =
      .ok (b.initializer, c)) : StandsAt source k b := by
  constructor
  case front => exact ⟨i, hik, hk, hfront⟩
  case absent =>
    intro hne
    rw [Parser.after?_of_ne hne] at h
    exact (congrArg Prod.fst (Except.ok.inj h)).symm
  case kept =>
    intro t e rest htokens ht hne he hrest hclosed
    have hcursor : (lex source).cursorAt k = ⟨t :: (e ++ rest), (lex source).eof⟩ := by
      rw [Lexed.cursorAt, htokens]
    rw [hcursor, Parser.after?_of_kind ht, map_eq_pure_bind, Parser.bind_apply,
      expression_bracketed he hrest] at h
    have hsplit : (lex source).tokens = ((lex source).tokens.take k ++ [t]) ++ e ++ rest :=
      (List.take_append_drop k _).symm.trans (by simp [htokens])
    exact ⟨_, (congrArg Prod.fst (Except.ok.inj h)).symm, standsAs_written hsplit hne hclosed⟩

/-- Bindings that are read one behind the other have places one behind the other. -/
theorem Gathered.places {source : String} {bs : List Binding} {c c' : Cursor}
    (h : Gathered bs c c') {i : Nat} (hi : i ≤ (lex source).tokens.length)
    (hc : c = (lex source).cursorAt i) :
    ∃ ks : List Nat, ks.Pairwise (· < ·) ∧ (∀ k ∈ ks, i < k) ∧
      List.Forall₂ (StandsAt source) ks bs := by
  have tw := Twin.lexChars source.toList
  have heof : (lex source).eof.kind = .eof := kind_eof_lexChars _
  induction h generalizing i with
  | nil _ => exact ⟨[], .nil, by simp, .nil⟩
  | cons hbehind hfront hinit _ ih =>
    subst hc
    obtain ⟨i₁, hi₁, hle₁, rfl⟩ := Lexed.cursorAt_of_behind hi hbehind
    obtain ⟨k, hik, hk, rfl⟩ := hfront.cursorAt tw hle₁
    obtain ⟨j, hkj, hj, rfl⟩ := (forward_after? .eq forward_expression).cursorAt heof hk hinit
    obtain ⟨ks, hordered, hbehind, hks⟩ := ih hj rfl
    refine ⟨k :: ks, .cons (fun m hm => Nat.lt_of_le_of_lt hkj (hbehind m hm)) hordered, ?_,
      .cons (standsAt_of_after? hik hk hfront hinit) hks⟩
    intro m hm
    rcases List.mem_cons.1 hm with rfl | hm
    · exact Nat.lt_of_le_of_lt hi₁ hik
    · have := hbehind m hm
      omega

/-- **Initializers of variables and of members of enumerations are kept as written.** -/
theorem parse_bindings {source : String} {f : File} (h : parse source = .ok f) :
    ∃ ks : List Nat, ks.Pairwise (· < ·) ∧ List.Forall₂ (StandsAt source) ks f.bindings ∧
      Prints f.bindings f.print := by
  obtain ⟨c, hgathered⟩ := Lexed.gathered (kind_eof_lexChars _) h
  obtain ⟨ks, hordered, -, hks⟩ := hgathered.places (Nat.zero_le _) rfl
  exact ⟨ks, hordered, hks, prints_file f⟩

/-- The only binding of a file. -/
theorem parse_bindings_let : ∃ f, parse "let n = f(1, 2);" = .ok f ∧
    f.bindings.map Binding.initializer = [some "f(1, 2)"] ∧
    ∃ k b, f.bindings = [b] ∧ StandsAt "let n = f(1, 2);" k b ∧ Prints [b] f.print := by
  have hparse : parse "let n = f(1, 2);" = .ok
      ⟨[.decl (.vars ⟨none, .letBound, [⟨"n", none, some "f(1, 2)"⟩]⟩)]⟩ := rfl
  obtain ⟨ks, -, hks, hprints⟩ := parse_bindings hparse
  obtain ⟨k, ks, hk, -, rfl⟩ := List.forall₂_cons_right_iff.1 hks
  exact ⟨_, hparse, rfl, k, _, rfl, hk, hprints⟩

end Ambient
