import Ambient.Proofs.Parser.Progress
import Ambient.Proofs.Parser.Stops

/-!
# Where the type of an alias ends

Tokens that start no declaration are passed over, and the semicolon behind an alias may be missing.
So a text behind `type N =` of which only a part is a type is no error as such. `parse_alias` says
what is read then: the type goes on as long as it can, and what is left of the text is read like a
file of its own. The semicolon behind the text is never a part of the type.
-/

namespace Ambient

/-! ## The tokens of an alias -/

/-- The kind of a token that is a name for a declaration. -/
def Kind.Names (k : Kind) (name : String) : Prop :=
  k = .ident name ∨ ∃ w : Keyword, k = .keyword w ∧ w.bindsName = true ∧ name = w.text

theorem Kind.Names.isWord {k : Kind} {name : String} (h : k.Names name) : k.isWord = true := by
  rcases h with rfl | ⟨w, rfl, -, -⟩ <;> rfl

theorem Binder.names {name : String} (h : Binder name) :
    ∃ k : Kind, k.Names name ∧ Spelled name k := by
  rcases h with h | ⟨w, rfl, hw⟩
  · exact ⟨_, .inl rfl, h⟩
  · exact ⟨_, .inr ⟨w, rfl, hw, rfl⟩, spelled_keyword w⟩

/-- The front of an alias spells a word, a name and an equals sign. -/
theorem spells_alias {name : String} {k : Kind} (hname : k.Names name) (hk : Spelled name k)
    (next : List Char) :
    Spells ("type " ++ name ++ " = ") [.kw .typeKw, { kind := k }, .sym .eq] next := by
  have hspells : Spells name [{ kind := k }] (" = ".toList ++ next) := by
    refine .spelled (x := none) hk (.fixed ⟨' ', rfl, by decide⟩) ?_
    rintro rfl
    cases hname.isWord
  have htype : Spells "type " [.kw .typeKw] (name.toList ++ (" = ".toList ++ next)) := .fixed rfl
  have heq : Spells " = " [.sym .eq] next := .fixed rfl
  exact (htype.append hspells).append heq

/-- Kinds do not depend on what stands in front. -/
theorem map_kind_scan (gap : List Char) (doc : Option String) (text : String) :
    (scan gap doc text.toList).map Token.kind = (lex text).tokens.map Token.kind := by
  have hbare : ((lex text).tokens.map Token.bare).map Token.kind =
      (lex text).tokens.map Token.kind := by
    rw [List.map_map]
    rfl
  rw [← hbare, lex, map_bare_lexChars, scan, scan, map_kind_gather, map_kind_gather]

/-- Behind `type N =` stand the tokens of the text that follows. -/
theorem tokens_alias {name : String} (h : Binder name) (text : String) :
    ∃ t₁ t₂ t₃ ts, (lex ("type " ++ name ++ " = " ++ text)).tokens = t₁ :: t₂ :: t₃ :: ts ∧
      t₁.kind = .keyword .typeKw ∧ t₁.doc = none ∧ t₂.kind.Names name ∧ t₃.kind = .eq ∧
      ts.map Token.kind = (lex text).tokens.map Token.kind := by
  obtain ⟨k, hname, hk⟩ := h.names
  obtain ⟨us, gap, hscan, hus, -⟩ := spells_alias hname hk text.toList []
  have hbare : (lex ("type " ++ name ++ " = " ++ text)).tokens.map Token.bare =
      us ++ scan gap none text.toList := by
    rw [← hscan, ← String.toList_append]
    exact map_bare_lexChars _
  have hkinds := map_kind_scan gap none text
  generalize (lex ("type " ++ name ++ " = " ++ text)).tokens = tokens at hbare
  generalize scan gap none text.toList = rest at hbare hkinds
  cases hus with
  | cons h₁ hus =>
    cases hus with
    | cons h₂ hus =>
      cases hus with
      | cons h₃ hus =>
        cases hus
        obtain ⟨t₁, r₁, rfl, rfl, hr₁⟩ := List.map_eq_cons_iff.1 hbare
        obtain ⟨t₂, r₂, rfl, rfl, hr₂⟩ := List.map_eq_cons_iff.1 hr₁
        obtain ⟨t₃, ts, rfl, rfl, hts⟩ := List.map_eq_cons_iff.1 hr₂
        refine ⟨t₁, t₂, t₃, ts, rfl, h₁.1, h₁.2.1, ?_, h₃.1, ?_⟩
        · have hk₂ : t₂.kind = k := h₂.1
          rwa [hk₂]
        · have hrest : ts.map Token.bare = rest := hts
          rw [← hkinds, ← hrest, List.map_map]
          rfl

/-! ## Reading an alias -/

namespace Parser

variable {n : Nat} {ty : TyReader} {block : Parser (List Item)} {eof : Token}

theorem peekAt_bind {α : Type} (i : Nat) (f : Kind → Parser α) (c : Cursor) :
    (peekAt i >>= f) c = f (c.kindAt i) c :=
  rfl

/-- A name is one word. -/
theorem identifier_eq {t : Token} {ts : List Token} {name : String} (h : t.kind.Names name) :
    identifier ⟨t :: ts, eof⟩ = .ok (name, ⟨ts, eof⟩) := by
  have hkind : (Cursor.mk (t :: ts) eof).kindAt 0 = t.kind := rfl
  rw [identifier, peek, peekAt_bind, hkind]
  rcases h with hk | ⟨w, hk, hw, rfl⟩
  · rw [hk]
    rfl
  · rw [hk]
    dsimp only
    rw [if_pos hw]
    rfl

theorem expect_eq {k : Kind} {t : Token} {ts : List Token} (h : t.kind = k) :
    expect k ⟨t :: ts, eof⟩ = .ok ((), ⟨ts, eof⟩) :=
  if_pos h

/-- An alias is a type and perhaps a semicolon behind its equals sign. -/
theorem typeAlias_eq {t₁ t₂ t₃ : Token} {ts : List Token} {name : String} {doc : Option String}
    (h₁ : t₁.kind = .keyword .typeKw) (h₂ : t₂.kind.Names name) (h₃ : t₃.kind = .eq) :
    typeAlias n ty doc ⟨t₁ :: t₂ :: t₃ :: ts, eof⟩ = (do
      let type ← ty .full false
      let _ ← accept .semicolon
      pure { name, doc, typeParams := [], ty := type } : Parser TypeAlias) ⟨ts, eof⟩ := by
  have hparams : typeParams n ty false ⟨t₃ :: ts, eof⟩ = .ok ([], ⟨t₃ :: ts, eof⟩) := by
    have hangle : accept .langle ⟨t₃ :: ts, eof⟩ = .ok (false, ⟨t₃ :: ts, eof⟩) :=
      if_neg (by show t₃.kind ≠ _; simp [h₃])
    rw [typeParams, bind_apply, hangle]
    rfl
  rw [typeAlias, bind_apply, expect_eq h₁]
  dsimp only
  rw [bind_apply, identifier_eq h₂]
  dsimp only
  rw [bind_apply, hparams]
  dsimp only
  rw [bind_apply, expect_eq h₃]

/-- An item without modifiers. -/
theorem item_plain {t : Token} {ts : List Token} (he : t.kind ≠ .keyword .exportKw)
    (hd : t.kind ≠ .keyword .declareKw) :
    item n ty block ⟨t :: ts, eof⟩ = plainItem n ty block t.doc false ⟨t :: ts, eof⟩ := by
  show (if (itemModifiers (t :: ts)).1 then _ else _ : Parser (Option Item))
    ⟨(itemModifiers (t :: ts)).2, eof⟩ = _
  simp [itemModifiers, he, hd, Cursor.current]

/-- An item that starts with the word `type` and a name is an alias. -/
theorem item_alias {t₁ t₂ : Token} {ts : List Token} {name : String}
    (h₁ : t₁.kind = .keyword .typeKw) (h₂ : t₂.kind.Names name) :
    item n ty block ⟨t₁ :: t₂ :: ts, eof⟩ =
      (typeAlias n ty t₁.doc >>= fun a => pure (some (.decl (.typeAlias a))))
        ⟨t₁ :: t₂ :: ts, eof⟩ := by
  have hnext : (Cursor.mk (t₁ :: t₂ :: ts) eof).kindAt 1 = t₂.kind := rfl
  have hkind : (Cursor.mk (t₁ :: t₂ :: ts) eof).kindAt 0 = .keyword .typeKw := h₁
  rw [item_plain (by simp [h₁]) (by simp [h₁]), plainItem, peekAt_bind, peek, peekAt_bind, hnext,
    hkind]
  dsimp only
  rw [keywordItem, if_pos h₂.isWord]

/-- A semicolon on its own is no item. -/
theorem item_semicolon {t : Token} {ts : List Token} (h : t.kind = .semicolon) :
    item n ty block ⟨t :: ts, eof⟩ = .ok (none, ⟨ts, eof⟩) := by
  have hkind : (Cursor.mk (t :: ts) eof).kindAt 0 = .semicolon := h
  rw [item_plain (by simp [h]) (by simp [h]), plainItem, peekAt_bind, peek, peekAt_bind, hkind]
  rfl

end Parser

/-! ## What is read behind a type -/

/-- The loop over the items of a file, with bounds on its rounds and on everything inside. -/
def Parser.fileItems (n b : Nat) : Parser (List Item) :=
  itemsUntil .eof (item n (readTy n) (readBlock n)) b

/-- Items are read in the same way under all bounds above the number of tokens left. -/
theorem fileItems_bounds (source : String) {i n n' b b' : Nat}
    (hi : i ≤ (lex source).tokens.length)
    (hn : (lex source).tokens.length < n + i) (hn' : (lex source).tokens.length < n' + i)
    (hb : (lex source).tokens.length < b + i) (hb' : (lex source).tokens.length < b' + i) :
    Parser.fileItems n b ((lex source).cursorAt i) =
      Parser.fileItems n' b' ((lex source).cursorAt i) := by
  have tw : Twin (· = ·) (lex source) (lex source) := Twin.lexChars source.toList
  have hreaders := tw.readers_readTy hn hn' hn hn'
  have hitems : tw.Agree i i (Parser.fileItems n b) (Parser.fileItems n' b')
      (List.Forall₂ (Item.Like (· = ·))) := by
    refine .itemsUntil (by simp) (fun k hk _ => ?_) hb hb'
    have hitem := tw.agree_item (hreaders.mono hk) fun j hj =>
      tw.agree_readBlock (show _ < n + j by omega) (show _ < n' + j by omega)
    exact hitem.weaken (by omega)
  exact (hitems hi).eq fun is _ his => (items_differIn is his).eq

/-- What the tokens behind `type N =` are read as: a type from those in front, and items from those
behind, which are a file of their own. -/
structure Lexed.AliasSplit (l : Lexed) (front behind : List Token) (type : Ty)
    (items : List Item) : Prop where
  tokens : l.tokens.drop 3 = front ++ behind
  /-- The type is read from all tokens in front. -/
  type : Parser.readTy (l.tokens.length + 1) .full false (l.cursorAt 3) =
    .ok (type, ⟨behind, l.eof⟩)
  front_ne_nil : front ≠ []
  /-- The token behind the type is none with which the type would go on. -/
  goesOn : ((Cursor.mk behind l.eof).kindAt 0).goesOn = false
  items : Lexed.parse ⟨behind, l.eof⟩ = .ok ⟨items⟩

/-- What an alias is read as: a type behind the equals sign, and a semicolon if there is one. -/
theorem alias_eq_ok {n : Nat} {ty : TyReader} {block : Parser (List Item)} {eof : Token}
    {t₁ t₂ t₃ : Token} {ts : List Token} {name : String} {x : Option Item} {c : Cursor}
    (h₁ : t₁.kind = .keyword .typeKw) (h₂ : t₂.kind.Names name) (h₃ : t₃.kind = .eq)
    (h : Parser.item n ty block ⟨t₁ :: t₂ :: t₃ :: ts, eof⟩ = .ok (x, c)) :
    ∃ type c', ty .full false ⟨ts, eof⟩ = .ok (type, c') ∧
      x = some (.decl (.typeAlias { name, doc := t₁.doc, typeParams := [], ty := type })) ∧
      c = if c'.kindAt 0 = .semicolon then c'.advance else c' := by
  rw [Parser.item_alias h₁ h₂] at h
  obtain ⟨a, c₁, ha, h⟩ := Parser.bind_eq_ok h
  cases h
  rw [Parser.typeAlias_eq h₁ h₂ h₃] at ha
  obtain ⟨type, c', htype, ha⟩ := Parser.bind_eq_ok ha
  obtain ⟨b, c₂, hb, ha⟩ := Parser.bind_eq_ok ha
  cases ha
  refine ⟨type, c', htype, rfl, ?_⟩
  rw [Parser.accept] at hb
  split at hb
  · next hk => cases hb; rw [if_pos hk]
  · next hk => cases hb; rw [if_neg hk]

/-- A semicolon on its own takes one round. -/
theorem fileItems_semicolon {t : Token} {ts : List Token} {eof : Token} {n b : Nat}
    (h : t.kind = .semicolon) :
    Parser.fileItems n (b + 1) ⟨t :: ts, eof⟩ = Parser.fileItems n b ⟨ts, eof⟩ := by
  have hkind : (Cursor.mk (t :: ts) eof).kindAt 0 = .semicolon := h
  rw [Parser.fileItems, itemsUntil_round (by simp [hkind]), Parser.bind_apply,
    Parser.item_semicolon h]
  show (Parser.fileItems n b >>= fun xs => pure xs) ⟨ts, eof⟩ = _
  rw [bind_pure]

theorem Lexed.parse_eq_ok {l : Lexed} {f : File} :
    l.parse = .ok f ↔ ∃ c, Parser.fileItems (l.tokens.length + 1) (l.tokens.length + 1) l.cursor =
      .ok (f.items, c) := by
  have hfile : l.parse = (Parser.fileItems (l.tokens.length + 1) (l.tokens.length + 1) l.cursor).map
      fun r => ⟨r.1⟩ := by
    rw [parse, Parser.file, ← Parser.fileItems, Parser.bind_apply]
    cases Parser.fileItems (l.tokens.length + 1) (l.tokens.length + 1) l.cursor <;> rfl
  rw [hfile]
  cases Parser.fileItems (l.tokens.length + 1) (l.tokens.length + 1) l.cursor with
  | error e => simp [Except.map]
  | ok r =>
    obtain ⟨items, c⟩ := r
    obtain ⟨items'⟩ := f
    simp [Except.map]

/-- What stands behind other tokens is read like a file of its own, and a semicolon in front of it
may be passed before. -/
theorem parse_behind {source : String} {i n b : Nat} {items : List Item} {c : Cursor}
    (hi : i < (lex source).tokens.length) (hn : (lex source).tokens.length < n)
    (hb : (lex source).tokens.length < b + i)
    (h : Parser.fileItems n b
      (if ((lex source).cursorAt i).kindAt 0 = .semicolon then ((lex source).cursorAt i).advance
        else (lex source).cursorAt i) = .ok (items, c)) :
    Lexed.parse ⟨(lex source).tokens.drop i, (lex source).eof⟩ = .ok ⟨items⟩ := by
  obtain ⟨t, ts, hts⟩ := List.exists_cons_of_ne_nil (List.ne_nil_of_length_pos
    (show 0 < ((lex source).tokens.drop i).length by rw [List.length_drop]; omega))
  have hlength : ts.length + 1 + i = (lex source).tokens.length := by
    have hdrop := congrArg List.length hts
    rw [List.length_drop, List.length_cons] at hdrop
    omega
  have hcursor : (lex source).cursorAt i = ⟨t :: ts, (lex source).eof⟩ := by
    rw [Lexed.cursorAt, hts]
  rw [Lexed.parse_eq_ok, hts]
  show ∃ c, Parser.fileItems (ts.length + 2) (ts.length + 2) ⟨t :: ts, (lex source).eof⟩ = _
  refine ⟨c, ?_⟩
  split at h
  · next hk =>
    -- the semicolon takes a round of its own
    have ht : t.kind = .semicolon := by rwa [hcursor] at hk
    rw [Lexed.advance_cursorAt] at h
    have hnext : (lex source).cursorAt (i + 1) = ⟨ts, (lex source).eof⟩ := by
      rw [← Lexed.advance_cursorAt, hcursor]
      rfl
    have hbounds : Parser.fileItems n b ((lex source).cursorAt (i + 1)) =
        Parser.fileItems (ts.length + 2) (ts.length + 1) ((lex source).cursorAt (i + 1)) :=
      fileItems_bounds source (by omega) (by omega) (by omega) (by omega) (by omega)
    rw [fileItems_semicolon ht, ← hnext, ← hbounds, h]
  · rw [← hcursor, ← h]
    exact fileItems_bounds source (by omega) (by omega) (by omega) (by omega) (by omega)

/-- A semicolon at the end is no part of a type in front of it. -/
theorem readTy_in_front {n : Nat} {ts : List Token} {semicolon eof : Token} {type : Ty} {c : Cursor}
    (heof : eof.kind = .eof) (hsemicolon : semicolon.kind = .semicolon)
    (h : Parser.readTy n .full false ⟨ts ++ [semicolon], eof⟩ = .ok (type, c)) :
    ∃ front left, ts = front ++ left ∧ front ≠ [] ∧ c = ⟨left ++ [semicolon], eof⟩ := by
  obtain ⟨rest, eof'⟩ := c
  obtain ⟨rfl, passed, hpassed, hend⟩ := (stops_readTy n).stops _ _ _ heof _ _ h
  obtain ⟨us, t, rfl, ht⟩ := hend.resolve_left (by simp)
  replace hpassed : ts ++ [semicolon] = us ++ [t] ++ rest := hpassed
  rcases List.eq_nil_or_concat rest with rfl | ⟨left, s, rfl⟩
  · -- the last token of the type would be the semicolon
    obtain ⟨-, hlast⟩ := List.append_inj' (hpassed.trans (List.append_nil _)) rfl
    cases hlast
    rw [hsemicolon] at ht
    cases ht
  · rw [List.concat_eq_append] at hpassed ⊢
    have hts : ts ++ [semicolon] = (us ++ [t] ++ left) ++ [s] := by
      rw [hpassed, List.append_assoc (us ++ [t])]
    obtain ⟨hfront, hlast⟩ := List.append_inj' hts rfl
    cases hlast
    exact ⟨us ++ [t], left, hfront, by simp, rfl⟩

/-- **The text behind `type N =` is a type and items behind it.** The semicolon behind the text is no
part of the type. -/
theorem parse_alias {name text : String} {f : File} (hname : Binder name)
    (htext : (lex (text ++ ";")).tokens.map Token.kind =
      (lex text).tokens.map Token.kind ++ [.semicolon])
    (h : parse ("type " ++ name ++ " = " ++ text ++ ";") = .ok f) :
    ∃ front left semicolon type items,
      (front ++ left).map Token.kind = (lex text).tokens.map Token.kind ∧
      semicolon.kind = .semicolon ∧
      (lex ("type " ++ name ++ " = " ++ text ++ ";")).AliasSplit front (left ++ [semicolon]) type
        items ∧
      f.items =
        .decl (.typeAlias { name, doc := none, typeParams := [], ty := type }) :: items ∧
      (left = [] → items = []) := by
  obtain ⟨t₁, t₂, t₃, ts, htokens, h₁, hdoc, h₂, h₃, hts⟩ := tokens_alias hname (text ++ ";")
  rw [← String.append_assoc] at htokens
  generalize "type " ++ name ++ " = " ++ text ++ ";" = source at h htokens ⊢
  rw [htext] at hts
  obtain ⟨us, vs, rfl, hus, hvs⟩ := List.map_eq_append_iff.1 hts
  obtain ⟨semicolon, rfl, hsemicolon⟩ := List.map_eq_singleton_iff.1 hvs
  have hcursor : (lex source).cursor =
      ⟨t₁ :: t₂ :: t₃ :: (us ++ [semicolon]), (lex source).eof⟩ := by rw [Lexed.cursor, htokens]
  have hlength : (lex source).tokens.length = us.length + 4 := by simp [htokens]
  -- the alias is the first item
  obtain ⟨c₀, hrun⟩ := Lexed.parse_eq_ok.1 h
  have hkind : (lex source).cursor.kindAt 0 = .keyword .typeKw := by
    rw [hcursor]
    exact h₁
  rw [Parser.fileItems, itemsUntil_round (by simp [hkind])] at hrun
  obtain ⟨x, c₁, hx, hrun⟩ := Parser.bind_eq_ok hrun
  obtain ⟨items, c₂, hitems, hrun⟩ := Parser.bind_eq_ok hrun
  have hf : f.items = x.toList ++ items := (congrArg Prod.fst (Except.ok.inj hrun)).symm
  rw [hcursor] at hx
  obtain ⟨type, c', htype, rfl, rfl⟩ := alias_eq_ok h₁ h₂ h₃ hx
  -- its type ends in front of the last semicolon
  have hbefore := before_readTy _ _ _ _ htype
  have heof : (lex source).eof.kind = .eof := kind_eof_lexChars _
  obtain ⟨front, left, rfl, hne, rfl⟩ := readTy_in_front heof hsemicolon htype
  have hfront : (lex source).tokens.drop 3 = front ++ (left ++ [semicolon]) := by simp [htokens]
  have hbehind : (lex source).tokens.drop (3 + front.length) = left ++ [semicolon] := by
    rw [← List.drop_drop, hfront, List.drop_left]
  rw [List.length_append] at hlength
  have hcursorAt : ⟨left ++ [semicolon], (lex source).eof⟩ =
      (lex source).cursorAt (3 + front.length) := by rw [Lexed.cursorAt, hbehind]
  refine ⟨front, left, semicolon, type, items, hus, hsemicolon, ?_, hdoc ▸ hf, ?_⟩
  · constructor
    case tokens => exact hfront
    case type =>
      rw [Lexed.cursorAt, hfront, ← List.append_assoc]
      exact htype
    case front_ne_nil => exact hne
    case goesOn => exact hbefore
    case items =>
      have hlt : 3 + front.length < (lex source).tokens.length := by omega
      have hrest := parse_behind hlt (Nat.lt_succ_self _) (Nat.lt_add_of_pos_right (by omega))
        (hcursorAt ▸ hitems)
      rwa [hbehind] at hrest
  · rintro rfl
    have hend : (Cursor.mk ([] ++ [semicolon]) (lex source).eof).kindAt 0 = .semicolon := hsemicolon
    rw [if_pos hend, hlength] at hitems
    cases hitems
    rfl

/-- A name behind a name ends the type, and is passed over. -/
theorem parse_alias_names : ∃ front left semicolon type,
    (front ++ left).map Token.kind = (lex "A B").tokens.map Token.kind ∧
      (lex "type N = A B;").AliasSplit front (left ++ [semicolon]) type [] := by
  have hname : Binder "N" := .inl ⟨'N', [], rfl, rfl⟩
  have hparse : parse "type N = A B;" = .ok
      ⟨[.decl (.typeAlias { name := "N", doc := none, typeParams := [], ty := .named "A" [] })]⟩ :=
    rfl
  have htext : (lex ("A B" ++ ";")).tokens.map Token.kind =
      (lex "A B").tokens.map Token.kind ++ [.semicolon] := by decide
  obtain ⟨front, left, semicolon, type, items, hkinds, -, hsplit, hitems, -⟩ :=
    parse_alias hname htext hparse
  obtain ⟨-, rfl⟩ := List.cons.inj hitems
  exact ⟨front, left, semicolon, type, hkinds, hsplit⟩

/-- What is left of the text can hold a declaration of its own. -/
theorem parse_alias_twice :
    (lex "A B type C = D").tokens.map Token.kind =
        [.ident "A", .ident "B", .keyword .typeKw, .ident "C", .eq, .ident "D"] ∧
      parse "type N = A B type C = D;" = .ok
        ⟨[.decl (.typeAlias { name := "N", doc := none, typeParams := [], ty := .named "A" [] }),
          .decl (.typeAlias { name := "C", doc := none, typeParams := [], ty := .named "D" [] })]⟩ :=
  ⟨rfl, rfl⟩

end Ambient
