import Ambient.Proofs.Parser.TwinDecls
import Ambient.Proofs.Token.Layout

/-!
# Layout does not matter to the parser

Layout that is put in front of a token changes the gap before it and where tokens start
(`lexChars_insert`). Sources whose tokens differ in one gap are twins (`Twin.withGap`), so that they
are read in the same way up to texts that are kept as written: initializers, computed names and
binding patterns that go over the gap (`Lexed.Respaced`). If the tree differs, it has such a text
(`File.Like.eq_or_keptOver`), and has it whatever the gap is (`Lexed.InsideKept`). Everywhere else
the same is read, and errors are the same but for where they are (`parse_insertAt`).
-/

namespace Ambient

open Text (byteLength isSpace)

variable {l : Lexed} {i n : Nat} {gap mark : List Char}

/-! ## Tokens with another gap -/

/-- What the parser looks at without keeping a text. -/
def Token.shown (t : Token) : Kind × Option String :=
  (t.kind, t.doc)

/-- The source with other characters in front of a token and with tokens somewhat later has the same
tokens, except for their gaps and starts. -/
theorem map_withGap {β : Type} {f : Token → β} (hgap : ∀ t gap, f { t with gap } = f t)
    (hmoved : ∀ t, f (t.moved n) = f t) :
    ((l.withGap i gap).movedFrom i n).tokens.map f = l.tokens.map f := by
  have hmap : f ∘ Token.moved n = f := funext hmoved
  rw [Lexed.movedFrom, List.map_append, List.map_map, hmap, ← List.map_append,
    List.take_append_drop, Lexed.withGap]
  refine List.ext_getElem? fun k => ?_
  rw [List.getElem?_map, List.getElem?_map, List.getElem?_modify]
  cases l.tokens[k]? with
  | none => rfl
  | some t =>
    by_cases hk : i = k
    · simp [hk, hgap]
    · simp [hk]

/-- Only the gap in front of the one token is another one. -/
theorem gap_withGap {k : Nat} (hk : k ≠ i) :
    (((l.withGap i gap).movedFrom i n).tokens.map Token.gap)[k]? = (l.tokens.map Token.gap)[k]? := by
  have hmap : Token.gap ∘ Token.moved n = Token.gap := rfl
  rw [Lexed.movedFrom, List.map_append, List.map_map, hmap, ← List.map_append,
    List.take_append_drop, Lexed.withGap, List.getElem?_map, List.getElem?_map, List.getElem?_modify]
  simp [Ne.symm hk]

theorem withGap_gap {t : Token} (ht : l.tokens[i]? = some t) : l.withGap i t.gap = l := by
  obtain ⟨hi, rfl⟩ := List.getElem?_eq_some_iff.1 ht
  have htokens : (l.tokens.modify i fun u => { u with gap := l.tokens[i].gap }) = l.tokens := by
    refine List.ext_getElem? fun k => ?_
    rw [List.getElem?_modify]
    by_cases hk : i = k
    · subst hk
      simp [List.getElem?_eq_getElem hi]
    · simp [hk]
  rw [Lexed.withGap, htokens]

theorem withGap_withGap : (l.withGap i mark).withGap i gap = l.withGap i gap := by
  rw [Lexed.withGap, Lexed.withGap, Lexed.withGap, List.modify_modify_eq]
  rfl

theorem Lexed.movedFrom_zero (l : Lexed) (i : Nat) : l.movedFrom i 0 = l := by
  have h : Token.moved 0 = id := rfl
  simp [movedFrom, h]

/-! ## Texts with another gap -/

/-- Texts that are the same but for initializers, computed names and binding patterns which go over
the gap before the token `i`, and are each cut out of its source. -/
inductive Lexed.Respaced (l m : Lexed) (i : Nat) : String → String → Prop
  | refl (s : String) : Respaced l m i s s
  | kept {j k : Nat} (hj : j < i) (hi : i < k) (h : l.Keeps j k) :
    Respaced l m i (l.written j k) (m.written j k)
  | append {a a' b b' : String} (ha : Respaced l m i a a') (hb : Respaced l m i b b') :
    Respaced l m i (a ++ b) (a' ++ b')

theorem joins_respaced (l m : Lexed) (i : Nat) : Joins (l.Respaced m i) :=
  ⟨.refl, .append⟩

/-- Texts that are not the same have a kept text in them. -/
theorem Lexed.Respaced.eq_or_keeps {m : Lexed} {x y : String} (h : l.Respaced m i x y) :
    x = y ∨ ∃ j k, j < i ∧ i < k ∧ l.Keeps j k ∧ (l.written j k).toList <:+: x.toList := by
  induction h with
  | refl s => exact .inl rfl
  | kept hj hi h => exact .inr ⟨_, _, hj, hi, h, List.infix_refl _⟩
  | append _ _ iha ihb =>
    rw [String.toList_append]
    rcases iha with rfl | ⟨j, k, hj, hk, h, hin⟩
    · rcases ihb with rfl | ⟨j, k, hj, hk, h, hin⟩
      · exact .inl rfl
      · exact .inr ⟨j, k, hj, hk, h, hin.trans (List.suffix_append _ _).isInfix⟩
    · exact .inr ⟨j, k, hj, hk, h, hin.trans (List.prefix_append _ _).isInfix⟩

/-- What is kept of tokens has their texts and the gaps between them. -/
theorem written_congr {ts us : List Token} (htext : ts.map Token.text = us.map Token.text)
    (hgap : ts.tail.map Token.gap = us.tail.map Token.gap) :
    Parser.written ts.reverse = Parser.written us.reverse := by
  rw [Parser.written, Parser.written, List.reverse_reverse, List.reverse_reverse]
  cases ts with
  | nil =>
    obtain rfl := List.map_eq_nil_iff.1 htext.symm
    rfl
  | cons t ts =>
    cases us with
    | nil => cases htext
    | cons u us =>
      obtain ⟨ht, htexts⟩ := List.cons.inj htext
      have hrest : (ts.flatMap fun v => v.gap ++ v.text) = us.flatMap fun v => v.gap ++ v.text := by
        rw [List.tail_cons, List.tail_cons] at hgap
        clear htext
        induction ts generalizing us with
        | nil =>
          obtain rfl := List.map_eq_nil_iff.1 htexts.symm
          rfl
        | cons v ts ih =>
          cases us with
          | nil => cases htexts
          | cons w us =>
            obtain ⟨hv, htexts⟩ := List.cons.inj htexts
            obtain ⟨hv', hgap⟩ := List.cons.inj hgap
            rw [List.flatMap_cons, List.flatMap_cons, hv, hv', ih us hgap htexts]
      rw [Token.span, Token.span, ht, hrest]

theorem Text.trimEnd_append_visible (as : List Char) {c : Char} {cs : List Char}
    (h : isSpace c = false) : Text.trimEnd (as ++ c :: cs) = as ++ Text.trimEnd (c :: cs) := by
  induction as with
  | nil => rfl
  | cons a as ih =>
    rw [List.cons_append, Text.trimEnd_cons, ih, List.cons_append]
    rw [ih, Text.trimEnd_cons_of_not_space h]
    simp

/-- A text that does not go over the gap is the same with another one. -/
theorem written_withGap {j k : Nat} (h : i ≤ j ∨ k ≤ i) :
    ((l.withGap i gap).movedFrom i n).written j k = l.written j k := by
  refine written_congr ?_ (List.ext_getElem? fun q => ?_)
  · rw [Lexed.between, Lexed.between, List.map_take, List.map_drop, List.map_take, List.map_drop,
      map_withGap (fun _ _ => rfl) fun _ => rfl]
  · rw [Lexed.between, Lexed.between, List.map_tail, List.map_tail, List.map_take, List.map_drop,
      List.map_take, List.map_drop, List.getElem?_tail, List.getElem?_tail, List.getElem?_take,
      List.getElem?_take, List.getElem?_drop, List.getElem?_drop]
    split
    · exact gap_withGap (by omega)
    · rfl

/-! ## Gaps that are kept -/

/-- The tree has the text of an initializer, a computed name or a binding pattern that goes over the
place in front of the token `i`: tokens on both sides of the place belong to it. -/
def Lexed.KeptOver (l : Lexed) (i : Nat) (f : File) : Prop :=
  ∃ j k, j < i ∧ i < k ∧ l.Keeps j k ∧ ∃ x ∈ f.texts, (l.written j k).toList <:+: x.toList

/-- The place in front of the token `i` is inside of an initializer, a computed name or a binding
pattern: whatever the gap there is, the tree has such a text with the gap in it. A text that reads the
same but stands somewhere else does not count, for another gap does not change it. -/
def Lexed.InsideKept (l : Lexed) (i : Nat) : Prop :=
  ∀ cs, ∃ f, (l.withGap i cs).parse = .ok f ∧ (l.withGap i cs).KeptOver i f

/-- Trees that differ have a text that goes over the gap. -/
theorem File.Like.eq_or_keptOver {m : Lexed} {f g : File} (h : f.Like (l.Respaced m i) g) :
    f = g ∨ l.KeptOver i f := by
  rcases h.differsIn.eq_or_exists with heq | ⟨x, y, hmem, hne, hxy⟩
  · exact .inl heq
  · obtain ⟨j, k, hj, hk, hkeeps, hin⟩ := hxy.eq_or_keeps.resolve_left hne
    exact .inr ⟨j, k, hj, hk, hkeeps, x, (List.of_mem_zip hmem).1, hin⟩

/-- Sources that differ in one gap and in where tokens start are twins. -/
theorem Twin.withGap (hv : ∀ t ∈ l.tokens, t.kind ≠ .eof) (heof : l.eof.kind = .eof) (i n : Nat)
    (gap : List Char) : Twin (l.Respaced ((l.withGap i gap).movedFrom i n) i) l
      ((l.withGap i gap).movedFrom i n) where
  joins := joins_respaced _ _ _
  tokens := by
    have hshown : l.tokens.map Token.shown =
        ((l.withGap i gap).movedFrom i n).tokens.map Token.shown :=
      (map_withGap (fun _ _ => rfl) fun _ => rfl).symm
    rw [← List.forall₂_eq_eq_eq, List.forall₂_map_left_iff, List.forall₂_map_right_iff,
      List.forall₂_iff_zip] at hshown
    refine List.forall₂_iff_zip.2 ⟨hshown.1, fun {t u} hmem => ?_⟩
    obtain ⟨hkind, hdoc⟩ := Prod.ext_iff.1 (hshown.2 hmem)
    refine ⟨?_, hdoc, hv t (List.of_mem_zip hmem).1⟩
    rw [show t.kind = u.kind from hkind]
    exact .same _
  eof := ⟨heof, heof⟩
  doc := rfl
  written {j k} hkeeps _ _ := by
    by_cases h : i ≤ j ∨ k ≤ i
    · rw [written_withGap h]
      exact .refl _
    · rw [not_or] at h
      exact .kept (by omega) (by omega) hkeeps

theorem kindAt_withGap (k d : Nat) :
    (((l.withGap i gap).movedFrom i n).cursorAt k).kindAt d = (l.cursorAt k).kindAt d := by
  have hkinds : (((l.withGap i gap).movedFrom i n).tokens.map Token.kind)[k + d]? =
      (l.tokens.map Token.kind)[k + d]? := by
    rw [map_withGap (fun _ _ => rfl) fun _ => rfl]
  rw [List.getElem?_map, List.getElem?_map] at hkinds
  rw [Cursor.kindAt, Cursor.kindAt, List.getD_eq_getElem?_getD, List.getD_eq_getElem?_getD,
    Lexed.cursorAt, Lexed.cursorAt, List.getElem?_drop, List.getElem?_drop]
  generalize ((l.withGap i gap).movedFrom i n).tokens[k + d]? = t at hkinds
  generalize l.tokens[k + d]? = u at hkinds
  cases t <;> cases u <;> simp_all [Lexed.movedFrom, Lexed.withGap, Token.moved]

/-! ## Places in a source with layout more -/

/-- A text with another one put in at a byte offset. -/
def Text.insertAt (w : String) (pos : Nat) (source : String) : String :=
  String.ofList
    ((passBytes pos [] source.toList).1.reverse ++ w.toList ++ (passBytes pos [] source.toList).2)

/-- The characters up to the start of a token are those in front of it. -/
theorem insertAt_start {source : String} {t : Token} (h : t ∈ (lex source).tokens) :
    ∃ front behind, source.toList = front ++ behind ∧ t.start = byteLength front ∧
      ∀ w, (Text.insertAt w t.start source).toList = front ++ w.toList ++ behind := by
  have hslice := slice?_token (List.mem_append_left [(lex source).eof] h)
  obtain ⟨front, behind, hsource, hstart, -⟩ := slice?_eq_some_iff.1 hslice
  refine ⟨front, t.text ++ behind, by rw [hsource, List.append_assoc], hstart.symm, fun w => ?_⟩
  rw [Text.insertAt, String.toList_ofList, ← hstart, hsource, List.append_assoc front,
    passBytes_byteLength]
  simp

/-- An error that is somewhat later, if it is not in front of the place where something was put
in. -/
def ParseError.shift (pos n : Nat) (e : ParseError) : ParseError :=
  { e with pos := if e.pos < pos then e.pos else e.pos + n }

theorem Lexed.current_cursorAt (l : Lexed) (k : Nat) :
    (l.cursorAt k).current = l.tokens[k]?.getD l.eof := by
  rw [cursorAt, Cursor.current, List.headD_eq_head?_getD, List.head?_drop]

theorem Lexed.start_withGap (l : Lexed) (i k : Nat) (gap : List Char) :
    ((l.withGap i gap).cursorAt k).current.start = (l.cursorAt k).current.start := by
  rw [current_cursorAt, current_cursorAt, withGap, List.getElem?_modify]
  cases l.tokens[k]? with
  | none => rfl
  | some t => by_cases h : i = k <;> simp [h]

theorem Lexed.start_movedFrom (l : Lexed) {i : Nat} (hi : i ≤ l.tokens.length) (k n : Nat) :
    ((l.movedFrom i n).cursorAt k).current.start =
      if k < i then (l.cursorAt k).current.start else (l.cursorAt k).current.start + n := by
  have hlength : (l.tokens.take i).length = i := List.length_take_of_le hi
  rw [current_cursorAt, current_cursorAt, movedFrom]
  rcases Nat.lt_or_ge k i with hlt | hge
  · rw [if_pos hlt, List.getElem?_append_left (by omega), List.getElem?_take_of_lt hlt,
      List.getElem?_eq_getElem (by omega)]
    rfl
  · rw [if_neg (by omega), List.getElem?_append_right (by omega), hlength, List.getElem?_map,
      List.getElem?_drop, Nat.add_sub_cancel' hge]
    cases l.tokens[k]? <;> rfl

/-- A token starts before another one if it stands in front of it. -/
theorem start_lt_iff {cs : List Char} {i k : Nat} {t : Token}
    (ht : (lexChars cs).tokens[i]? = some t) (hk : k ≤ (lexChars cs).tokens.length) :
    ((lexChars cs).cursorAt k).current.start < t.start ↔ k < i := by
  have hu : (lexChars cs).toList[k]? = some ((lexChars cs).cursorAt k).current := by
    rw [Lexed.current_cursorAt, Lexed.toList]
    rcases Nat.lt_or_eq_of_le hk with hlt | rfl
    · rw [List.getElem?_append_left hlt, List.getElem?_eq_getElem hlt]
      rfl
    · simp
  generalize ((lexChars cs).cursorAt k).current = u at hu
  have hpair := (placed_lexChars cs).pairwise.1
  obtain ⟨hi, -⟩ := List.getElem?_eq_some_iff.1 ht
  have ht' : (lexChars cs).toList[i]? = some t := by
    rw [Lexed.toList, List.getElem?_append_left hi, ht]
  have before {j j' : Nat} {v v' : Token} (hj : (lexChars cs).toList[j]? = some v)
      (hj' : (lexChars cs).toList[j']? = some v') (h : j < j') : v.stop ≤ v'.start := by
    obtain ⟨hl, rfl⟩ := List.getElem?_eq_some_iff.1 hj
    obtain ⟨hl', rfl⟩ := List.getElem?_eq_some_iff.1 hj'
    exact List.pairwise_iff_getElem.1 hpair j j' hl hl' h
  rcases Nat.lt_trichotomy k i with h | rfl | h
  · -- the text between the starts is not empty
    have hle := before hu ht' h
    rw [Lexed.toList, List.getElem?_append_left (by omega)] at hu
    have hne := mt Text.eq_nil_of_byteLength (text_ne_nil_of_mem (List.mem_of_getElem? hu))
    rw [Token.stop] at hle
    omega
  · obtain rfl := Option.some.inj (hu.symm.trans ht')
    simp
  · have hle := before ht' hu h
    rw [Token.stop] at hle
    omega

/-! ## Layout in front of a token -/

/-- The gap before a token that is not inside of a kept text does not get into the tree, whatever the
gap is. -/
theorem parse_withGap (hv : ∀ t ∈ l.tokens, t.kind ≠ .eof) (heof : l.eof.kind = .eof) {t : Token}
    (ht : l.tokens[i]? = some t) (hkept : ¬l.InsideKept i) {f g : File} (hf : l.parse = .ok f)
    (hg : ((l.withGap i gap).movedFrom i n).parse = .ok g) : f = g := by
  obtain ⟨mark, hmark⟩ : ∃ cs, ∀ f, (l.withGap i cs).parse = .ok f →
      ¬(l.withGap i cs).KeptOver i f := by
    simpa [Lexed.InsideKept] using hkept
  have hne : ∀ t ∈ (l.withGap i mark).tokens, t.kind ≠ .eof := by
    intro t ht
    obtain ⟨k, hk⟩ := List.getElem?_of_mem ht
    rw [Lexed.withGap, List.getElem?_modify, Option.map_eq_map, Option.map_eq_some_iff] at hk
    obtain ⟨u, hu, rfl⟩ := hk
    have hu := hv u (List.mem_of_getElem? hu)
    split
    · exact hu
    · exact hu
  -- with the mark in place of the gap, the same tree is read as with either gap
  have same {n : Nat} {gap : List Char} {g : File}
      (hg : ((l.withGap i gap).movedFrom i n).parse = .ok g) :
      (l.withGap i mark).parse = .ok g := by
    have tw := Twin.withGap (l := l.withGap i mark) hne heof i n gap
    rw [withGap_withGap] at tw
    rcases tw.parse with ⟨e, g', he, hg', hlike⟩ | ⟨_, _, _, -, -, hd, -⟩
    · rw [hg', Except.ok.injEq] at hg
      rw [he, hlike.eq_or_keptOver.resolve_right (hmark e he), hg]
    · rw [hd] at hg
      cases hg
  rw [← withGap_gap ht, ← Lexed.movedFrom_zero (l.withGap i t.gap) i] at hf
  exact Except.ok.inj ((same hf).symm.trans (same hg))

/-- **Layout in front of a token does not matter.** The tokens are of the same kinds and have the
same documentation. What was refused is refused for the same cause at the same token. What was read
is read in the same way, except for initializers, computed names and binding patterns that go over
the place; and to the same tree, if the place is not inside of one that the tree has. -/
theorem parse_insertAt {source w : String} {t : Token} (ht : (lex source).tokens[i]? = some t)
    (hw : Layout w.toList) :
    (lex (Text.insertAt w t.start source)).toList.map Token.shown =
        (lex source).toList.map Token.shown ∧
      (∀ e, parse source = .error e → parse (Text.insertAt w t.start source) =
        .error (e.shift t.start (byteLength w.toList))) ∧
      ∀ f, parse source = .ok f → ∃ g, parse (Text.insertAt w t.start source) = .ok g ∧
        f.Like ((lex source).Respaced (lex (Text.insertAt w t.start source)) i) g ∧
        (g = f ∨ (lex source).KeptOver i f ∧ (lex source).InsideKept i) := by
  obtain ⟨front, behind, hsource, hstart, hinsert⟩ := insertAt_start (List.mem_of_getElem? ht)
  have hlex : lex (Text.insertAt w t.start source) =
      ((lex source).withGap i (t.gap ++ w.toList)).movedFrom i (byteLength w.toList) := by
    rw [lex, hinsert, lex, hsource]
    rw [lex, hsource] at ht
    exact lexChars_insert ht hstart hw
  have hv : ∀ u ∈ (lex source).tokens, u.kind ≠ .eof := fun u hu => kind_ne_eof_lexChars hu
  have heof : (lex source).eof.kind = .eof := rfl
  have hbefore {k : Nat} (hk : k ≤ (lex source).tokens.length) :
      ((lex source).cursorAt k).current.start < t.start ↔ k < i := start_lt_iff ht hk
  rw [parse, parse, hlex]
  generalize lex source = l at ht hv heof hbefore
  have hi : i ≤ l.tokens.length := Nat.le_of_lt (List.getElem?_eq_some_iff.1 ht).1
  have tw := Twin.withGap hv heof i (byteLength w.toList) (t.gap ++ w.toList)
  refine ⟨?_, fun e he => ?_, fun f hf => ?_⟩
  · rw [Lexed.toList, Lexed.toList, List.map_append, List.map_append,
      map_withGap (fun _ _ => rfl) fun _ => rfl]
    rfl
  · rcases tw.parse with ⟨f, g, hf, -, -⟩ | ⟨c, d, k, hk, hc, hd, -, -, hcause⟩
    · rw [hf] at he
      cases he
    · have hcd : c = d := hcause.eq fun s t h => h.eq fun k d => (kindAt_withGap k d).symm
      have hlength : i ≤ (l.withGap i (t.gap ++ w.toList)).tokens.length := by
        simpa [Lexed.withGap] using hi
      rw [hc, Except.error.injEq] at he
      subst he
      rw [hd, hcd, Lexed.start_movedFrom _ hlength, Lexed.start_withGap]
      simp only [ParseError.shift, hbefore hk]
  · rcases tw.parse with ⟨f', g, hf', hg, hlike⟩ | ⟨c, d, k, -, hc, -⟩
    · obtain rfl : f' = f := by
        rw [hf'] at hf
        exact Except.ok.inj hf
      refine ⟨g, hg, hlike, ?_⟩
      -- If the place were not inside of a kept text, no gap at all would change the tree.
      by_cases hsame : g = f'
      · exact .inl hsame
      · have hover := hlike.eq_or_keptOver.resolve_left (Ne.symm hsame)
        refine .inr ⟨hover, ?_⟩
        by_contra hkept
        exact hsame (parse_withGap hv heof ht hkept hf hg).symm
    · rw [hc] at hf
      cases hf

/-- A comment in front of the equals sign of a type alias. -/
theorem parse_insertAt_alias :
    ∃ t, (lex "type A = B;").tokens[2]? = some t ∧ Layout " /* = */ ".toList ∧
      ∃ f, parse "type A = B;" = .ok f ∧
        parse (Text.insertAt " /* = */ " t.start "type A = B;") = .ok f := by
  have ht : (lex "type A = B;").tokens[2]? = some ⟨.eq, [' '], ['='], 7, none⟩ := by
    decide
  have hw : Layout " /* = */ ".toList := by
    have hfiller : Filler [' ', '/', '*', ' ', '=', ' ', '*', '/', ' '] := by
      refine .blank (by decide) ?_
      exact @Filler.block [' ', '=', ' '] [' '] (by decide) (by decide) (.blank (by decide) .nil)
    exact ⟨hfiller, ⟨' ', by decide, by decide⟩, ⟨' ', by decide, by decide⟩⟩
  obtain ⟨-, -, hread⟩ := parse_insertAt ht hw
  obtain ⟨g, hg, -, hsame⟩ := hread ⟨[.decl (.typeAlias ⟨"A", none, [], .named "B" []⟩)]⟩ rfl
  refine ⟨_, ht, hw, g, ?_, hg⟩
  rcases hsame with rfl | ⟨⟨_, _, -, -, -, x, hx, -⟩, -⟩
  · rfl
  · cases hx

/-- Inside of an initializer the layout is kept. -/
example : parse (Text.insertAt " " 9 "let a = b+c;") =
    .ok ⟨[.decl (.vars ⟨none, .letBound, [⟨"a", none, some "b +c"⟩]⟩)]⟩ := rfl

end Ambient
