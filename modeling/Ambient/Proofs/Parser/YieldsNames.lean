import Ambient.Proofs.Parser.Faithful
import Ambient.Proofs.Parser.Raw
import Ambient.Proofs.Parser.Yields

/-!
# Names and texts within a source

What is read of a source as a name is written in a way that tells what it is, and so is every text
that is kept as written: a computed name and a pattern end at the partner of their bracket, and an
initializer outside of all brackets. Only an initializer with a reference at its end is not legible
(`yields_expression`).
-/

namespace Ambient

open Text (quote)

variable {source : String} {c c' : Cursor}

/-! ## Texts that are kept as written -/

theorem Cursor.Within.head_kinds (hc : c.Within source) {k : Kind} (hk : c.kindAt 0 = k)
    (hne : k ≠ .eof) : (c.rest.map Token.kind).head? = some k := by
  rw [Cursor.kindAt] at hk
  cases hrest : c.rest with
  | nil =>
    rw [hrest, List.getD_nil, hc.eof] at hk
    exact absurd hk.symm hne
  | cons t ts =>
    rw [hrest] at hk
    exact congrArg some hk

theorem Cursor.Within.verbatim (hs : Regular source) (hc : c.Within source) {e rest : List Token}
    (hrest : c.rest = e ++ rest) {P : List Kind → Prop}
    (hlast : ∀ t ∈ e.getLast?, ∀ r, t.kind ≠ .reference r) (hP : P (e.map Token.kind)) :
    Verbatim P (Parser.written e.reverse) := by
  obtain ⟨us, hus⟩ := hc.exists_append
  rw [hrest, ← List.append_assoc] at hus
  refine verbatim_written hus (fun t ht => ⟨hs.ended t ?_, hlast t ht⟩) hP
  exact mem_of_tokens hus (List.mem_of_getLast? ht)

/-- **An initializer is kept as written**, unless it ends with a reference. -/
theorem yields_expression (hs : Regular source) : Yields source c Parser.expression fun s _ =>
    settledInitializer (some s) → Initializer s := by
  intro hc s c' h
  obtain ⟨e, rest, hrest, hpass, hends⟩ := passExpression_ends (hc.trailing hs) []
  rw [Parser.expression, hpass, List.append_nil] at h
  cases h
  refine ⟨hc.behind ⟨rfl, e, hrest.symm⟩, fun hsettled => ?_⟩
  refine hc.verbatim hs hrest (fun t ht r hr => ?_) hends
  obtain ⟨us, hus⟩ := hc.exists_append
  rw [hrest, ← List.append_assoc] at hus
  exact hsettled _ rfl r (getLast?_kinds_written hus ht hr)

theorem ne_reference_of_getLast? {e : List Token}
    (h : ∀ k ∈ (e.map Token.kind).getLast?, ∀ r, k ≠ .reference r) :
    ∀ t ∈ e.getLast?, ∀ r, t.kind ≠ .reference r := by
  intro t ht
  refine h t.kind ?_
  rw [List.getLast?_map]
  exact Option.mem_map_of_mem Token.kind ht

/-- **A pattern is kept as written.** -/
theorem yields_pattern (hs : Regular source) (hk : c.kindAt 0 = .lbrace ∨ c.kindAt 0 = .lbracket) :
    Yields source c Parser.pattern fun s _ => Pattern s := by
  intro hc s c' h
  have hhead := hk.imp (fun h => hc.head_kinds h (by simp)) fun h => hc.head_kinds h (by simp)
  obtain ⟨e, rest, hrest, hpass, hstart, hcloses, hparens⟩ := pattern_ends (hc.trailing hs) hhead
  rw [Parser.pattern, Parser.scanned, hpass] at h
  cases h
  refine ⟨hc.behind ⟨rfl, e, hrest.symm⟩, hc.verbatim hs hrest ?_ ⟨hstart, hcloses, hparens⟩⟩
  refine ne_reference_of_getLast? fun k hk r => ?_
  rintro rfl
  rcases getLast?_of_closesPattern hcloses with h | h <;> simp [h] at hk

/-- **A computed name is kept as written.** -/
theorem yields_computedName (hs : Regular source) (hk : c.kindAt 0 = .lbracket) :
    Yields source c Parser.computedName fun s _ =>
      Computed s ∧ (lexemesOf s).map Lexeme.kind <+: c.rest.map Token.kind := by
  intro hc s c' h
  obtain ⟨e, rest, hrest, hpass, hstart, hcloses, hparens⟩ :=
    computedName_ends (hc.trailing hs) (hc.head_kinds hk (by simp))
  rw [Parser.computedName, Parser.scanned, hpass] at h
  cases h
  have hlast : ∀ t ∈ e.getLast?, ∀ r, t.kind ≠ .reference r := by
    refine ne_reference_of_getLast? fun k hk r => ?_
    rintro rfl
    simp [getLast?_of_closesName hcloses] at hk
  have hkinds : Verbatim (· = e.map Token.kind) (Parser.written e.reverse) :=
    hc.verbatim hs hrest hlast rfl
  refine ⟨hc.behind ⟨rfl, e, hrest.symm⟩, hc.verbatim hs hrest hlast ⟨hstart, hcloses, hparens⟩, ?_⟩
  rw [hkinds.lexemes.1, hrest, List.map_append]
  exact List.prefix_append _ _

/-! ## Names -/

theorem yields_identifier (hs : Regular source) : Yields source c Parser.identifier fun s c' =>
    Binder s ∧ Spelled s (c.kindAt 0) ∧ (c.kindAt 0).wordText? = some s ∧ c' = c.advance := by
  refine .within fun hc => .peek fun k hk => ?_
  have halone := hc.alone hs
  rw [hk] at halone ⊢
  split
  · exact .advance (.pure ⟨.inl halone, halone, rfl, rfl⟩)
  · next k =>
    split
    · next hb => exact .advance (.pure ⟨.inr ⟨k, rfl, hb⟩, spelled_keyword k, rfl, rfl⟩)
    · exact .fail
  · exact .fail

theorem yields_dottedName (hs : Regular source) : Yields source c Parser.dottedName fun s _ =>
    DottedPath s ∧ ((c.kindAt 0).isIdent = true → TypeName s) := by
  refine (yields_identifier hs).bind fun a c' ha => .within fun hc' => ?_
  obtain ⟨hbinder, hspelled, hk, -⟩ := ha
  obtain ⟨passed, hts, h⟩ := exists_dottedRest c'.rest
  obtain ⟨ws, ks, hr, -, hwords, -⟩ := h fun t ht => by
    have hmem : t ∈ (lex source).tokens := hc'.mem (by rw [hts]; exact List.mem_append_left _ ht)
    exact Kind.alone_of_mem hmem (hs.ended t hmem).template
  refine .scan (F := fun ts => (a ++ (Parser.dottedRest ts).1, (Parser.dottedRest ts).2))
    ⟨passed, hts.symm⟩ ?_
  refine ⟨⟨a, ws, hbinder, hwords, by rw [hr]⟩, fun hi => ⟨a, ws, ?_, hwords, by rw [hr]⟩⟩
  cases hname : c.kindAt 0 <;> rw [hname] at hi hk hspelled <;> try simp [Kind.isIdent] at hi
  cases hk
  exact hspelled

/-! ## Names of properties -/

/-- The kinds of the tokens at the cursor start with those of some lexemes. -/
theorem kindAt_eq_of_prefix {ls : List Lexeme} {n : Nat}
    (h : ls.map Lexeme.kind <+: c.rest.map Token.kind) (hn : kindAt ls n ≠ .eof) :
    c.kindAt n = kindAt ls n := by
  obtain ⟨us, hus⟩ := h
  have hlength : n < (ls.map Lexeme.kind).length := by
    by_contra hlt
    rw [List.length_map, Nat.not_lt] at hlt
    exact hn (by rw [kindAt, List.getElem?_eq_none hlt]; rfl)
  have hget : (c.rest.map Token.kind)[n]? = (ls.map Lexeme.kind)[n]? := by
    rw [← hus, List.getElem?_append_left hlength]
  rw [List.getElem?_map, List.getElem?_map] at hget
  rw [kindAt, ← hget, Cursor.kindAt, List.getD_eq_getElem?_getD]
  cases hrest : c.rest[n]? with
  | none =>
    rw [List.length_map] at hlength
    simp [hrest, hlength] at hget
  | some t => rfl

/-- A name of a property between two cursors: a token, or a computed name. -/
inductive NameBetween (c : Cursor) (s : String) (c' : Cursor) : Prop
  | token (hn : Names (c.kindAt 0) s) (ha : (c.kindAt 0).Alone) (hc : c' = c.advance)
  | computed (hk : c.kindAt 0 = .lbracket) (hs : Computed s)
    (hp : (lexemesOf s).map Lexeme.kind <+: c.rest.map Token.kind)

theorem yields_propertyName (hs : Regular source) :
    Yields source c Parser.propertyName (NameBetween c) := by
  refine .within fun hc => .peek fun k hk => ?_
  have htoken {s : String} (hn : Names k s) :
      Yields source c (Parser.advance >>= fun _ => pure s) (NameBetween c) :=
    .advance (.pure (.token (hk ▸ hn) (hc.alone hs) rfl))
  split
  · exact htoken (.inl rfl)
  · next v => exact htoken (.inr (.inr ⟨v, rfl, rfl⟩))
  · exact htoken (.inr (.inl rfl))
  · exact (yields_computedName hs hk).mono fun s c' h => .computed hk h.1 h.2
  · exact htoken (.inl rfl)
  · exact .fail

section

variable {s : String} {k : Kind}

theorem Names.simple (hn : Names k s) (ha : k.Alone) : Word s ∨ Number s ∨ ∃ v, s = quote v := by
  rcases hn with hn | rfl | ⟨v, -, hv⟩
  · exact .inl (ha.word hn)
  · exact .inr (.inl ha)
  · exact .inr (.inr ⟨v, hv⟩)

theorem Names.spelled (hn : Names k s) (ha : k.Alone) : Spelled s k := by
  rcases hn with hn | rfl | ⟨v, rfl, rfl⟩
  · exact ha.spelled hn
  · exact ha
  · exact spelled_quote v

namespace NameBetween

variable (h : NameBetween c s c')
include h

theorem memberName : MemberName s := by
  cases h with
  | token hn ha _ => exact (hn.simple ha).imp id (.imp id .inl)
  | computed _ hs _ => exact .inr (.inr (.inr hs))

theorem paramName (hk : c.kindAt 0 ≠ .lbracket) : ParamName s := by
  cases h with
  | token hn ha _ => exact (hn.simple ha).imp id (.imp id .inl)
  | computed hk' _ _ => exact absurd hk' hk

theorem word (hk : (c.kindAt 0).isWord = true) : Word s := by
  cases h with
  | token hn ha _ =>
    rcases hn with hn | hn | ⟨v, hn, -⟩
    · exact ha.word hn
    · simp [hn, Kind.isWord, Kind.wordText?] at hk
    · simp [hn, Kind.isWord, Kind.wordText?] at hk
  | computed hk' _ _ => simp [hk', Kind.isWord, Kind.wordText?] at hk

/-- A reserved word was read from its token. -/
theorem keyword {w : Keyword} (hw : s = w.text) : c.kindAt 0 = .keyword w ∧ c' = c.advance := by
  subst hw
  cases h with
  | token hn ha hc => exact ⟨(hn.spelled ha).unique (spelled_keyword w), hc⟩
  | computed _ hs _ =>
    obtain ⟨hhead, -⟩ := (Verbatim.lexemes hs).1
    rw [(spelled_keyword w).map_kind] at hhead
    cases hhead

/-- A name looks like an index signature only where one was looked for. -/
theorem isIndexLike_eq_false (hat : Parser.atIndexSignature c = .ok (false, c)) :
    isIndexLike s = false := by
  refine Bool.eq_false_iff.2 fun hlike => ?_
  simp only [isIndexLike, Bool.and_eq_true, beq_iff_eq] at hlike
  obtain ⟨⟨h₀, h₁⟩, h₂⟩ := hlike
  cases h with
  | token hn ha _ =>
    rw [(hn.spelled ha).lexemesOf_eq] at h₂
    cases h₂
  | computed hk _ hp =>
    have hkind {n : Nat} (hn : kindAt (lexemesOf s) n ≠ .eof) :
        c.kindAt n = kindAt (lexemesOf s) n := kindAt_eq_of_prefix hp hn
    have h₁' : c.kindAt 1 = kindAt (lexemesOf s) 1 := by
      refine hkind fun he => ?_
      rw [he] at h₁
      cases h₁
    have h₂' : c.kindAt 2 = .colon := by rw [hkind (by simp [h₂]), h₂]
    have hlike :
        ((c.kindAt 0 == .lbracket && (c.kindAt 1).isWord) && c.kindAt 2 == .colon) = false :=
      congrArg Prod.fst (Except.ok.inj hat)
    simp [hk, h₁', h₁, h₂'] at hlike

end NameBetween

end

theorem yields_memberName? (hs : Regular source) :
    Yields source c Parser.memberName? fun o c' => ∀ s ∈ o, NameBetween c s c' := by
  intro hc o c' h
  unfold Parser.memberName? at h
  split at h
  · next s later hname =>
    cases h
    obtain ⟨hc', hbetween⟩ := yields_propertyName hs hc s c' hname
    exact ⟨hc', by simpa using hbetween⟩
  · split at h
    · cases h
      exact ⟨hc.behind ⟨rfl, List.nil_suffix⟩, by simp⟩
    · cases h
      exact ⟨hc.advance, by simp⟩

end Ambient
