import Ambient.Parser.Name
import Ambient.Proofs.Token.Spelling

/-!
# Texts of names

What a name can look like, by the tokens that its text is cut into: one word (`Ident`, `Binder`,
`Word`), words with dots between them (`Dotted`), or a text that is kept as written and ends where
its brackets close (`Verbatim`). Each of them spells the lexemes that it has on its own, whatever
delimiter follows.
-/

namespace Ambient

open Text (quote trim)

/-! ## Words -/

/-- An identifier that is not reserved. -/
def Ident (s : String) : Prop :=
  Spelled s (.ident s)

/-- An identifier or a reserved word. -/
def Word (s : String) : Prop :=
  Ident s ∨ ∃ k : Keyword, s = k.text

/-- A name that binds something: an identifier, or a word that is reserved only in some places. -/
def Binder (s : String) : Prop :=
  Ident s ∨ ∃ k : Keyword, s = k.text ∧ k.bindsName = true

/-- A number as written. -/
def Number (s : String) : Prop :=
  Spelled s (.number s)

theorem Ident.binder {s : String} (h : Ident s) : Binder s := .inl h

theorem Ident.word {s : String} (h : Ident s) : Word s := .inl h

theorem Binder.word {s : String} (h : Binder s) : Word s :=
  h.imp_right fun ⟨k, hk, _⟩ => ⟨k, hk⟩

theorem Word.spelled {s : String} (h : Word s) : ∃ k, Spelled s k ∧ k.wordText? = some s := by
  rcases h with h | ⟨k, rfl⟩
  · exact ⟨.ident s, h, rfl⟩
  · exact ⟨.keyword k, spelled_keyword k, rfl⟩

theorem Kind.isWord_of_wordText {k : Kind} {s : String} (h : k.wordText? = some s) :
    k.isWord = true := by
  rw [isWord, h]
  rfl

/-! ## Kinds of pieces -/

/-- The kind of a piece that is a token. -/
def Piece.kind? (p : Piece) : Option Kind :=
  match p.content with
  | .token k => some k
  | _ => none

/-- The kinds of the tokens among some pieces. -/
def kindsOf (ps : List Piece) : List Kind :=
  ps.filterMap Piece.kind?

theorem map_kind_gather (gap : List Char) (doc : Option String) (ps : List Piece) :
    (gather gap doc ps).map Token.kind = kindsOf ps := by
  induction ps generalizing gap doc with
  | nil => rfl
  | cons p ps ih =>
    rw [gather, kindsOf, List.filterMap_cons, Piece.kind?]
    cases p.content with
    | skipped => exact ih _ _
    | doc d => exact ih _ _
    | token k => simp [ih, kindsOf]

theorem map_kind_lexemesOfTokens (ts : List Token) :
    (lexemesOfTokens ts).map Lexeme.kind = ts.map Token.kind := by
  cases ts <;> simp [lexemesOfTokens, Lexeme.ofToken]

namespace Kept

variable {s : String} {ps : List Piece} (h : Kept s ps)

include h

theorem map_kind : (lexemesOf s).map Lexeme.kind = kindsOf ps := by
  rw [h.lexemesOf_eq, map_kind_lexemesOfTokens, map_kind_gather]

/-- No documentation comment stands before the first token. -/
theorem doc_head : ∀ l ∈ (lexemesOf s).head?, l.doc = none := by
  rw [h.lexemesOf_eq]
  cases ps with
  | nil => simp [gather, lexemesOfTokens]
  | cons p ps =>
    obtain ⟨k, hk⟩ := h.head p rfl
    simp [gather, hk, lexemesOfTokens, Lexeme.ofToken]

/-- A text that is kept as written, in front of a delimiter. -/
theorem spells_delimited {next : List Char} (hn : Delimited next)
    (he : ∀ p ∈ ps.getLast?, p.content = .token (.symbol .eq) → next.head? ≠ some '>') :
    Spells s (lexemesOf s) next := by
  refine h.spells fun p hp => ?_
  obtain ⟨k, hk⟩ := h.last p hp
  obtain ⟨qs, rfl⟩ := List.getLast?_eq_some_iff.1 hp
  have hst : p.Stands [' '] := by simpa [Cuts] using (cuts_append.1 h.cuts).2
  exact hst.of_blank hk (fun d hd => .inl (hn d hd)) fun e => he p hp (by rw [hk, e])

end Kept

/-! ## Words with dots between them -/

/-- Words, each behind a dot. -/
def trail (ws : List String) : String :=
  String.join (ws.map ("." ++ ·))

/-- A name, possibly of several words with dots between them. -/
def Dotted (Head : String → Prop) (s : String) : Prop :=
  ∃ a ws, Head a ∧ (∀ w ∈ ws, Word w) ∧ s = a ++ trail ws

/-- A name with dots, the first word of which could bind something. -/
def DottedPath (s : String) : Prop :=
  Dotted Binder s

/-- A name with dots whose first word is not reserved. -/
def TypeName (s : String) : Prop :=
  Dotted Ident s

theorem Dotted.imp {P Q : String → Prop} (h : ∀ s, P s → Q s) {s : String} (hs : Dotted P s) :
    Dotted Q s := by
  obtain ⟨a, ws, ha, hw, rfl⟩ := hs
  exact ⟨a, ws, h a ha, hw, rfl⟩

/-- The kinds of words, each behind a dot. -/
def trailKinds (ks : List Kind) : List Kind :=
  ks.flatMap fun k => [.symbol .dot, k]

theorem Spelled.stands_trail {w : String} {k : Kind} (h : Spelled w k) (hk : k.isWord = true)
    (ws : List String) : Piece.Stands ⟨w.toList, .token k⟩ ((trail ws).toList ++ [' ']) := by
  have he : k ≠ .symbol .eq := by
    rintro rfl
    simp [Kind.isWord, Kind.wordText?] at hk
  cases ws with
  | nil => exact h
  | cons v ws =>
    rw [trail, List.map_cons, String.join_cons, String.toList_append, String.toList_append]
    refine h.of_blank rfl (fun d hd => .inr ⟨hk, ?_⟩) fun e => absurd e he
    simpa using hd.symm

theorem Spelled.ne_dot {w : String} {k : Kind} (h : Spelled w k) (hk : k.isWord = true) :
    ∃ c cs, w.toList = c :: cs ∧ c ≠ '.' := by
  obtain ⟨c, cs, ht, hf⟩ := h
  refine ⟨c, cs, ht, ?_⟩
  rintro rfl
  have hc : (Piece.dots (cs ++ [' '])).content = .token k := congrArg Piece.content hf
  unfold Piece.dots at hc
  split at hc <;> (rw [← Content.token.inj hc] at hk; simp [Kind.isWord, Kind.wordText?] at hk)

/-- The pieces of words, each behind a dot. -/
theorem trail_pieces {ws : List String} {ks : List Kind}
    (h : List.Forall₂ (fun w k => Spelled w k ∧ k.isWord = true) ws ks) :
    ∃ ps, textOf ps = (trail ws).toList ∧ Cuts ps [' '] ∧
      (∀ p ∈ ps.getLast?, ∃ k, p.content = .token k ∧ k.isWord = true) ∧
      kindsOf ps = trailKinds ks := by
  induction h with
  | nil => exact ⟨[], rfl, trivial, by simp, rfl⟩
  | @cons w k ws ks hw _ ih =>
    obtain ⟨hs, hword⟩ := hw
    obtain ⟨ps, ht, hc, hl, hk⟩ := ih
    obtain ⟨c, cs, hwc, hdot⟩ := hs.ne_dot hword
    refine ⟨⟨['.'], .token (.symbol .dot)⟩ :: ⟨w.toList, .token k⟩ :: ps, ?_, ⟨?_, ?_, hc⟩, ?_, ?_⟩
    · simp [ht, trail]
    · refine ⟨'.', [], rfl, ?_⟩
      show Piece.dots (w.toList ++ textOf ps ++ [' ']) = _
      rw [hwc]
      simp [Piece.dots, hdot, Piece.ofSymbol]
    · rw [ht]
      exact hs.stands_trail hword ws
    · cases ps with
      | nil => simp [hword]
      | cons p ps => simpa using hl
    · simp [kindsOf, Piece.kind?, trailKinds] at hk ⊢
      exact hk

/-- Words with dots between them are kept as they are written. -/
theorem kept_trail {a : String} {k : Kind} {ws : List String} {ks : List Kind} (ha : Spelled a k)
    (hword : k.isWord = true)
    (h : List.Forall₂ (fun w k => Spelled w k ∧ k.isWord = true) ws ks) :
    ∃ ps, Kept (a ++ trail ws) ps ∧ kindsOf ps = k :: trailKinds ks ∧
      ∀ p ∈ ps.getLast?, p.content ≠ .token (.symbol .eq) := by
  obtain ⟨ps, ht, hc, hl, hk⟩ := trail_pieces h
  have hlast : ∀ p ∈ (⟨a.toList, .token k⟩ :: ps).getLast?,
      ∃ k, p.content = .token k ∧ k.isWord = true := by
    cases ps with
    | nil => simp [hword]
    | cons p ps => simpa using hl
  refine ⟨⟨a.toList, .token k⟩ :: ps, ?_, ?_, ?_⟩
  · refine ⟨by simp [ht], ⟨?_, hc⟩, by simp [Piece.IsToken], fun p hp => ?_⟩
    · rw [ht]
      exact ha.stands_trail hword ws
    · obtain ⟨k, hk, -⟩ := hlast p hp
      exact ⟨k, hk⟩
  · rw [kindsOf, List.filterMap_cons, ← kindsOf, hk]
    rfl
  · intro p hp he
    obtain ⟨k', hk', hw'⟩ := hlast p hp
    rw [he] at hk'
    rw [← Content.token.inj hk'] at hw'
    simp [Kind.isWord, Kind.wordText?] at hw'

theorem exists_wordKinds {ws : List String} (h : ∀ w ∈ ws, Word w) :
    ∃ ks, List.Forall₂ (fun w k => Spelled w k ∧ k.isWord = true) ws ks ∧
      ks.map Kind.wordText? = ws.map some := by
  induction ws with
  | nil => exact ⟨[], .nil, rfl⟩
  | cons w ws ih =>
    obtain ⟨ks, hks, hw⟩ := ih fun v hv => h v (List.mem_cons_of_mem w hv)
    obtain ⟨k, hs, hk⟩ := (h w List.mem_cons_self).spelled
    exact ⟨k :: ks, .cons ⟨hs, Kind.isWord_of_wordText hk⟩ hks, by simp [hk, hw]⟩

/-- **The tokens of a dotted name are words with dots between them.** -/
theorem Dotted.kept {Head : String → Prop} (hHead : ∀ a, Head a → Word a) {s : String}
    (h : Dotted Head s) : ∃ a ws ps k ks, Head a ∧ s = a ++ trail ws ∧ Kept s ps ∧ Spelled a k ∧
      k.wordText? = some a ∧ kindsOf ps = k :: trailKinds ks ∧
      ks.map Kind.wordText? = ws.map some ∧
      ∀ p ∈ ps.getLast?, p.content ≠ .token (.symbol .eq) := by
  obtain ⟨a, ws, ha, hws, rfl⟩ := h
  obtain ⟨ks, hks, hw⟩ := exists_wordKinds hws
  obtain ⟨k, hs, hka⟩ := (hHead a ha).spelled
  obtain ⟨ps, hkept, hk, he⟩ := kept_trail hs (Kind.isWord_of_wordText hka) hks
  exact ⟨a, ws, ps, k, ks, ha, rfl, hkept, hs, hka, hk, hw, he⟩

/-! ## Texts that are kept as written -/

/-- A text without white space at its ends, whose tokens have the given kinds. -/
def Verbatim (P : List Kind → Prop) (s : String) : Prop :=
  ∃ ps, Kept s ps ∧ trim s.toList = s.toList ∧ P (kindsOf ps)

/-- Whether the last token closes the square brackets, of which `depth` are open before. -/
def closesName : (depth : Nat) → List Kind → Bool
  | _, [] => false
  | depth, k :: ks =>
    match k with
    | .symbol .lbracket => closesName (depth + 1) ks
    | .symbol .rbracket => if depth ≤ 1 then ks.isEmpty else closesName (depth - 1) ks
    | _ => closesName depth ks

/-- Whether the last token closes the braces and square brackets, of which `depth` are open
before. -/
def closesPattern : (depth : Nat) → List Kind → Bool
  | _, [] => false
  | depth, k :: ks =>
    match k with
    | .symbol .lbrace | .symbol .lbracket => closesPattern (depth + 1) ks
    | .symbol .rbrace | .symbol .rbracket =>
      if depth ≤ 1 then ks.isEmpty else closesPattern (depth - 1) ks
    | _ => closesPattern depth ks

/-- Whether the tokens are an expression up to its end, `depth` brackets being open before. -/
def endsExpression : (depth : Nat) → List Kind → Bool
  | depth, [] => depth == 0
  | depth, k :: ks =>
    match k with
    | .symbol .lparen | .symbol .lbracket | .symbol .lbrace => endsExpression (depth + 1) ks
    | .symbol .rparen | .symbol .rbracket => endsExpression (depth - 1) ks
    | .symbol .rbrace => depth != 0 && endsExpression (depth - 1) ks
    | .symbol .comma | .symbol .semicolon => depth != 0 && endsExpression depth ks
    | _ => endsExpression depth ks

/-- Whether the parentheses are closed at the end, `depth` of them being open before. -/
def closesParens : (depth : Nat) → List Kind → Bool
  | depth, [] => depth == 0
  | depth, k :: ks =>
    match k with
    | .symbol .lparen => closesParens (depth + 1) ks
    | .symbol .rparen => depth != 0 && closesParens (depth - 1) ks
    | _ => closesParens depth ks

/-- A computed name, brackets included. -/
def Computed (s : String) : Prop :=
  Verbatim (fun ks => ks.head? = some .lbracket ∧ closesName 0 ks ∧ closesParens 0 ks) s

/-- A destructuring pattern. -/
def Pattern (s : String) : Prop :=
  Verbatim (fun ks => (ks.head? = some .lbrace ∨ ks.head? = some .lbracket) ∧
    closesPattern 0 ks ∧ closesParens 0 ks) s

/-- An initializer. It may be empty. -/
def Initializer (s : String) : Prop :=
  Verbatim (fun ks => endsExpression 0 ks) s

theorem getLast?_of_closesName {depth : Nat} {ks : List Kind} (h : closesName depth ks = true) :
    ks.getLast? = some .rbracket := by
  fun_induction closesName depth ks with
  | case1 => simp at h
  | case3 depth ks hd => simp_all
  | case2 depth ks ih | case4 depth ks hd ih | case5 depth k ks h₁ h₂ ih =>
    cases ks with
    | nil => simp [closesName] at h
    | cons k ks => simpa using ih h

theorem getLast?_of_closesPattern {depth : Nat} {ks : List Kind}
    (h : closesPattern depth ks = true) :
    ks.getLast? = some .rbrace ∨ ks.getLast? = some .rbracket := by
  fun_induction closesPattern depth ks with
  | case1 => simp at h
  | case4 depth ks hd => simp_all
  | case6 depth ks hd => simp_all
  | case2 depth ks ih | case3 depth ks ih | case5 depth ks hd ih | case7 depth ks hd ih
  | case8 depth k ks h₁ h₂ h₃ h₄ ih =>
    cases ks with
    | nil => simp [closesPattern] at h
    | cons k ks => simpa using ih h

/-! ## Names of parameters, members and numbers -/

/-- The name of a parameter. -/
def ParamName (s : String) : Prop :=
  Word s ∨ Number s ∨ (∃ v, s = quote v) ∨ Pattern s

/-- The name of a member. -/
def MemberName (s : String) : Prop :=
  Word s ∨ Number s ∨ (∃ v, s = quote v) ∨ Computed s

/-- A number that may have a minus sign. -/
def SignedNumber (s : String) : Prop :=
  Number s ∨ ∃ n, Number n ∧ s = "-" ++ n

/-- A text that spells its own lexemes in front of every delimiter. -/
structure Atom (s : String) : Prop where
  spells : ∀ next, Delimited next → Spells s (lexemesOf s) next
  ne_nil : lexemesOf s ≠ []
  doc : ∀ l ∈ (lexemesOf s).head?, l.doc = none

theorem Kept.atom {s : String} {ps : List Piece} (h : Kept s ps) (hps : ps ≠ [])
    (he : ∀ p ∈ ps.getLast?, p.content ≠ .token (.symbol .eq)) : Atom s where
  spells _ hn := h.spells_delimited hn fun p hp e => absurd e (he p hp)
  ne_nil hnil := by
    have hk := h.map_kind
    rw [hnil] at hk
    cases ps with
    | nil => exact hps rfl
    | cons p ps =>
      obtain ⟨k, hp⟩ := h.head p rfl
      simp [kindsOf, Piece.kind?, hp] at hk
  doc := h.doc_head

theorem Spelled.atom {s : String} {k : Kind} (h : Spelled s k) (hk : k ≠ .symbol .eq) : Atom s :=
  h.kept.atom (by simp) (by simpa using hk)

theorem Ident.atom {s : String} (h : Ident s) : Atom s :=
  Spelled.atom h (by simp)

theorem Word.atom {s : String} (h : Word s) : Atom s := by
  rcases h with h | ⟨k, rfl⟩
  · exact h.atom
  · exact (spelled_keyword k).atom (by simp)

theorem Number.atom {s : String} (h : Number s) : Atom s :=
  Spelled.atom h (by simp)

theorem atom_quote (v : String) : Atom (quote v) :=
  (spelled_quote v).atom (by simp)

theorem Dotted.atom {Head : String → Prop} (hHead : ∀ a, Head a → Word a) {s : String}
    (h : Dotted Head s) : Atom s := by
  obtain ⟨a, ws, ps, k, ks, -, -, hkept, -, -, hk, -, he⟩ := h.kept hHead
  refine hkept.atom ?_ he
  rintro rfl
  simp [kindsOf] at hk

theorem DottedPath.atom {s : String} (h : DottedPath s) : Atom s :=
  Dotted.atom (fun _ => Binder.word) h

theorem TypeName.atom {s : String} (h : TypeName s) : Atom s :=
  Dotted.atom (fun _ => Ident.word) h

theorem Verbatim.atom {P : List Kind → Prop} {s : String} (h : Verbatim P s)
    (hP : ∀ ks, P ks → ∃ k ∈ ks.getLast?, k ≠ .symbol .eq) : Atom s := by
  obtain ⟨ps, hkept, -, hp⟩ := h
  obtain ⟨k, hk, hne⟩ := hP _ hp
  refine hkept.atom ?_ fun p hlast he => ?_
  · rintro rfl
    simp [kindsOf] at hk
  · obtain ⟨qs, rfl⟩ := List.getLast?_eq_some_iff.1 hlast
    simp [kindsOf, List.filterMap_append, Piece.kind?, he] at hk
    exact hne hk.symm

theorem Computed.atom {s : String} (h : Computed s) : Atom s :=
  Verbatim.atom h fun _ ⟨_, hc, _⟩ => ⟨_, getLast?_of_closesName hc, by simp⟩

theorem Pattern.atom {s : String} (h : Pattern s) : Atom s :=
  Verbatim.atom h fun _ ⟨_, hc, _⟩ => by
    rcases getLast?_of_closesPattern hc with h | h
    · exact ⟨_, h, by simp⟩
    · exact ⟨_, h, by simp⟩

theorem ParamName.atom {s : String} (h : ParamName s) : Atom s := by
  rcases h with h | h | ⟨v, rfl⟩ | h
  · exact h.atom
  · exact h.atom
  · exact atom_quote v
  · exact h.atom

theorem MemberName.atom {s : String} (h : MemberName s) : Atom s := by
  rcases h with h | h | ⟨v, rfl⟩ | h
  · exact h.atom
  · exact h.atom
  · exact atom_quote v
  · exact h.atom

/-- A minus sign and a number are two tokens. -/
theorem Number.kept_minus {n : String} (h : Number n) :
    Kept ("-" ++ n) [⟨['-'], .token (.symbol .minus)⟩, ⟨n.toList, .token (.number n)⟩] where
  text := by simp
  cuts := ⟨⟨'-', [], rfl, rfl⟩, h, trivial⟩
  head := by simp [Piece.IsToken]
  last := by simp [Piece.IsToken]

theorem SignedNumber.atom {s : String} (h : SignedNumber s) : Atom s := by
  rcases h with h | ⟨n, h, rfl⟩
  · exact h.atom
  · exact h.kept_minus.atom (by simp) (by simp)

end Ambient
