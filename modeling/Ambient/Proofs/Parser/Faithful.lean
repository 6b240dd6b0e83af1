import Ambient.Proofs.Parser.Forward
import Ambient.Proofs.Parser.Query
import Ambient.Proofs.Parser.Twin
import Ambient.Proofs.Tree.Erased
import Ambient.Proofs.Tree.From

/-!
# Types are read as they are written

A reader is faithful if what it gives is written with the tokens that it passes (`Ty.From`), as long
as no function and no object is among them. There is one lemma for each part of the grammar, in the
order of the grammar, over a faithful reader for the types inside of it. The bound on nesting ties
the knot (`faithful_readTy`), and `readTy_tidied` says what this means for the types of a source.
-/

namespace Ambient

variable {c : Cursor}

/-! ## Names -/

theorem Kind.Alone.spelled {k : Kind} {s : String} (h : k.Alone) (hk : k.wordText? = some s) :
    Spelled s k := by
  cases k with
  | ident name =>
    cases hk
    exact h
  | keyword k =>
    cases hk
    exact spelled_keyword k
  | _ => simp [wordText?] at hk

theorem Kind.Alone.word {k : Kind} {s : String} (h : k.Alone) (hk : k.wordText? = some s) :
    Word s := by
  cases k with
  | ident name =>
    cases hk
    exact .inl h
  | keyword k =>
    cases hk
    exact .inr ⟨k, rfl⟩
  | _ => simp [wordText?] at hk

theorem Spelled.map_kind {s : String} {k : Kind} (h : Spelled s k) :
    (lexemesOf s).map Lexeme.kind = [k] := by
  rw [h.lexemesOf_eq]
  rfl

theorem passes_identifier : Passes c Parser.identifier fun ks s =>
    ks = [c.kindAt 0] ∧ Binder s ∧ Spelled s (c.kindAt 0) ∧ (c.kindAt 0).wordText? = some s := by
  refine .peek fun k hk => ?_
  rw [hk]
  split
  · exact .advance hk (by simp) (.pure fun h => ⟨rfl, .inl h.alone, h.alone, rfl⟩)
  · next k =>
    split
    · next hb =>
      refine .advance hk (by simp) (.pure fun h => ⟨rfl, .inr ⟨k, rfl, hb⟩, ?_, rfl⟩)
      exact spelled_keyword k
    · exact .fail
  · exact .fail

/-- Dots with a word behind each. -/
theorem exists_dottedRest (ts : List Token) :
    ∃ passed, ts = passed ++ (Parser.dottedRest ts).2 ∧
      ((∀ t ∈ passed, t.kind.Alone) → ∃ ws ks,
        (Parser.dottedRest ts).1 = trail ws ∧ passed.map Token.kind = trailKinds ks ∧
        (∀ w ∈ ws, Word w) ∧ List.Forall₂ (fun w k => Spelled w k ∧ k.isWord = true) ws ks) := by
  fun_induction Parser.dottedRest ts with
  | case1 t u ts ht w hw r ih =>
    obtain ⟨passed, hts, h⟩ := ih
    refine ⟨t :: u :: passed, by rw [List.cons_append, List.cons_append, ← hts], fun halone => ?_⟩
    have hu : u.kind.Alone := halone u (by simp)
    obtain ⟨ws, ks, hr, hk, hwords, hws⟩ := h fun v hv => halone v (by simp [hv])
    refine ⟨w :: ws, u.kind :: ks, ?_, ?_, List.forall_mem_cons.2 ⟨hu.word hw, hwords⟩,
      .cons ⟨hu.spelled hw, Kind.isWord_of_wordText hw⟩ hws⟩
    · simp only [r, hr, trail, List.map_cons, String.join_cons]
    · simp only [List.map_cons, ht, hk, trailKinds, List.flatMap_cons]
      rfl
  | case2 | case3 | case4 => exact ⟨[], rfl, fun _ => ⟨[], [], rfl, rfl, by simp, .nil⟩⟩

theorem passes_dottedName : Passes c Parser.dottedName fun ks s =>
    DottedPath s ∧ ((c.kindAt 0).isIdent = true → TypeName s) ∧
      (lexemesOf s).map Lexeme.kind = ks := by
  refine passes_identifier.bind fun a c' => ?_
  obtain ⟨passed, hts, h⟩ := exists_dottedRest c'.rest
  refine .scan (F := fun ts => (a ++ (Parser.dottedRest ts).1, (Parser.dottedRest ts).2))
    ⟨passed, hts, ?_⟩
  rintro hplain _ ⟨rfl, hbinder, hs, hk⟩
  obtain ⟨ws, ks, hr, hkinds, hwords, hws⟩ :=
    h fun t ht => hplain.alone t.kind (List.mem_map_of_mem ht)
  obtain ⟨ps, hps, hk', -⟩ := kept_trail hs (Kind.isWord_of_wordText hk) hws
  refine ⟨⟨a, ws, hbinder, hwords, by rw [hr]⟩, fun hi => ⟨a, ws, ?_, hwords, by rw [hr]⟩, ?_⟩
  · cases hname : c.kindAt 0 <;> rw [hname] at hi hk hs <;> try simp [Kind.isIdent] at hi
    cases hk
    exact hs
  · rw [hr, hps.map_kind, hk', hkinds]
    rfl

theorem passes_dottedPath : Passes c Parser.dottedName fun ks s =>
    DottedPath s ∧ (lexemesOf s).map Lexeme.kind = ks :=
  passes_dottedName.mono fun _ _ h => ⟨h.1, h.2.2⟩

/-- A name of one word. -/
theorem passes_propertyName (h : (c.kindAt 0).isWord = true) :
    Passes c Parser.propertyName fun ks s => Word s ∧ (lexemesOf s).map Lexeme.kind = ks := by
  refine .peek fun k hk => ?_
  rw [hk] at h
  have hword {s : String} (hs : k.wordText? = some s) :
      k.Plain c.advance.kinds → Word s ∧ (lexemesOf s).map Lexeme.kind = [k] :=
    fun hp => ⟨hp.alone.word hs, (hp.alone.spelled hs).map_kind⟩
  split
  · exact .advance hk (by simp) (.pure (hword rfl))
  · simp [Kind.isWord, Kind.wordText?] at h
  · simp [Kind.isWord, Kind.wordText?] at h
  · simp [Kind.isWord, Kind.wordText?] at h
  · exact .advance hk (by simp) (.pure (hword rfl))
  · exact .fail

/-! ## Mapped types -/

/-- What starts like a mapped type is taken for one. -/
theorem atMapped_of_startsMapped (heof : c.eof.kind = .eof)
    (h : startsMapped c.advance.kinds = true) : Parser.atMapped c = .ok (true, c) := by
  have hat (n : Nat) : c.kindAt (n + 1) = c.advance.kinds[n]?.getD .eof := by
    rw [← Cursor.kindAt_advance, Cursor.kindAt_eq (c := c.advance) heof]
  have h₁ := hat 0
  have h₂ := hat 1
  have h₃ := hat 2
  have h₄ := hat 3
  have h₅ := hat 4
  obtain ⟨sign, readonly, k, ls, rfl | rfl | rfl, rfl | rfl, hk, hks⟩ := startsMapped_iff.1 h <;>
    simp [Parser.atMapped, h₁, h₂, h₃, h₄, h₅, hks, hk]

/-- The cursor `c'` stands behind the modifier at `c`. -/
def Signed (target : Kind) (c c' : Cursor) : Option MappedModifier → Prop
  | some .add => c.kindAt 0 = .symbol .plus ∧ c.kindAt 1 = target ∧ c' = c.advance.advance
  | some .remove => c.kindAt 0 = .symbol .minus ∧ c.kindAt 1 = target ∧ c' = c.advance.advance
  | some .preserve => c.kindAt 0 = target ∧ c' = c.advance
  | none =>
    c.kindAt 0 ≠ .symbol .plus ∧ c.kindAt 0 ≠ .symbol .minus ∧ c.kindAt 0 ≠ target ∧ c' = c

/-- What is passed behind a modifier. -/
theorem Passes.sign {β : Type} {f : Option MappedModifier → Parser β} {R : List Kind → β → Prop}
    {target : Kind} (hne : target ≠ .eof)
    (h : ∀ m c', Signed target c c' m →
      Passes c' (f m) fun ks v => R (signKinds target m ++ ks) v) :
    Passes c (Parser.mappedModifier target >>= f) R := by
  rw [Parser.mappedModifier, bind_assoc]
  refine .accept (by simp) (fun hplus => ?_) fun hplus => ?_
  · simp only [if_true, bind_assoc, pure_bind]
    refine .expect hne fun ht => (h (some .add) _ ⟨hplus, by simpa using ht, rfl⟩).mono ?_
    exact fun _ _ h _ => h
  simp only [Bool.false_eq_true, if_false, bind_assoc]
  refine .accept (by simp) (fun hminus => ?_) fun hminus => ?_
  · simp only [if_true, bind_assoc, pure_bind]
    refine .expect hne fun ht => (h (some .remove) _ ⟨hminus, by simpa using ht, rfl⟩).mono ?_
    exact fun _ _ h _ => h
  simp only [Bool.false_eq_true, if_false, bind_assoc]
  refine .accept hne (fun ht => ?_) fun ht => ?_
  · simp only [if_true, pure_bind]
    exact h (some .preserve) _ ⟨ht, rfl⟩
  · simp only [Bool.false_eq_true, if_false, pure_bind]
    exact h none _ ⟨hplus, hminus, ht, rfl⟩

/-- Behind the brace and the modifier of a mapped type stand a square bracket and a word. -/
theorem Signed.isWord {c c' : Cursor} {m : Option MappedModifier}
    (h : Signed (.keyword .readonlyKw) c.advance c' m) (hat : Parser.atMapped c = .ok (true, c)) :
    (c'.kindAt 1).isWord = true := by
  simp only [Parser.atMapped, Except.ok.injEq, Prod.mk.injEq, and_true] at hat
  cases m with
  | none =>
    obtain ⟨h₁, h₂, h₃, rfl⟩ := h
    simp_all
  | some m =>
    cases m with
    | add =>
      obtain ⟨h₁, h₂, rfl⟩ := h
      simp_all
    | remove =>
      obtain ⟨h₁, h₂, rfl⟩ := h
      simp_all
    | preserve =>
      obtain ⟨h₁, rfl⟩ := h
      simp_all

/-! ## Primary types -/

/-- Every type that the reader gives is written with the tokens that it passes. An operand that
starts with the word `symbol` is that type, possibly in front of brackets. -/
structure TyReader.Faithful (ty : TyReader) : Prop where
  full : ∀ c inSuper, Passes c (ty .full inSuper) (Ty.From 3 inSuper)
  operand : ∀ c inSuper, Passes c (ty .operand inSuper) fun ks t =>
    t.From 0 inSuper ks ∧ (c.kindAt 0 = .keyword .symbolKw → t.startsSymbol = true)

namespace TyReader.Faithful

variable {n : Nat} {ty : TyReader} {inSuper : Bool} (h : ty.Faithful)
include h

theorem forward (form : TyForm) (inSuper : Bool) : Forward (ty form inSuper) := by
  cases form with
  | full => exact Passes.forward fun c => h.full c inSuper
  | operand => exact fun c => (h.operand c inSuper).mono fun _ _ _ => trivial

/-- Empty angle brackets are left out. -/
theorem typeArgs : Passes c (Parser.typeArgs n ty) fun ks args =>
    legibleTys args ∧ clearTys args = true ∧
      Tidied 0 ks ((angledLexemes (lexemesTys args)).map Lexeme.kind) := by
  refine .accept (by simp) (fun _ => ?_) fun _ => .pure ⟨trivial, rfl, .nil 0⟩
  refine (passes_commaList (h.full · false) n).bind fun args c' => ?_
  refine .expect (by simp) fun _ => .pure fun _ ks hks => ⟨?_, ?_, ?_⟩
  · exact legibleTys_iff.2 (hks.forall fun _ _ ht => ht.plain (Nat.le_refl 3))
  · rw [clearTys_eq_all, List.all_eq_true]
    exact hks.forall fun _ _ ht => ht.clear false (by simp)
  · cases args with
    | nil =>
      cases hks
      exact .angles (.nil 0)
    | cons t ts =>
      have htidied := hks.tidied (fun _ _ ht => ht.tidied) (.inl rfl) (.nil 0)
      rw [lexemesTys_eq_map, List.map_cons, angledLexemes, List.map_append, List.map_append]
      · exact .keep .langle htidied
      · simp

variable (inSuper) in
/-- A type that another module exports. -/
theorem imported : Passes c (Parser.imported n ty) fun ks t =>
    t.From 0 inSuper ks ∧ ∃ module qualifier args, t = .imported module qualifier args := by
  refine .expect (by simp) fun _ => .expect (by simp) fun _ => .peek fun k hk => ?_
  split
  · next module =>
    refine .advance hk (by simp) (.expect (by simp) fun _ => ?_)
    refine (passes_after? (by simp) fun _ => passes_dottedPath).bind fun qualifier c' => ?_
    refine h.typeArgs.bind fun args c' => .pure ?_
    rintro ks ⟨hargs, hclear, htidied⟩ ls hqualifier - - - -
    refine ⟨⟨Nat.le_refl 0, ?_, fun _ _ => hclear, ?_⟩, module, qualifier, args, rfl⟩
    · rw [Ty.Legible]
      refine ⟨fun q hq => ?_, hargs⟩
      rcases hqualifier with ⟨-, rfl⟩ | ⟨_, v, -, rfl, hv, -⟩
      · cases hq
      · cases hq
        exact hv
    · simp only [Ty.lexemes, List.map_append, List.append_assoc, List.append_nil]
      refine .keep _ (.keep _ (.keep _ (.keep _ ?_)))
      rcases hqualifier with ⟨rfl, rfl⟩ | ⟨_, v, rfl, rfl, -, rfl⟩
      · exact htidied
      · exact .keep _ ((Tidied.refl _ _).append htidied)
  · exact .fail

/-- The type of a value. -/
theorem typeQuery (hk : c.kindAt 0 = .keyword .typeofKw) :
    Passes c (Parser.typeQuery n ty) (Ty.From 0 inSuper) := by
  refine .advance hk (by simp) (.peek fun k hk' => ?_)
  split
  · refine (h.imported false).bind fun t c' => .pure ?_
    rintro ks ⟨hfrom, module, qualifier, args, rfl⟩ -
    refine ⟨Nat.le_refl 0, ?_, fun _ _ => rfl, ?_⟩
    · rw [Ty.Legible]
      exact query_imported hfrom.legible (hfrom.clear false (by simp))
    · rw [Ty.lexemes, List.map_append, map_kind_lexemesOf_imported hfrom.legible, List.append_nil]
      exact .keep _ hfrom.tidied
  · refine passes_dottedPath.bind fun name c' => .pure ?_
    rintro ks ⟨hpath, rfl⟩ -
    refine ⟨Nat.le_refl 0, ?_, fun _ _ => rfl, ?_⟩
    · rw [Ty.Legible]
      exact .inl hpath
    · rw [Ty.lexemes, List.map_append, List.append_nil]
      exact .refl 0 _

/-- A name with type arguments. -/
theorem namedType (hk : (c.kindAt 0).isIdent = true) :
    Passes c (Parser.namedType n ty) (Ty.From 0 inSuper) := by
  refine passes_dottedName.bind fun name c' => h.typeArgs.bind fun args c' => .pure ?_
  rintro ks ⟨hargs, hclear, htidied⟩ ls ⟨-, hname, rfl⟩
  refine ⟨Nat.le_refl 0, ?_, fun _ _ => hclear, ?_⟩
  · rw [Ty.Legible]
    exact ⟨hname hk, hargs⟩
  · rw [Ty.lexemes, List.map_append, List.append_nil]
    exact (Tidied.refl 0 _).append htidied

theorem mapped (hat : Parser.atMapped c = .ok (true, c)) :
    Passes c (Parser.mapped ty) (Ty.From 0 inSuper) := by
  refine .expect (by simp) fun _ => .sign (by simp) fun readonly c' hc' => ?_
  refine .expect (by simp) fun _ => ?_
  refine (passes_propertyName (by simpa using hc'.isWord hat)).bind fun key c' => ?_
  refine .expect (by simp) fun _ => (h.full _ false).bind fun constraint c' => ?_
  refine (passes_after? (by simp) fun c => h.full c false).bind fun name c' => ?_
  refine .expect (by simp) fun _ => .sign (by simp) fun optional c' _ => ?_
  refine .expect (by simp) fun _ => (h.full _ false).bind fun value c' => ?_
  refine .accept (by simp) (fun _ => .expect (by simp) fun _ => .pure ?_) fun _ =>
    .expect (by simp) fun _ => .pure ?_
  · rintro - us hvalue - - ls hname ks hconstraint - _ ⟨hkey, rfl⟩ - -
    exact .mapped hkey hconstraint hname hvalue (.refl 0 _)
  · rintro - us hvalue - - ls hname ks hconstraint - _ ⟨hkey, rfl⟩ - -
    exact .mapped hkey hconstraint hname hvalue (.semicolon (.nil 0))

/-- An opening brace that starts no mapped type is none of the tokens. -/
theorem mappedOrObject : Passes c (Parser.mappedOrObject n ty) (Ty.From 0 inSuper) := by
  obtain ⟨b, hb⟩ : ∃ b, Parser.atMapped c = .ok (b, c) := ⟨_, rfl⟩
  intro heof
  refine Passes.ask hb ?_ heof
  cases b with
  | true => exact h.mapped hb
  | false =>
    refine Passes.map (.expect (by simp) fun _ => ?_)
    have hforward := (forward_itemsUntil .rbrace (forward_member (n := n) h.forward) n).bind
      fun ms => (forward_expect .rbrace).bind fun _ => .pure ms
    refine (hforward _).mono fun _ _ _ hplain => ?_
    rw [atMapped_of_startsMapped heof (hplain.brace rfl)] at hb
    cases hb

/-! ## Tuple types -/

omit h in
theorem map_kind_lexemesIf (c : Bool) (l : Lexeme) :
    (lexemesIf c [l]).map Lexeme.kind = if c then [l.kind] else [] := by
  cases c <;> rfl

theorem tupleElement : Passes c (Parser.tupleElement ty) fun ks e =>
    e.Legible ∧ e.clear = true ∧ Tidied 3 ks (e.lexemes.map Lexeme.kind) := by
  refine (passes_accept (by simp)).bind fun rest c' => ?_
  have hrest {ks ls us : List Kind} (hks : ks = if rest then [.symbol .ellipsis] else [])
      (hls : Tidied 3 ls us) :
      Tidied 3 (ks ++ ls) ((lexemesIf rest [.sym .ellipsis]).map Lexeme.kind ++ us) := by
    subst hks
    cases rest with
    | false => exact hls
    | true => exact .keep _ hls
  obtain ⟨b, hb⟩ : ∃ b, Parser.atNamedElement c' = .ok (b, c') := ⟨_, rfl⟩
  refine .ask hb ?_
  cases b with
  | true =>
    have hword : (c'.kindAt 0).isWord = true := by
      simp only [Parser.atNamedElement, Except.ok.injEq, Prod.mk.injEq, Bool.and_eq_true] at hb
      exact hb.1.1
    refine (passes_propertyName hword).bind fun name c' => ?_
    refine (passes_accept (by simp)).bind fun optional c' => .expect (by simp) fun _ => ?_
    refine (h.full _ false).bind fun t c' => .pure ?_
    rintro ks ht - _ rfl _ ⟨hname, rfl⟩ ls hls
    refine ⟨?_, ht.clear false (by simp), ?_⟩
    · rw [TupleElement.Legible]
      exact ⟨by simpa using hname, ht.plain (Nat.le_refl 3)⟩
    · rw [TupleElement.lexemes, List.map_append]
      refine hrest hls ?_
      simp only [List.map_append, map_kind_lexemesIf, List.append_assoc, List.append_nil]
      exact (Tidied.refl _ _).append ((Tidied.refl _ _).append (.keep _ ht.tidied))
  | false =>
    refine (h.full _ false).bind fun t c' => ?_
    refine (passes_accept (by simp)).bind fun optional c' => .pure ?_
    rintro _ rfl ks ht ls hls
    refine ⟨?_, ht.clear false (by simp), ?_⟩
    · rw [TupleElement.Legible]
      exact ⟨by simp, ht.plain (Nat.le_refl 3)⟩
    · rw [TupleElement.lexemes, List.map_append]
      refine hrest hls ?_
      simp only [List.map_append, map_kind_lexemesIf, List.append_nil]
      exact ht.tidied.append (.refl 0 _)

/-- A comma behind the last element of a tuple is left out. -/
theorem tuple : Passes c (Parser.tuple n ty) (Ty.From 0 inSuper) := by
  refine .expect (by simp) fun _ => ?_
  refine (passes_commaList (fun _ => h.tupleElement) n).bind fun es c' => ?_
  refine .expect (by simp) fun _ => .pure fun _ ks hks _ => ⟨Nat.le_refl 0, ?_, fun _ _ => ?_, ?_⟩
  · rw [Ty.Legible, legibleElements_iff]
    exact hks.forall fun _ _ he => he.1
  · rw [Ty.clear, clearElements_eq_all, List.all_eq_true]
    exact hks.forall fun _ _ he => he.2.1
  · rw [Ty.lexemes, lexemesElements_eq_map, List.map_append, List.map_append]
    exact .keep .lbracket (hks.tidied (fun _ _ he => he.2.2) (.inr rfl) (.nil 0))

/-! ## Words and symbols in front of a type -/

omit h in
/-- A type that is one token. -/
theorem single {k : Kind} (t : Ty) (hk : c.kindAt 0 = k) (hne : k ≠ .eof)
    (hl : t.lexemes.map Lexeme.kind = [k]) (ht : k.Alone → t.Legible)
    (hloose : t.looseness = 0) (hclear : ∀ s, t.clear s = true) :
    Passes c (Parser.advance >>= fun _ => pure t) (Ty.From 0 inSuper) :=
  .advance hk hne (.pure fun hplain =>
    ⟨Nat.le_of_eq hloose, ht hplain.alone, fun s _ => hclear s, hl ▸ .refl 0 _⟩)

/-- An arrow is none of the tokens. -/
theorem arrowType {R : List Kind → Ty → Prop} {f : Signature × Ty → Ty} :
    Passes c (Parser.arrowType n ty inSuper >>= fun r => pure (f r)) R :=
  (passes_arrowType h.forward c).bind fun _ _ => .pure fun _ hfalse => hfalse.elim

omit h in
theorem keyword_of_ofKeyword? {k : Keyword} {p : Primitive}
    (h : Primitive.ofKeyword? k = some p) : p.keyword = k := by
  unfold Primitive.ofKeyword? at h
  split at h <;> cases h <;> rfl

theorem keywordType {k : Keyword} (hk : c.kindAt 0 = .keyword k) :
    Passes c (Parser.keywordType n ty inSuper k) fun ks t =>
      t.From 0 inSuper ks ∧ (k = .symbolKw → t.startsSymbol = true) := by
  unfold Parser.keywordType
  split
  · exact (single (.booleanLiteral true) hk (by simp) rfl (fun _ => trivial) rfl fun _ => rfl).mono
      fun _ _ ht => ⟨ht, by simp⟩
  · exact (single (.booleanLiteral false) hk (by simp) rfl (fun _ => trivial) rfl fun _ => rfl).mono
      fun _ _ ht => ⟨ht, by simp⟩
  · exact (single .this hk (by simp) rfl (fun _ => trivial) rfl fun _ => rfl).mono
      fun _ _ ht => ⟨ht, by simp⟩
  · exact (h.typeQuery hk).mono fun _ _ ht => ⟨ht, by simp⟩
  · refine .advance hk (by simp) (.map ((h.operand _ inSuper).mono fun _ _ ht _ => ?_))
    exact ⟨ht.1.keyOf, by simp⟩
  · refine .advance hk (by simp) (.map ((h.operand _ inSuper).mono fun _ _ ht _ => ?_))
    exact ⟨ht.1.operator .readonly (by simp), by simp⟩
  · refine .advance hk (by simp) (.map (passes_identifier.mono ?_))
    rintro _ name ⟨rfl, hname, hs, -⟩ -
    refine ⟨⟨Nat.le_refl 0, ?_, fun _ _ => rfl, ?_⟩, by simp⟩
    · rw [Ty.Legible]
      exact hname
    · rw [Ty.lexemes, List.map_append, hs.map_kind]
      exact .refl 0 _
  · exact (h.imported inSuper).mono fun _ _ ht => ⟨ht.1, by simp⟩
  · exact .advance hk (by simp) h.arrowType
  · refine .peekAt 1 fun next hnext => ?_
    split
    · next hnew =>
      exact .advance hk (by simp) (.advance (by simpa [hnew] using hnext) (by simp) h.arrowType)
    · exact .fail
  · split
    · next p hp =>
      have hkey : p.keyword = k := keyword_of_ofKeyword? hp
      refine .advance hk (by simp) (.pure fun _ => ?_)
      refine ⟨⟨Nat.le_refl 0, trivial, fun _ _ => rfl, ?_⟩, ?_⟩
      · rw [Ty.lexemes, hkey]
        exact .refl 0 _
      · rintro rfl
        cases p <;> first | rfl | cases hkey
    · exact .fail

omit h in
theorem negativeNumber (hk : c.kindAt 0 = .symbol .minus) :
    Passes c Parser.negativeNumber (Ty.From 0 inSuper) := by
  refine .advance hk (by simp) (.peek fun k hk' => ?_)
  split
  · next text =>
    refine .advance hk' (by simp) (.pure fun hnumber _ => ⟨Nat.le_refl 0, ?_, fun _ _ => rfl, ?_⟩)
    · rw [Ty.Legible]
      exact .inr ⟨text, hnumber.alone, rfl⟩
    · rw [Ty.lexemes, (Number.kept_minus hnumber.alone).map_kind]
      exact .refl 0 _
  · exact .fail

/-- A type in parentheses. -/
theorem functionOrParens : Passes c (Parser.functionOrParens n ty inSuper) (Ty.From 0 inSuper) := by
  obtain ⟨b, hb⟩ : ∃ b, Parser.atFunction c = .ok (b, c) := ⟨_, rfl⟩
  refine .ask hb ?_
  cases b with
  | true => exact h.arrowType
  | false =>
    refine .expect (by simp) fun _ => (h.full _ false).bind fun t c' => ?_
    refine .expect (by simp) fun _ => .pure fun _ ks ht _ => ⟨Nat.le_refl 0, ?_, fun _ _ => ?_, ?_⟩
    · rw [Ty.Legible]
      exact ht.plain (Nat.le_refl 3)
    · exact ht.clear false (by simp)
    · rw [Ty.lexemes, List.map_append, List.map_append]
      exact .keep _ (ht.tidied.append_singleton _)

theorem symbolType {s : Symbol} (hk : c.kindAt 0 = .symbol s) :
    Passes c (Parser.symbolType n ty inSuper s) (Ty.From 0 inSuper) := by
  unfold Parser.symbolType
  split
  · exact negativeNumber hk
  · exact h.functionOrParens
  · exact h.mappedOrObject
  · exact h.tuple
  · exact h.arrowType
  · exact .fail

theorem primary : Passes c (Parser.primary n ty inSuper) fun ks t =>
    t.From 0 inSuper ks ∧ (c.kindAt 0 = .keyword .symbolKw → t.startsSymbol = true) := by
  refine .peek fun k hk => ?_
  rw [hk]
  split
  · next name =>
    refine .peekAt 1 fun next hnext => ?_
    split
    · next hunique =>
      obtain ⟨rfl, rfl⟩ := hunique
      refine .advance hk (by simp) (.map ((h.operand _ inSuper).mono fun ks t ht _ => ?_))
      exact ⟨ht.1.operator .unique fun _ => ht.2 (by simpa using hnext), by simp⟩
    · exact (h.namedType (by rw [hk]; rfl)).mono fun _ _ ht => ⟨ht, by simp⟩
  · exact (single (.stringLiteral _) hk (by simp) rfl (fun _ => trivial) rfl fun _ => rfl).mono
      fun _ _ ht => ⟨ht, by simp⟩
  · next text =>
    refine .advance hk (by simp) (.pure fun hplain => ?_)
    refine ⟨⟨Nat.le_refl 0, ?_, fun _ _ => rfl, ?_⟩, by simp⟩
    · rw [Ty.Legible]
      exact .inl hplain.alone
    · rw [Ty.lexemes, Spelled.map_kind (k := .number text) hplain.alone]
      exact .refl 0 _
  · next text =>
    refine .advance hk (by simp) (.pure fun hplain => ?_)
    refine ⟨⟨Nat.le_refl 0, ?_, fun _ _ => rfl, ?_⟩, by simp⟩
    · rw [Ty.Legible]
      exact hplain.alone
    · rw [Ty.lexemes, Spelled.map_kind (k := .template text) hplain.alone]
      exact .refl 0 _
  · next k => exact (h.keywordType hk).mono fun _ _ ht => ⟨ht.1, fun hs => ht.2 (by simpa using hs)⟩
  · exact (h.symbolType hk).mono fun _ _ ht => ⟨ht, by simp⟩
  · exact .fail

/-! ## Operators -/

/-- The brackets behind a type. -/
theorem brackets (k : Nat) (t : Ty) : Passes c (Parser.brackets ty k t) fun ls t' =>
    (∀ ks, t.From 0 inSuper ks → t'.From 0 inSuper (ks ++ ls)) ∧
      (t.startsSymbol = true → t'.startsSymbol = true) := by
  have hsymbol {t : Ty} (ht : t.startsSymbol = true) :
      (!t.looserThanPostfix && t.startsSymbol) = true := by
    rw [Ty.startsSymbol_looser ht, ht]
    rfl
  induction k generalizing c t with
  | zero => exact .fail
  | succ k ih =>
    refine .accept (by simp) (fun _ => .accept (by simp) (fun _ => ?_) fun _ => ?_) fun _ => ?_
    · refine (ih _).mono fun ls t' ht' => ⟨fun ks ht => ?_, fun ht => ht'.2 (hsymbol ht)⟩
      have hfrom := ht'.1 _ ht.array
      rwa [List.append_assoc] at hfrom
    · refine (h.full _ false).bind fun index _ => .expect (by simp) fun _ => ?_
      refine (ih _).mono fun ls t' ht' _ is hi => ⟨fun ks ht => ?_, fun ht => ht'.2 (hsymbol ht)⟩
      have hfrom := ht'.1 _ (ht.indexAccess hi)
      rwa [List.append_assoc, List.cons_append, List.append_assoc] at hfrom
    · exact .pure ⟨fun ks ht => by rwa [List.append_nil], id⟩

theorem postfixed : Passes c (Parser.postfixed n ty inSuper) fun ks t =>
    t.From 0 inSuper ks ∧ (c.kindAt 0 = .keyword .symbolKw → t.startsSymbol = true) :=
  h.primary.bind fun t _ => (h.brackets n t).mono fun _ _ ht' ks ht =>
    ⟨ht'.1 ks ht.1, fun hk => ht'.2 (ht.2 hk)⟩

/-- The sign in front of the first member of an intersection is left out. -/
theorem intersected : Passes c (Parser.intersected n ty inSuper) (Ty.From 1 inSuper) := by
  refine (passes_accept (by simp)).bind fun b _ => ?_
  refine (passes_sepBy1 (by simp) (fun _ => h.postfixed.mono fun _ _ ht => ht.1) n).bind ?_
  refine fun ts _ => .pure fun ks hts ls hls => ?_
  refine .combined (fun t => t.looserThanUnion || t.isUnion) hts rfl (fun t ht => ?_)
    (fun _ => rfl) (fun ts hlen hall => ?_) (fun _ _ => rfl) (fun _ => rfl) fun us hus => ?_
  · rw [Ty.looserThanUnion_of_looseness (by omega), Ty.isUnion_of_looseness (by omega)]
    rfl
  · rw [Ty.Legible, legibleTys_iff]
    exact ⟨hlen, fun t ht => Ty.isIntersection_of_looseness (Nat.le_zero.1 (hall t ht).1),
      fun t ht => ⟨Ty.isPredicate_of_looseness (by have := (hall t ht).1; omega), (hall t ht).2⟩⟩
  · rw [List.append_nil, hls]
    cases b with
    | false => exact hus.mono (by decide)
    | true => exact .amp (by decide) hus

/-- The sign in front of the first member of a union is left out. -/
theorem united : Passes c (Parser.united n ty inSuper) (Ty.From 2 inSuper) := by
  refine (passes_accept (by simp)).bind fun b _ => ?_
  refine (passes_sepBy1 (by simp) (fun _ => h.intersected) n).bind fun ts _ => ?_
  refine .pure fun ks hts ls hls => ?_
  refine .combined Ty.looserThanUnion hts rfl
    (fun t ht => Ty.looserThanUnion_of_looseness (by omega)) (fun _ => rfl)
    (fun ts hlen hall => ?_) (fun _ _ => rfl) (fun _ => rfl) fun us hus => ?_
  · rw [Ty.Legible, legibleTys_iff]
    exact ⟨hlen, fun t ht => Ty.isUnion_of_looseness (hall t ht).1,
      fun t ht => ⟨Ty.isPredicate_of_looseness (by have := (hall t ht).1; omega), (hall t ht).2⟩⟩
  · rw [List.append_nil, hls]
    cases b with
    | false => exact hus.mono (by decide)
    | true => exact .pipe (by decide) hus

/-- A conditional type behind its first `extends`. -/
theorem conditional {check : Ty} : Passes c (Parser.conditional n ty check) fun ls t =>
    ∀ ks, check.From 2 false ks → t.From 3 false (ks ++ .keyword .extendsKw :: ls) := by
  refine h.united.bind fun super _ => .expect (by simp) fun _ => ?_
  refine (h.full _ false).bind fun yes _ => .expect (by simp) fun _ => ?_
  refine (h.full _ false).bind fun no _ => .pure ?_
  intro ks hno _ ls hyes _ us hsuper vs hcheck
  rw [List.append_nil]
  exact hcheck.conditional hsuper hyes hno

theorem whole : Passes c (Parser.full n ty inSuper) (Ty.From 3 inSuper) := by
  refine h.united.bind fun t _ => ?_
  cases inSuper with
  | true =>
    refine .pure fun ks ht => ?_
    rw [List.append_nil]
    exact ht.mono (by decide)
  | false =>
    refine .accept (by simp) (fun _ => h.conditional) fun _ => .pure fun ks ht => ?_
    rw [List.append_nil]
    exact ht.mono (by decide)

end TyReader.Faithful

/-- **Types are written with the tokens that they were read from.** -/
theorem faithful_readTy (n : Nat) : (Parser.readTy n).Faithful := by
  induction n with
  | zero => exact ⟨fun _ _ => .fail, fun _ _ => .fail⟩
  | succ n ih => exact ⟨fun _ _ => ih.whole, fun _ _ => ih.postfixed⟩

/-! ## Types of a source -/

/-- Tokens of types none of which is a function, a constructor or an object type. -/
def plainKinds : List Kind → Bool
  | [] => true
  | k :: ks => k != .arrow && (k != .lbrace || startsMapped ks) && plainKinds ks

theorem startsMapped_append {ks : List Kind} (h : startsMapped ks = true) (ls : List Kind) :
    startsMapped (ks ++ ls) = true := by
  obtain ⟨sign, readonly, k, rest, hsign, hreadonly, hk, rfl⟩ := startsMapped_iff.1 h
  exact startsMapped_iff.2 ⟨sign, readonly, k, rest ++ ls, hsign, hreadonly, hk, by simp⟩

theorem plain_of_plainKinds {ks : List Kind} (h : plainKinds ks = true) (halone : ∀ k ∈ ks, k.Alone)
    (behind : List Kind) : Plain ks behind := by
  induction ks with
  | nil => trivial
  | cons k ks ih =>
    rw [plainKinds, Bool.and_eq_true, Bool.and_eq_true] at h
    obtain ⟨⟨harrow, hbrace⟩, h⟩ := h
    refine ⟨⟨halone k List.mem_cons_self, by simpa using harrow, ?_⟩, ?_⟩
    · rintro rfl
      exact startsMapped_append (by simpa using hbrace) behind
    · exact ih h fun l hl => halone l (List.mem_cons_of_mem k hl)

/-- A text is cut into the lexemes that it spells. -/
theorem Spells.shows {s : String} {ls : List Lexeme} (h : Spells s ls []) :
    Shows (lex s).cursor ls := by
  obtain ⟨ts, gap, hts, hls, -⟩ := h []
  rw [List.append_nil, ← map_bare_lexChars, show scan gap none [] = [] from rfl,
    List.append_nil] at hts
  refine ⟨?_, rfl⟩
  rw [← hts, List.forall₂_map_right_iff] at hls
  exact hls

/-- **Reading a type keeps its tokens.** What is written of a type that was read has the tokens `w`
that it was read from, but for what `Tidied` lists, and it is read back as the same type, but for
parentheses. No literal among the tokens may lack its end. -/
theorem readTy_tidied {source : String} {i n : Nat} {inSuper : Bool} {t : Ty} {c : Cursor}
    (h : Parser.readTy n .full inSuper ((lex source).cursorAt i) = .ok (t, c)) (level : Nat) :
    ∃ w, ((lex source).cursorAt i).rest = w ++ c.rest ∧
      ((∀ u ∈ w, u.Closed) → plainKinds (w.map Token.kind) = true →
        Tidied 3 (w.map Token.kind) ((lex (t.print level)).tokens.map Token.kind) ∧
        ∃ t' : Ty, t'.erased = t.erased ∧ ∀ m, (lex (t.print level)).tokens.length ≤ m →
          ∃ c', Parser.readTy m .full inSuper (lex (t.print level)).cursor = .ok (t', c') ∧
            c'.rest = []) := by
  obtain ⟨-, w, hw, hfrom⟩ := (faithful_readTy n).full _ inSuper rfl t c h
  refine ⟨w, hw, fun hclosed hplain => ?_⟩
  have halone : ∀ k ∈ w.map Token.kind, k.Alone := by
    rw [List.forall_mem_map]
    intro u hu
    have hmem : u ∈ (lex source).tokens.drop i := by
      rw [show (lex source).tokens.drop i = w ++ c.rest from hw]
      exact List.mem_append_left _ hu
    exact Kind.alone_of_mem (List.mem_of_mem_drop hmem) (hclosed u hu)
  have hfrom := hfrom (plain_of_plainKinds hplain halone _)
  have hshows : Shows (lex (t.print level)).cursor t.lexemes :=
    (Ty.spells level (by simp [Delimited]) t hfrom.legible).shows
  have hkinds : (lex (t.print level)).tokens.map Token.kind = t.lexemes.map Lexeme.kind :=
    map_kind_of_describes hshows.rest
  refine ⟨hkinds ▸ hfrom.tidied, t.reread, t.erased_reread, fun m hm => ?_⟩
  have hreads : Reads inSuper (t.clear inSuper) (Parser.readTy m .full inSuper) (t.lexemes ++ [])
      t.reread [] :=
    (reader_readTy m).full hfrom.legible (hfrom.plain (Nat.le_refl 3)).1
      (by rw [hshows.rest.length_eq]; exact hm) (by rw [kindAt_nil]; rfl)
  rw [hfrom.clear inSuper id, List.append_nil] at hreads
  obtain ⟨c', hc', hrest⟩ := hreads _ hshows
  exact ⟨c', hc', List.forall₂_nil_left_iff.1 hrest.rest⟩

/-- A sign and empty angle brackets are left out, and parentheses are put around an operand. -/
theorem readTy_tidied_keyof : ∃ t c w,
    Parser.readTy 9 .full false ((lex "| keyof keyof A<>;").cursorAt 0) = .ok (t, c) ∧
      ((lex "| keyof keyof A<>;").cursorAt 0).rest = w ++ c.rest ∧ (∀ u ∈ w, u.Closed) ∧
      plainKinds (w.map Token.kind) = true ∧ t.print 0 = "keyof (keyof A)" ∧
      Tidied 3 (w.map Token.kind) ((lex (t.print 0)).tokens.map Token.kind) ∧
      ∃ t' : Ty, t'.erased = t.erased ∧ ∀ m, (lex (t.print 0)).tokens.length ≤ m →
        ∃ c', Parser.readTy m .full false (lex (t.print 0)).cursor = .ok (t', c') ∧
          c'.rest = [] := by
  have h : Parser.readTy 9 .full false ((lex "| keyof keyof A<>;").cursorAt 0) =
      .ok (.keyOf (.keyOf (.named "A" [])), (lex "| keyof keyof A<>;").cursorAt 6) := rfl
  obtain ⟨w, hw, hkeeps⟩ := readTy_tidied h 0
  have hkinds : w.map Token.kind = [.symbol .pipe, .keyword .keyofKw, .keyword .keyofKw, .ident "A",
      .langle, .rangle] := by
    have htokens : w = (lex "| keyof keyof A<>;").between 0 6 :=
      List.append_cancel_right (hw.symm.trans rfl)
    rw [htokens]
    rfl
  have hclosed : ∀ u ∈ w, u.Closed := by
    intro u hu s hs
    have hmem := List.mem_map_of_mem (f := Token.kind) hu
    simp [hkinds, hs] at hmem
  have hplain : plainKinds (w.map Token.kind) = true := by
    rw [hkinds]
    decide
  obtain ⟨htidied, hreread⟩ := hkeeps hclosed hplain
  exact ⟨_, _, w, h, hw, hclosed, hplain, rfl, htidied, hreread⟩

end Ambient
