import Ambient.Proofs.Parser.Faithful

/-!
# Where a type ends

The last token of a type is a word, a literal or a closing bracket (`stops_readTy`), so the semicolon
behind a type is never taken for a part of it. And a type goes on as long as it can: the token behind
a whole type is no bracket that could belong to it, and no operator (`before_readTy`).

`Stops b c p` is about the tokens that a parser passes, like `Passes`, but says only with which token
they end. Most of what a parser reads does not matter for this: everything in front of the last part
only has to go forward (`Forward.stops`).
-/

namespace Ambient

/-- Whether a type can end with the token. -/
def Kind.isTypeEnd (k : Kind) : Bool :=
  k.isWord || match k with
    | .string _ | .number _ | .template _ => true
    | .symbol .rparen | .symbol .rbracket | .symbol .rbrace | .symbol .rangle => true
    | _ => false

/-- The last token can end a type. No tokens are allowed only if `some` does not hold. -/
def Ending (some : Bool) (ts : List Token) : Prop :=
  (some = false ∧ ts = []) ∨ ∃ us t, ts = us ++ [t] ∧ t.kind.isTypeEnd = true

theorem Ending.append {b : Bool} {ts us : List Token} (ht : Ending b ts) (hu : Ending false us) :
    Ending b (ts ++ us) := by
  rcases hu with ⟨-, rfl⟩ | ⟨vs, t, rfl, h⟩
  · rwa [List.append_nil]
  · exact .inr ⟨ts ++ vs, t, by rw [List.append_assoc], h⟩

section

variable {α β : Type} {b : Bool} {c : Cursor} {p : Parser α} {f : α → Parser β} {k : Kind}

/-- From the cursor, the parser passes tokens the last of which can end a type. It may pass none only
if `some` does not hold. -/
def Stops (some : Bool) (c : Cursor) (p : Parser α) : Prop :=
  c.eof.kind = .eof → ∀ v c', p c = .ok (v, c') → c'.eof = c.eof ∧
    ∃ ts, c.rest = ts ++ c'.rest ∧ Ending some ts

/-! ## Parsers put together -/

theorem Stops.weaken (h : Stops true c p) : Stops b c p := by
  intro heof v c' hp
  obtain ⟨hc', ts, hts, hend⟩ := h heof v c' hp
  exact ⟨hc', ts, hts, .inr (hend.resolve_left (by simp))⟩

theorem Stops.pure (v : α) : Stops false c (pure v) := by
  rintro - _ _ ⟨⟩
  exact ⟨rfl, [], rfl, .inl ⟨rfl, rfl⟩⟩

theorem Stops.fail {cause : Cause} : Stops b c (Parser.fail cause : Parser α) := by
  rintro - _ _ ⟨⟩

theorem Stops.bind (hp : Stops b c p) (hf : ∀ v c', Stops false c' (f v)) :
    Stops b c (p >>= f) := by
  intro heof w c'' h
  obtain ⟨v, c', hv, hw⟩ := Parser.bind_eq_ok h
  obtain ⟨hc', ts, hts, hend⟩ := hp heof v c' hv
  obtain ⟨hc'', us, hus, hend'⟩ := hf v c' (hc' ▸ heof) w c'' hw
  exact ⟨hc''.trans hc', ts ++ us, by rw [hts, hus, List.append_assoc], hend.append hend'⟩

/-- Only the last part of what is passed matters. -/
theorem Forward.stops (hp : Forward p) (hf : ∀ v c', Stops true c' (f v)) :
    Stops b c (p >>= f) := by
  intro heof w c'' h
  obtain ⟨v, c', hv, hw⟩ := Parser.bind_eq_ok h
  obtain ⟨hc', ts, hts, -⟩ := hp c heof v c' hv
  obtain ⟨hc'', us, hus, hend⟩ := hf v c' (hc' ▸ heof) w c'' hw
  obtain ⟨vs, t, rfl, ht⟩ := hend.resolve_left (by simp)
  exact ⟨hc''.trans hc', ts ++ (vs ++ [t]), by rw [hts, hus]; simp,
    .inr ⟨ts ++ vs, t, (List.append_assoc ..).symm, ht⟩⟩

theorem Stops.map (u : α → β) (hp : Stops b c p) : Stops b c (u <$> p) := by
  rw [map_eq_pure_bind]
  exact hp.bind fun v c' => .pure (u v)

theorem Stops.peekAt {f : Kind → Parser β} (n : Nat) (h : ∀ k, c.kindAt n = k → Stops b c (f k)) :
    Stops b c (Parser.peekAt n >>= f) :=
  h _ rfl

theorem Stops.peek {f : Kind → Parser β} (h : ∀ k, c.kindAt 0 = k → Stops b c (f k)) :
    Stops b c (Parser.peek >>= f) :=
  h _ rfl

/-- What stands behind a question that leaves the cursor where it is. -/
theorem Stops.ask {v : α} (hq : p c = .ok (v, c)) (h : Stops b c (f v)) : Stops b c (p >>= f) := by
  intro heof w c' hp
  obtain ⟨v', c'', hv, hw⟩ := Parser.bind_eq_ok hp
  rw [hq] at hv
  cases hv
  exact h heof w c' hw

/-! ## Tokens -/

theorem stops_advance (hk : (c.kindAt 0).isTypeEnd = true) : Stops true c Parser.advance := by
  rintro heof _ _ ⟨⟩
  refine ⟨rfl, ?_⟩
  obtain ⟨rest, eof⟩ := c
  cases rest with
  | nil =>
    -- At the end nothing is passed, but no type ends with the end of the source.
    rw [show Cursor.kindAt ⟨[], eof⟩ 0 = .eof from heof] at hk
    cases hk
  | cons t ts => exact ⟨[t], rfl, .inr ⟨[], t, rfl, hk⟩⟩

/-- The next token is the last one that matters. -/
theorem Stops.advance {p : Parser β} (hk : c.kindAt 0 = k) (he : k.isTypeEnd = true)
    (h : ∀ c', Stops false c' p) : Stops b c (Parser.advance >>= fun _ => p) :=
  ((stops_advance (hk ▸ he)).bind fun _ c' => h c').weaken

theorem stops_expect (hk : k.isTypeEnd = true) : Stops true c (Parser.expect k) := by
  intro heof v c' hp
  rw [Parser.expect] at hp
  split at hp
  · next h => exact stops_advance (h ▸ hk) heof v c' hp
  · cases hp

theorem Stops.expect {p : Parser β} (hk : k.isTypeEnd = true) (h : ∀ c', Stops false c' p) :
    Stops b c (Parser.expect k >>= fun _ => p) :=
  ((stops_expect hk).bind fun _ c' => h c').weaken

/-- What stands behind a token that may be there. -/
theorem Stops.accept {f : Bool → Parser β} (ht : ∀ c', Stops true c' (f true))
    (hf : Stops b c (f false)) : Stops b c (Parser.accept k >>= f) := by
  by_cases hk : c.kindAt 0 = k
  · have hforward : Stops b c (Parser.accept k >>= fun _ => f true) :=
      (forward_accept k).stops fun _ => ht
    intro heof v c' hp
    refine hforward heof v c' ?_
    change (Parser.accept k c).bind _ = _ at hp ⊢
    rwa [Parser.accept, if_pos hk] at hp ⊢
  · intro heof v c' hp
    refine hf heof v c' ?_
    change (Parser.accept k c).bind _ = _ at hp
    rwa [Parser.accept, if_neg hk] at hp

/-- A token that may be there, and that could be the last one. -/
theorem Stops.acceptLast {f : Bool → Parser β} (hk : k.isTypeEnd = true)
    (ht : ∀ c', Stops false c' (f true)) (hf : Stops b c (f false)) :
    Stops b c (Parser.accept k >>= f) := by
  by_cases hc : c.kindAt 0 = k
  · have hadvance : Stops b c (Parser.advance >>= fun _ => f true) := .advance hc hk ht
    intro heof v c' hp
    refine hadvance heof v c' ?_
    change (Parser.accept k c).bind _ = _ at hp
    rwa [Parser.accept, if_pos hc] at hp
  · intro heof v c' hp
    refine hf heof v c' ?_
    change (Parser.accept k c).bind _ = _ at hp
    rwa [Parser.accept, if_neg hc] at hp

theorem stops_after? (h : ∀ c, Stops true c p) : Stops false c (Parser.after? k p) :=
  .accept (fun c' => (h c').map some) (.pure none)

theorem stops_sepBy1 {sep : Kind} (h : ∀ c, Stops true c p) (n : Nat) :
    Stops true c (Parser.sepBy1 sep p n) := by
  induction n generalizing c with
  | zero => exact .fail
  | succ n ih =>
    refine (h c).bind fun v c' => .accept (fun c'' => ?_) (.pure [v])
    exact ih.bind fun vs _ => .pure (v :: vs)

/-! ## Names -/

theorem stops_identifier : Stops b c Parser.identifier := by
  refine .peek fun k hk => ?_
  split
  · exact .advance hk rfl fun _ => .pure _
  · split
    · exact .advance hk rfl fun _ => .pure _
    · exact .fail
  · exact .fail

theorem ending_dottedRest (ts : List Token) :
    ∃ passed, ts = passed ++ (Parser.dottedRest ts).2 ∧ Ending false passed := by
  fun_induction Parser.dottedRest ts with
  | case1 t u ts ht w hw r ih =>
    obtain ⟨passed, hts, hend⟩ := ih
    have hu : u.kind.isTypeEnd = true := by simp [Kind.isTypeEnd, Kind.isWord, hw]
    have htwo : Ending false [t, u] := .inr ⟨[t], u, rfl, hu⟩
    exact ⟨[t, u] ++ passed, congrArg ([t, u] ++ ·) hts, htwo.append hend⟩
  | case2 | case3 | case4 => exact ⟨[], rfl, .inl ⟨rfl, rfl⟩⟩

theorem stops_dottedName : Stops b c Parser.dottedName := by
  refine stops_identifier.bind fun name c' => ?_
  rintro - _ _ ⟨⟩
  exact ⟨rfl, ending_dottedRest c'.rest⟩

theorem stops_predicateSubject : Stops b c Parser.predicateSubject :=
  .acceptLast rfl (fun _ => .pure "this") stops_identifier

end

/-! ## Types -/

namespace TyReader.Faithful

variable {n : Nat} {ty : TyReader} {s b : Bool} {c : Cursor} (h : ty.Faithful)
  (hs : ∀ form inSuper c, Stops true c (ty form inSuper))

section

include h

theorem stops_typeArgs : Stops false c (Parser.typeArgs n ty) := by
  refine .accept (fun c' => ?_) (.pure [])
  exact (forward_commaList _ (h.forward _ _) n).stops fun args _ => .expect rfl fun _ => .pure args

theorem stops_imported : Stops b c (Parser.imported n ty) := by
  refine (forward_expect _).stops fun _ c' => (forward_expect _).stops fun _ c' => ?_
  refine .peek fun k hk => ?_
  split
  · next module =>
    refine .advance hk rfl fun c' => .weaken <| .expect rfl fun c' => ?_
    refine (stops_after? fun _ => stops_dottedName).bind fun qualifier c' => ?_
    exact h.stops_typeArgs.bind fun args c' => .pure _
  · exact .fail

theorem stops_typeQuery : Stops b c (Parser.typeQuery n ty) := by
  refine forward_advance.stops fun _ c' => .peek fun k hk => ?_
  split
  · exact h.stops_imported.bind fun type _ => .pure _
  · exact stops_dottedName.bind fun name _ => .pure _

theorem stops_namedType : Stops b c (Parser.namedType n ty) :=
  stops_dottedName.bind fun _ _ => h.stops_typeArgs.bind fun _ _ => .pure _

theorem stops_tuple : Stops b c (Parser.tuple n ty) :=
  have helement : Forward (Parser.tupleElement ty) := Passes.forward fun _ => h.tupleElement
  (forward_expect _).stops fun _ _ => (forward_commaList _ helement n).stops fun _ _ =>
    .expect rfl fun _ => .pure _

theorem stops_members : Stops b c (Parser.members n ty) :=
  (forward_expect _).stops fun _ _ =>
    (forward_itemsUntil _ (forward_member h.forward) n).stops fun ms _ =>
      .expect rfl fun _ => .pure ms

theorem stops_mapped : Stops b c (Parser.mapped ty) := by
  have hmodifier (target : Kind) : Forward (Parser.mappedModifier target) := by
    refine (forward_accept _).bind fun _ => ?_
    split
    · exact (forward_expect _).bind fun _ => .pure _
    refine (forward_accept _).bind fun _ => ?_
    split
    · exact (forward_expect _).bind fun _ => .pure _
    refine (forward_accept _).bind fun _ => ?_
    split <;> exact .pure _
  have hty := h.forward .full false
  refine (forward_expect _).stops fun _ _ => (hmodifier _).stops fun _ _ => ?_
  refine (forward_expect _).stops fun _ _ => forward_propertyName.stops fun _ _ => ?_
  refine (forward_expect _).stops fun _ _ => hty.stops fun _ _ => ?_
  refine (forward_after? _ hty).stops fun _ _ => (forward_expect _).stops fun _ _ => ?_
  refine (hmodifier _).stops fun _ _ => (forward_expect _).stops fun _ _ => ?_
  exact hty.stops fun _ _ => (forward_accept _).stops fun _ _ => .expect rfl fun _ => .pure _

theorem stops_mappedOrObject : Stops b c (Parser.mappedOrObject n ty) := by
  obtain ⟨mapped, hat⟩ : ∃ b, Parser.atMapped c = .ok (b, c) := ⟨_, rfl⟩
  refine .ask hat ?_
  cases mapped with
  | true => exact h.stops_mapped
  | false => exact h.stops_members.map _

end

end TyReader.Faithful

/-- A reader of types that stops where types can end. -/
structure TyReader.Stops (ty : TyReader) : Prop where
  faithful : ty.Faithful
  stops : ∀ form inSuper c, Ambient.Stops true c (ty form inSuper)

namespace TyReader.Stops

variable {n : Nat} {ty : TyReader} {s b : Bool} {c : Cursor} (h : ty.Stops)

include h

theorem forward (form : TyForm) (inSuper : Bool) : Forward (ty form inSuper) :=
  h.faithful.forward form inSuper

theorem result : Ambient.Stops true c (Parser.result ty s) := by
  refine .peek fun k₀ hk₀ => .peekAt 1 fun k₁ hk₁ => ?_
  split
  · refine forward_advance.stops fun _ _ => stops_predicateSubject.bind fun _ _ => ?_
    exact (stops_after? (h.stops _ _)).bind fun _ _ => .pure _
  split
  · refine forward_predicateSubject.stops fun _ _ => (forward_expect _).stops fun _ c' => ?_
    exact (h.stops _ _ c').bind fun _ _ => .pure _
  · exact h.stops _ _ c

theorem arrowType : Ambient.Stops b c (Parser.arrowType n ty s) :=
  (forward_signature h.forward).stops fun sig _ => (forward_expect _).stops fun _ _ =>
    h.result.bind fun result _ => .pure (sig, result)

theorem functionOrParens : Ambient.Stops b c (Parser.functionOrParens n ty s) := by
  obtain ⟨function, hat⟩ : ∃ b, Parser.atFunction c = .ok (b, c) := ⟨_, rfl⟩
  refine .ask hat ?_
  cases function with
  | true => exact h.arrowType.bind fun _ _ => .pure _
  | false =>
    exact (forward_expect _).stops fun _ _ => (h.forward .full false).stops fun _ _ =>
      .expect rfl fun _ => .pure _

theorem keywordType {k : Keyword} (hk : c.kindAt 0 = .keyword k) :
    Ambient.Stops b c (Parser.keywordType n ty s k) := by
  have behind {f : Ty → Ty} {form : TyForm} :
      Ambient.Stops b c (Parser.advance >>= fun _ => f <$> ty form s) :=
    forward_advance.stops fun _ c' => (h.stops _ _ c').map f
  have single {t : Ty} : Ambient.Stops b c (Parser.advance >>= fun _ => pure t) :=
    .advance hk rfl fun _ => .pure t
  unfold Parser.keywordType
  split
  -- Words that are types of their own.
  · exact single
  · exact single
  · exact single
  · exact h.faithful.stops_typeQuery
  -- Words in front of an operand or a name.
  · exact behind
  · exact behind
  · exact .advance hk rfl fun _ => stops_identifier.map Ty.infer
  · exact h.faithful.stops_imported
  · exact forward_advance.stops fun _ _ => h.arrowType.bind fun _ _ => .pure _
  · refine .peekAt 1 fun next hnext => ?_
    split
    · exact forward_advance.stops fun _ _ => forward_advance.stops fun _ _ =>
        h.arrowType.bind fun _ _ => .pure _
    · exact .fail
  · split
    · exact single
    · exact .fail

omit h in
theorem negativeNumber : Ambient.Stops b c Parser.negativeNumber := by
  refine forward_advance.stops fun _ c' => .peek fun k hk => ?_
  split
  · exact .advance hk rfl fun _ => .pure _
  · exact .fail

theorem symbolType {s₀ : Symbol} : Ambient.Stops b c (Parser.symbolType n ty s s₀) := by
  unfold Parser.symbolType
  split
  · exact negativeNumber
  · exact h.functionOrParens
  · exact h.faithful.stops_mappedOrObject
  · exact h.faithful.stops_tuple
  · exact h.arrowType.bind fun _ _ => .pure _
  · exact .fail

theorem primary : Ambient.Stops true c (Parser.primary n ty s) := by
  refine .peek fun k hk => ?_
  split
  -- A name, unless it is the word `unique` in front of `symbol`.
  · refine .peekAt 1 fun next hnext => ?_
    split
    · exact forward_advance.stops fun _ c' => (h.stops _ _ c').map _
    · exact h.faithful.stops_namedType
  -- Literals.
  · exact .advance hk rfl fun _ => .pure _
  · exact .advance hk rfl fun _ => .pure _
  · exact .advance hk rfl fun _ => .pure _
  · exact h.keywordType hk
  · exact h.symbolType
  · exact .fail

theorem brackets (k : Nat) (t : Ty) : Ambient.Stops false c (Parser.brackets ty k t) := by
  induction k generalizing c t with
  | zero => exact .fail
  | succ k ih =>
    refine .accept (fun c' => .acceptLast rfl (fun c'' => ih _) ?_) (.pure t)
    exact (h.forward .full false).stops fun index _ => .expect rfl fun _ => ih _

theorem postfixed : Ambient.Stops true c (Parser.postfixed n ty s) :=
  h.primary.bind fun type _ => h.brackets n type

theorem intersected : Ambient.Stops true c (Parser.intersected n ty s) :=
  (forward_accept _).stops fun _ _ =>
    (stops_sepBy1 (fun _ => h.postfixed) n).bind fun _ _ => .pure _

theorem united : Ambient.Stops true c (Parser.united n ty s) :=
  (forward_accept _).stops fun _ _ =>
    (stops_sepBy1 (fun _ => h.intersected) n).bind fun _ _ => .pure _

theorem conditional {check : Ty} : Ambient.Stops true c (Parser.conditional n ty check) :=
  have hsuper : Forward (Parser.united n ty true) := Passes.forward fun _ => h.faithful.united
  hsuper.stops fun _ _ => (forward_expect _).stops fun _ _ =>
    (h.forward .full false).stops fun _ _ => (forward_expect _).stops fun _ c' =>
      (h.stops .full false c').bind fun _ _ => .pure _

theorem full : Ambient.Stops true c (Parser.full n ty s) := by
  refine h.united.bind fun type c' => ?_
  split
  · exact .pure type
  · exact .accept (fun _ => h.conditional) (.pure type)

end TyReader.Stops

/-- **The last token of a type is one that can end a type.** -/
theorem stops_readTy (n : Nat) : (Parser.readTy n).Stops := by
  induction n with
  | zero => exact ⟨faithful_readTy 0, fun _ _ _ => .fail⟩
  | succ n ih =>
    refine ⟨faithful_readTy (n + 1), fun form s c => ?_⟩
    cases form with
    | full => exact ih.full
    | operand => exact ih.postfixed

/-! ## Behind a type -/

/-- Whether a type goes on if the token stands behind it. -/
def Kind.goesOn : Kind → Bool
  | .symbol .lbracket | .symbol .amp | .symbol .pipe | .keyword .extendsKw => true
  | _ => false

section

variable {α β : Type} {p : Parser α} {f : α → Parser β} {P : Kind → Prop}

/-- When the parser succeeds, the next token has a kind like this. -/
def Before (p : Parser α) (P : Kind → Prop) : Prop :=
  ∀ c v c', p c = .ok (v, c') → P (c'.kindAt 0)

theorem Before.bind (hf : ∀ v, Before (f v) P) : Before (p >>= f) P := by
  intro c w c'' h
  obtain ⟨v, c', -, hw⟩ := Parser.bind_eq_ok h
  exact hf v c' w c'' hw

/-- Results have no influence on the next token. -/
theorem Before.bind_pure {g : α → β} (hp : Before p P) : Before (p >>= fun v => pure (g v)) P := by
  intro c w c'' h
  obtain ⟨v, c', hv, hw⟩ := Parser.bind_eq_ok h
  cases hw
  exact hp c v c'' hv

/-- A token that is not there has not been passed. -/
theorem Before.unless {k : Kind} {q : Parser β} {r : β} {c c' : Cursor} {v : β}
    (ht : Before q P) (hf : c.kindAt 0 ≠ k → P (c.kindAt 0))
    (h : (Parser.accept k >>= fun b => if b then q else pure r) c = .ok (v, c')) :
    P (c'.kindAt 0) := by
  obtain ⟨b, c₁, hb, hv⟩ := Parser.bind_eq_ok h
  rw [Parser.accept] at hb
  split at hb
  · cases hb
    exact ht _ _ _ hv
  · next hk =>
    cases hb
    cases hv
    exact hf hk

theorem before_sepBy1 {sep : Kind} (hp : Before p P) (n : Nat) :
    Before (Parser.sepBy1 sep p n) fun k => P k ∧ k ≠ sep := by
  induction n with
  | zero => exact fun _ _ _ h => nomatch h
  | succ n ih =>
    intro c vs c'' h
    obtain ⟨v, c', hv, hrest⟩ := Parser.bind_eq_ok h
    exact Before.unless (P := fun k => P k ∧ k ≠ sep) (.bind_pure ih)
      (fun hne => ⟨hp _ _ _ hv, hne⟩) hrest

variable {n : Nat} {ty : TyReader} {s : Bool}

theorem before_brackets (k : Nat) (t : Ty) :
    Before (Parser.brackets ty k t) (· ≠ .lbracket) := by
  induction k generalizing t with
  | zero => exact fun _ _ _ h => nomatch h
  | succ k ih =>
    intro c t' c' h
    refine Before.unless (P := (· ≠ .lbracket)) (.bind fun closed => ?_) (fun hne => hne) h
    split
    · exact ih _
    · exact .bind fun index => .bind fun _ => ih _

theorem before_postfixed : Before (Parser.postfixed n ty s) (· ≠ .lbracket) :=
  .bind (before_brackets n)

theorem before_united : Before (Parser.united n ty s) fun k =>
    ((k ≠ .lbracket ∧ k ≠ .symbol .amp) ∧ k ≠ .symbol .pipe) := by
  have hintersected : Before (Parser.intersected n ty s) fun k =>
      k ≠ .lbracket ∧ k ≠ .symbol .amp :=
    .bind fun _ => .bind_pure (before_sepBy1 before_postfixed n)
  exact .bind fun _ => .bind_pure (before_sepBy1 hintersected n)

end

/-- **A whole type goes on as long as it can.** -/
theorem before_readTy (n : Nat) : Before (Parser.readTy n .full false) (·.goesOn = false) := by
  have hstop {k : Kind} (h : (k ≠ .lbracket ∧ k ≠ .symbol .amp) ∧ k ≠ .symbol .pipe)
      (he : k ≠ .keyword .extendsKw) : k.goesOn = false := by
    unfold Kind.goesOn
    split <;> simp_all
  induction n with
  | zero => exact fun _ _ _ h => nomatch h
  | succ n ih =>
    intro c t c'' h
    obtain ⟨type, c', htype, hrest⟩ := Parser.bind_eq_ok h
    -- A conditional type ends with a whole type; anything else stopped where no `extends` stood.
    have hconditional : Before (Parser.conditional (n + 1) (Parser.readTy n) type)
        (·.goesOn = false) :=
      .bind fun super => .bind fun _ => .bind fun yes => .bind fun _ => .bind_pure ih
    exact Before.unless hconditional (hstop (before_united _ _ _ htype)) hrest

end Ambient
