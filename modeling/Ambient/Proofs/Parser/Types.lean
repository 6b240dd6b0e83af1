import Ambient.Proofs.Parser.Primary

/-!
# Reading types

From primary types to brackets, `&`, `|` and conditional types, each level is read through the one
below it, and `readTy` reads every legible type as soon as its bound is not below the number of its
lexemes (`reader_readTy`). A conditional type in the `extends` operand of another one is left in
front of its own `extends`.
-/

namespace Ambient

variable {m : Nat} {inSuper : Bool} {us : List Lexeme}

/-! ## Brackets -/

namespace Ty

/-- The number of brackets behind a type. -/
def brackets : Ty → Nat
  | .array t => (if t.looserThanPostfix then 0 else t.brackets) + 1
  | .indexAccess t _ => (if t.looserThanPostfix then 0 else t.brackets) + 1
  | _ => 0

theorem brackets_wrapped (t : Ty) :
    (t.wrapped t.looserThanPostfix).brackets = if t.looserThanPostfix then 0 else t.brackets := by
  cases h : t.looserThanPostfix
  · rfl
  · rfl

/-- Types with brackets behind them, or primary types. -/
def isPostfixed : Ty → Bool
  | .array _ | .indexAccess .. => true
  | t => t.isPrimary

theorem isPostfixed_wrapped {t : Ty} (h : t.isPredicate = false) :
    (t.wrapped t.looserThanPostfix).isPostfixed = true := by
  cases t <;> first | rfl | simp [isPredicate] at h

theorem brackets_lt : (t : Ty) → t.Legible → t.isPredicate = false →
    t.brackets < t.lexemes.length
  | .array t, h, _ => by
    rw [Legible] at h
    have ih := brackets_lt t h.2 h.1
    rw [lexemes, brackets, List.length_append]
    cases hl : t.looserThanPostfix
    · simp only [enclosed, Bool.false_eq_true, if_false, List.length_cons, List.length_nil]
      omega
    · simp
  | .indexAccess t index, h, _ => by
    rw [Legible] at h
    have ih := brackets_lt t h.1.2 h.1.1
    simp only [lexemes, brackets, List.length_append, List.length_singleton]
    cases hl : t.looserThanPostfix
    · simp only [enclosed, Bool.false_eq_true, if_false]
      omega
    · simp only [if_true]
      omega
  | .named .., h, hp | .primitive _, h, hp | .stringLiteral _, h, hp | .numberLiteral _, h, hp
  | .booleanLiteral _, h, hp | .union _, h, hp | .intersection _, h, hp | .function .., h, hp
  | .constructor .., h, hp | .object _, h, hp | .tuple _, h, hp | .typeOf _, h, hp
  | .keyOf _, h, hp | .operator .., h, hp | .conditional .., h, hp | .mapped .., h, hp
  | .infer _, h, hp | .template _, h, hp | .imported .., h, hp | .parenthesized _, h, hp
  | .this, h, hp => List.length_pos_iff.2 (Ty.leads _ h hp).ne_nil

end Ty

theorem stuck_brackets (ty : TyReader) (k : Nat) (t : Ty) : Stuck (Parser.brackets ty k t) := by
  cases k with
  | zero => exact .fail _
  | succ k => exact .accept (by simp) .pure

/-- **Brackets behind a type are read one after the other,** whatever comes behind them. -/
theorem Reader.brackets (hr : Reader m (Parser.readTy m)) {w : Ty} {vs : List Lexeme} (t : Ty)
    (h : t.Legible) (ht : t.isPostfixed = true) (hm : t.lexemes.length ≤ m + 1)
    {us : List Lexeme} (hu : t.endsAt (kindAt us 0) = true) {k : Nat} {ok : Bool}
    (hk : Reads inSuper ok (Parser.brackets (Parser.readTy m) k t.reread) us w vs) :
    Reads inSuper (t.clear inSuper && ok)
      (Parser.primary (m + 1) (Parser.readTy m) inSuper >>=
        Parser.brackets (Parser.readTy m) (k + t.brackets))
      (t.lexemes ++ us) w vs := by
  -- By the number of lexemes, since what stands in front of the brackets may be put in parentheses
  -- and is then no part of `t`. What is read behind `t` grows by the brackets.
  induction hn : t.lexemes.length using Nat.strongRecOn generalizing t us k ok with
  | ind n ih =>
    subst hn
    by_cases hprim : t.isPrimary = true
    · have hb : t.brackets = 0 := by cases t <;> first | rfl | simp [Ty.isPrimary] at hprim
      rw [hb, Nat.add_zero]
      exact (hr.primary h hprim hm hu).bind hk fun _ _ => stuck_brackets _ _ _
    cases t <;> try (first | exact absurd rfl hprim | simp [Ty.isPostfixed, Ty.isPrimary] at ht)
    case array t =>
      rw [Ty.Legible] at h
      simp only [Ty.lexemes, List.length_append, List.length_cons, List.length_nil] at hm
      -- The outermost brackets are read by the round behind those of `t`.
      have hlt : (t.wrapped t.looserThanPostfix).lexemes.length < (Ty.array t).lexemes.length := by
        simp only [Ty.lexemes, Ty.lexemes_wrapped, List.length_append, List.length_cons]
        omega
      have := @ih _ hlt (t.wrapped t.looserThanPostfix) (h.2.wrapped h.1 _)
        (Ty.isPostfixed_wrapped h.1) (by rw [Ty.lexemes_wrapped]; omega)
        ([.sym .lbracket, .sym .rbracket] ++ us) ?_ (k + 1) ok ?_ rfl
      · rw [Ty.lexemes_wrapped, Ty.clear_wrapped, Ty.brackets_wrapped] at this
        rw [Ty.lexemes, Ty.clear, Ty.brackets, List.append_assoc]
        rwa [Nat.add_right_comm, Nat.add_assoc] at this
      · simp [Ty.endsAt, @Ty.wrapped_self Ty.looserThanPostfix (fun _ => rfl)]
      · exact Takes.then (takes_accept rfl) (Takes.then (takes_accept rfl)
          (by rw [Ty.reread_wrapped]; exact hk))
    case indexAccess t index =>
      rw [Ty.Legible] at h
      simp only [Ty.lexemes, List.length_append, List.length_cons, List.length_nil] at hm
      have hlt : (t.wrapped t.looserThanPostfix).lexemes.length <
          (Ty.indexAccess t index).lexemes.length := by
        simp only [Ty.lexemes, Ty.lexemes_wrapped, List.length_append, List.length_cons]
        omega
      have := @ih _ hlt (t.wrapped t.looserThanPostfix) (h.1.2.wrapped h.1.1 _)
        (Ty.isPostfixed_wrapped h.1.1) (by rw [Ty.lexemes_wrapped]; omega)
        (.sym .lbracket :: (index.lexemes ++ (.sym .rbracket :: us))) ?_ (k + 1)
        (index.clear false && ok) ?_ rfl
      · rw [Ty.lexemes_wrapped, Ty.clear_wrapped, Ty.brackets_wrapped] at this
        rw [Ty.lexemes, Ty.clear, Ty.brackets, List.append_assoc, List.append_assoc,
          List.append_assoc, Bool.and_assoc]
        rwa [Nat.add_right_comm, Nat.add_assoc] at this
      · simp [Ty.endsAt, @Ty.wrapped_self Ty.looserThanPostfix (fun _ => rfl)]
      · have hstart := (index.leads h.2.2 h.2.1).kindAt_zero (.sym .rbracket :: us)
        refine Takes.then (takes_accept rfl) (Takes.then (takes_accept_false ?_) ?_)
        · rintro he
          simp [he, Kind.startsType] at hstart
        refine Reads.bind_false (hr.full h.2.2 h.2.1 (by omega) rfl) ?_
        refine Takes.then (takes_expect rfl) ?_
        rw [Ty.reread_wrapped]
        exact hk

/-- A type with the brackets behind it. -/
theorem Reader.postfixed (hr : Reader m (Parser.readTy m)) {t : Ty} (h : t.Legible)
    (ht : t.isPostfixed = true) (hm : t.lexemes.length ≤ m + 1) (hu : t.endsAt (kindAt us 0) = true)
    (hb : kindAt us 0 ≠ .lbracket) :
    Reads inSuper (t.clear inSuper) (Parser.postfixed (m + 1) (Parser.readTy m) inSuper)
      (t.lexemes ++ us) t.reread us := by
  have hp : t.isPredicate = false := by
    cases t <;> first | rfl | simp [Ty.isPostfixed, Ty.isPrimary] at ht
  have hlt := t.brackets_lt h hp
  -- Each pair of brackets takes a round, and one is left to find no more of them.
  obtain ⟨k, hk⟩ : ∃ k, m + 1 = k + 1 + t.brackets := ⟨m - t.brackets, by omega⟩
  have hend : Takes (Parser.brackets (Parser.readTy m) (k + 1) t.reread) us t.reread us :=
    (takes_accept_false hb).bind .pure
  have : Reads inSuper _ _ _ _ us := hr.brackets t h ht hm hu hend.reads
  rw [Bool.and_true, ← hk] at this
  exact this

/-! ## Operators between types -/

theorem count_le_separated_of_ne_nil {xs : List (List Lexeme)} {s : Symbol}
    (h : ∀ x ∈ xs, x ≠ []) : xs.length ≤ (separated s xs).length := by
  induction xs with
  | nil => simp
  | cons x xs ih =>
    have h₁ := List.length_pos_iff.2 (h x List.mem_cons_self)
    have h₂ := ih fun y hy => h y (List.mem_cons_of_mem x hy)
    cases xs with
    | nil => simpa [separated] using Nat.succ_le_of_lt h₁
    | cons y xs =>
      rw [separated, List.length_append, List.length_append, List.length_cons]
      omega

section Operators

variable {p : Parser Ty} {ls : List Lexeme} {a : Bool} {v : Ty} {n : Nat} {sep : Symbol}

/-- One operand is the whole type. -/
theorem Reads.combined_one (operator : List Ty → Ty) (hp : Reads inSuper a p ls v us)
    (hu : kindAt us 0 ≠ .symbol sep) (hn : 0 < n) :
    Reads inSuper a (do
      let ts ← Parser.sepBy1 (.symbol sep) p n
      pure (Parser.combined operator ts)) ls v us := by
  obtain ⟨n, rfl⟩ := Nat.exists_eq_succ_of_ne_zero (Nat.pos_iff_ne_zero.1 hn)
  rw [← Bool.and_true a]
  refine Reads.bind (v := [v]) ?_ (Takes.reads (show Takes _ us _ us from .pure)) fun _ _ => .pure
  rw [← Bool.and_true a]
  exact hp.bind (Takes.reads ((takes_accept_false hu).bind .pure)) fun _ _ =>
    .accept (by simp) .pure

/-- Operands under an operator, in parentheses where they need them. -/
theorem Reads.combined {F : Kind → Prop} {operator : List Ty → Ty} {loose : Ty → Bool}
    {ts : List Ty} (h : 2 ≤ ts.length) (hne : ∀ t ∈ ts, t.lexemes ≠ []) (hu : F (kindAt us 0))
    (hsep : F (.symbol sep)) (hu' : kindAt us 0 ≠ .symbol sep)
    (hn : (separated sep (lexemesOperands loose ts)).length ≤ n)
    (hp : ∀ t ∈ ts, ∀ us, F (kindAt us 0) →
      Reads inSuper (t.clear (inSuper && !loose t)) p (enclosed (loose t) t.lexemes ++ us)
        (t.reread.wrapped (loose t)) us) :
    Reads inSuper (clearOperands inSuper loose ts) (do
      let ts ← Parser.sepBy1 (.symbol sep) p n
      pure (Parser.combined operator ts)) (separated sep (lexemesOperands loose ts) ++ us)
      (operator (rereadOperands loose ts)) us := by
  rw [lexemesOperands_eq_map] at hn ⊢
  rw [clearOperands_eq_all, rereadOperands_eq_map]
  have hcount : (ts.map fun t => enclosed (loose t) t.lexemes).length ≤ _ :=
    count_le_separated_of_ne_nil (s := sep) (by
      intro x hx
      obtain ⟨t, ht, rfl⟩ := List.mem_map.1 hx
      cases loose t
      · exact hne t ht
      · simp [enclosed])
  rw [List.length_map] at hcount
  have hcombined (vs : List Ty) (hvs : 2 ≤ vs.length) :
      Parser.combined operator vs = operator vs := by
    obtain _ | ⟨_, _ | _⟩ := vs
    · simp at hvs
    · simp at hvs
    · rfl
  rw [← hcombined _ (by simpa using h), ← Bool.and_true (List.all _ _)]
  refine Reads.bind (Reads.sepBy1 hsep hu hu' (by omega) ?_ hp)
    Takes.pure.reads fun _ _ => .pure
  rintro rfl
  simp at h

end Operators

namespace Ty

theorem endsAt_of_endsOperand {t : Ty} {k : Kind} (h : t.looserThanUnion = false)
    (hk : k.endsOperand = true) : t.endsAt k = true := by
  simp [endsAt, h, hk]

theorem endsOperand_of_ne {t : Ty} {k : Kind} (h : t.endsAt k = true) (hk : k ≠ .lbracket) :
    k.endsOperand = true := by
  rw [endsAt, Bool.or_eq_true, Bool.or_eq_true, Bool.and_eq_true, Bool.and_eq_true] at h
  rcases h with (h | ⟨-, h⟩) | ⟨-, h⟩
  · exact Kind.endsType.endsOperand h
  · exact h
  · exact absurd (by simpa using h) hk

end Ty

/-- A type starts with none of the operators. -/
theorem Leads.ne_symbol {ls : List Lexeme} (h : Leads ls) {y : Symbol}
    (hy : (Kind.symbol y).startsType = false) (us : List Lexeme) :
    kindAt (ls ++ us) 0 ≠ .symbol y := by
  intro he
  have := h.kindAt_zero us
  rw [he, hy] at this
  simp at this

theorem length_le_operands {loose : Ty → Bool} {ts : List Ty} (sep : Symbol) {t : Ty} (h : t ∈ ts) :
    (enclosed (loose t) t.lexemes).length ≤ (separated sep (lexemesOperands loose ts)).length := by
  rw [lexemesOperands_eq_map]
  exact length_le_separated (List.mem_map_of_mem (f := fun t => enclosed (loose t) t.lexemes) h)

/-- A type, or several with `&` between them. -/
theorem Reader.intersected (hr : Reader m (Parser.readTy m)) {t : Ty} (h : t.Legible)
    (ht : t.isPostfixed = true ∨ t.isIntersection = true) (hm : t.lexemes.length ≤ m + 1)
    (hu : t.endsAt (kindAt us 0) = true) (hb : kindAt us 0 ≠ .lbracket)
    (ha : kindAt us 0 ≠ .symbol .amp) :
    Reads inSuper (t.clear inSuper) (Parser.intersected (m + 1) (Parser.readTy m) inSuper)
      (t.lexemes ++ us) t.reread us := by
  have hp : t.isPredicate = false := by
    cases t <;> first | rfl | simp [Ty.isPostfixed, Ty.isPrimary, Ty.isIntersection] at ht
  refine Takes.then (takes_accept_false ((t.leads h hp).ne_symbol rfl us)) ?_
  rcases ht with ht | ht
  · exact .combined_one _ (hr.postfixed h ht hm hu hb) ha (by omega)
  cases t <;> try simp [Ty.isIntersection] at ht
  rename_i ts
  rw [Ty.Legible] at h
  have hts := legibleTys_iff.1 h.2.2
  rw [Ty.lexemes] at hm
  refine Reads.combined (F := fun k => k.endsOperand = true) h.1
    (fun t ht => (t.leads (hts t ht).2 (hts t ht).1).ne_nil) (Ty.endsOperand_of_ne hu hb) rfl ha hm
    fun t ht us hus => ?_
  have hlen := @length_le_operands (fun t => t.looserThanUnion || t.isUnion) _ .amp _ ht
  have hw : Reads inSuper _ _ _ _ us :=
    hr.postfixed (t := t.wrapped (t.looserThanUnion || t.isUnion))
      ((hts t ht).2.wrapped (hts t ht).1 _) ?_ (by rw [Ty.lexemes_wrapped]; omega)
      (Ty.endsAt_of_endsOperand ?_ hus) (Kind.endsOperand.ne hus).2.2.2.1
  · rwa [Ty.lexemes_wrapped, Ty.clear_wrapped, Ty.reread_wrapped] at hw
  · have h₁ := (hts t ht).1
    have h₂ := h.2.1 t ht
    cases t <;> first | rfl | (cases h₁; done) | cases h₂
  · cases t <;> rfl

/-- A type, or several with `|` between them. -/
theorem Reader.united (hr : Reader m (Parser.readTy m)) {t : Ty} (h : t.Legible)
    (ht : t.isConditional = false) (hp : t.isPredicate = false) (hm : t.lexemes.length ≤ m + 1)
    (hu : t.endsAt (kindAt us 0) = true) (hb : kindAt us 0 ≠ .lbracket)
    (ha : kindAt us 0 ≠ .symbol .amp) (ho : kindAt us 0 ≠ .symbol .pipe) :
    Reads inSuper (t.clear inSuper) (Parser.united (m + 1) (Parser.readTy m) inSuper)
      (t.lexemes ++ us) t.reread us := by
  refine Takes.then (takes_accept_false ((t.leads h hp).ne_symbol rfl us)) ?_
  by_cases hunion : t.isUnion = true
  · cases t <;> try simp [Ty.isUnion] at hunion
    rename_i ts
    rw [Ty.Legible] at h
    have hts := legibleTys_iff.1 h.2.2
    rw [Ty.lexemes] at hm
    refine Reads.combined (F := fun k => k.endsOperand = true ∧ k ≠ .symbol .amp) h.1
      (fun t ht => (t.leads (hts t ht).2 (hts t ht).1).ne_nil) ⟨Ty.endsOperand_of_ne hu hb, ha⟩
      ⟨rfl, by simp⟩ ho hm fun t ht us hus => ?_
    have hlen := @length_le_operands Ty.looserThanUnion _ .pipe _ ht
    have hw : Reads inSuper _ _ _ _ us :=
      hr.intersected (t := t.wrapped t.looserThanUnion) ((hts t ht).2.wrapped (hts t ht).1 _) ?_
        (by rw [Ty.lexemes_wrapped]; omega) (Ty.endsAt_of_endsOperand ?_ hus.1)
        (Kind.endsOperand.ne hus.1).2.2.2.1 hus.2
    · rwa [Ty.lexemes_wrapped, Ty.clear_wrapped, Ty.reread_wrapped] at hw
    · have h₁ := (hts t ht).1
      have h₂ := h.2.1 t ht
      cases t <;> first
        | exact .inl rfl
        | exact .inr rfl
        | (cases h₁; done)
        | cases h₂
    · cases t <;> rfl
  · refine .combined_one _ (hr.intersected h ?_ hm hu hb ha) ho (by omega)
    cases t <;> first
      | exact .inl rfl
      | exact .inr rfl
      | exact absurd rfl hunion
      | (cases ht; done)
      | cases hp

/-! ## Whole types -/

/-- The rest of a conditional type. -/
theorem Reader.conditional (hr : Reader m (Parser.readTy m)) {check super yes no : Ty}
    (hs : super.isPredicate = false ∧ super.Legible) (hy : yes.isPredicate = false ∧ yes.Legible)
    (hno : no.isPredicate = false ∧ no.Legible)
    (hm : (enclosed super.isConditional super.lexemes).length + yes.lexemes.length +
      no.lexemes.length ≤ m)
    (hu : (kindAt us 0).endsType = true) :
    Reads false (super.clear (!super.isConditional) && (yes.clear false && no.clear false))
      (Parser.conditional (m + 1) (Parser.readTy m) check)
      (enclosed super.isConditional super.lexemes ++ (.sym .question :: (yes.lexemes ++
        (.sym .colon :: (no.lexemes ++ us)))))
      (.conditional check (super.reread.wrapped super.isConditional) yes.reread no.reread) us := by
  have hsuper : Reads true _ _ _ _
      (.sym .question :: (yes.lexemes ++ (.sym .colon :: (no.lexemes ++ us)))) :=
    hr.united (t := super.wrapped super.isConditional)
      (hs.2.wrapped hs.1 _) (Ty.wrapped_self (fun _ => rfl) _) (Ty.isPredicate_wrapped hs.1 _)
      (by rw [Ty.lexemes_wrapped]; omega) (by simp [Ty.endsAt, Kind.endsType]) (by simp) (by simp)
      (by simp)
  rw [Ty.lexemes_wrapped, Ty.clear_wrapped, Ty.reread_wrapped, Bool.true_and] at hsuper
  refine hsuper.bind_refused ?_ fun _ c hc r h => ?_
  · refine Takes.then (takes_expect rfl) ?_
    refine (hr.full hy.2 hy.1 (by omega) rfl).bind_false ?_
    refine Takes.then (takes_expect rfl) ?_
    rw [← Bool.and_true (no.clear false)]
    exact (hr.full hno.2 hno.1 (by omega) hu).bind_false Takes.pure.reads
  -- An operand that is refused ends in front of the word `extends`, which is no question mark.
  · rw [Parser.bind_apply, Parser.expect, hc, if_neg (by simp)] at h
    simp at h

/-- **A whole type is read** where it is clear, and not past its own `extends` in the `extends`
operand of a conditional type. -/
theorem Reader.whole (hr : Reader m (Parser.readTy m)) {t : Ty} (h : t.Legible)
    (hp : t.isPredicate = false) (hm : t.lexemes.length ≤ m + 1)
    (hu : (kindAt us 0).endsType = true) :
    Reads inSuper (t.clear inSuper) (Parser.full (m + 1) (Parser.readTy m) inSuper)
      (t.lexemes ++ us) t.reread us := by
  have hne := Kind.endsType.ne hu
  -- Inside an operand of `extends` the word is never looked for.
  have hend (hs : inSuper = true) (v : Ty) : Stuck (α := Ty) (if inSuper then pure v else do
      if ← Parser.accept (.keyword .extendsKw) then
        Parser.conditional (m + 1) (Parser.readTy m) v
      else pure v) := by
    rw [hs]
    exact .pure
  by_cases hc : t.isConditional = true
  · cases t <;> try simp [Ty.isConditional] at hc
    rename_i check super yes no
    rw [Ty.Legible] at h
    simp only [Ty.lexemes, List.length_append, List.length_singleton] at hm
    have hcheck : Reads inSuper _ _ _ _
        (.kw .extendsKw :: (enclosed super.isConditional super.lexemes ++
          (.sym .question :: (yes.lexemes ++ (.sym .colon :: (no.lexemes ++ us)))))) :=
      hr.united (t := check.wrapped check.looserThanUnion)
        (h.1.2.wrapped h.1.1 _) (by cases check <;> rfl) (Ty.isPredicate_wrapped h.1.1 _)
        (by rw [Ty.lexemes_wrapped]; omega)
        (Ty.endsAt_of_endsOperand (Ty.wrapped_self (fun _ => rfl) _) rfl) (by simp) (by simp)
        (by simp)
    rw [Ty.lexemes_wrapped, Ty.clear_wrapped, Ty.reread_wrapped] at hcheck
    simp only [Ty.lexemes, List.append_assoc, List.cons_append, List.nil_append]
    cases inSuper with
    | false =>
      rw [Ty.clear, Bool.not_false, Bool.true_and, Bool.and_assoc, Bool.and_assoc]
      refine hcheck.bind_false (Takes.then (takes_accept rfl) ?_)
      exact hr.conditional h.2.1 h.2.2.1 h.2.2.2 (by omega) hu
    -- Its own `extends` is left, so that no conditional type is read here.
    | true =>
      rw [Ty.clear, Bool.not_true, Bool.false_and, Bool.false_and, Bool.false_and, Bool.false_and]
      exact Balks.bind (hcheck.balks rfl) hend
  · have hcond : t.isConditional = false := by simpa using hc
    rw [← Bool.and_true (t.clear inSuper)]
    refine (hr.united h hcond hp hm ?_ hne.2.2.2.1 hne.2.2.2.2.2.1 hne.2.2.2.2.1).bind ?_
      hend
    · simp [Ty.endsAt, hu]
    · cases inSuper with
      | true => exact Takes.pure.reads
      | false => exact Takes.then (takes_accept_false hne.2.2.2.2.2.2.1) Takes.pure.reads

/-- **Types are read back,** as long as they have no more lexemes than the bound on nesting. -/
theorem reader_readTy (m : Nat) : Reader m (Parser.readTy m) := by
  induction m with
  -- Every type has a lexeme, so there is none to read.
  | zero =>
    constructor
    · intro t inSuper us h hp hm hu
      exact absurd (List.length_eq_zero_iff.1 (Nat.le_zero.1 hm)) (t.leads h hp).ne_nil
    · intro t inSuper us h hp hl hm hu
      exact absurd (List.length_eq_zero_iff.1 (Nat.le_zero.1 hm)) (t.leads h hp).ne_nil
  | succ m ih =>
    constructor
    · intro t inSuper us h hp hm hu
      exact ih.whole h hp hm hu
    · intro t inSuper us h hp hl hm hu
      refine ih.postfixed h ?_ hm ?_ (Kind.endsOperand.ne hu).2.2.2.1
      · cases t <;> first | rfl | (cases hl; done) | cases hp
      · refine Ty.endsAt_of_endsOperand ?_ hu
        cases t <;> first | rfl | cases hl

end Ambient
