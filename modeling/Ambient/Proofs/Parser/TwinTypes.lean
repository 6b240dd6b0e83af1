import Ambient.Proofs.Parser.TwinNames

/-!
# Types side by side

The readers of types agree on twins (`Twin.agree_readTy`): with every two bounds above the number of
tokens left they read types that are alike, or fail at the same token. A grammar function is looked
at over readers for the types inside (`Twin.Readers`), of which only what they do behind the first
token matters.
-/

namespace Ambient

variable {S : String → String → Prop} {l m : Lexed}

/-! ## Looking ahead -/

/-- Tests that find the same on both sources and pass nothing. -/
def Twin.Sees (_ : Twin S l m) (p q : Parser Bool) : Prop :=
  ∀ i, ∃ b, p (l.cursorAt i) = .ok (b, l.cursorAt i) ∧ q (m.cursorAt i) = .ok (b, m.cursorAt i)

theorem Kind.Like.beq {k k' x : Kind} (h : k.Like S k') (hx : ∀ s, x ≠ .template s) :
    (k == x) = (k' == x) := by
  rw [Bool.eq_iff_iff, beq_iff_eq, beq_iff_eq]
  exact h.eq_iff hx

theorem followsModifier_eq {k k' : Kind} (h : k.Like S k') :
    k.followsModifier = k'.followsModifier := by
  rcases h.cases with rfl | ⟨s, s', -, rfl, rfl⟩ <;> rfl

theorem arrowFollows_alike {ts us : List Token} (h : List.Forall₂ (Token.Like S) ts us) (d : Nat) :
    arrowFollows d ts = arrowFollows d us := by
  induction h generalizing d with
  | nil => rfl
  | @cons t u ts us ht hts ih =>
    have hhead : (ts.head?.map Token.kind == some .arrow) =
        (us.head?.map Token.kind == some .arrow) := by
      cases hts with
      | nil => rfl
      | cons ht _ => simpa using ht.kind.beq (x := .arrow) (by simp)
    rcases ht.kind.cases with hk | ⟨s, s', -, hk, hk'⟩
    · simp only [arrowFollows, hk]
      split
      · exact ih _
      · cases d with
        | zero => exact hhead
        | succ d => exact ih d
      · exact ih d
    · simp only [arrowFollows, hk, hk']
      exact ih d

section Sees

variable {tw : Twin S l m} {i n : Nat} {γ δ : Type} {p q : Parser Bool} {p₁ p₂ : Parser γ}
  {q₁ q₂ : Parser δ} {Q : γ → δ → Prop}

/-- What is done depending on a test. -/
theorem Twin.Agree.look (h : tw.Sees p q) (h₁ : tw.Agree i n p₁ q₁ Q)
    (h₂ : tw.Agree i n p₂ q₂ Q) :
    tw.Agree i n (p >>= fun b => if b = true then p₁ else p₂)
      (q >>= fun b => if b = true then q₁ else q₂) Q := by
  intro hi
  obtain ⟨b, hp, hq⟩ := h i
  show Ends S l m n Q (p _ >>= fun r => (if r.1 = true then p₁ else p₂) r.2)
    (q _ >>= fun r => (if r.1 = true then q₁ else q₂) r.2)
  rw [hp, hq]
  cases b with
  | true => exact h₁ hi
  | false => exact h₂ hi

variable (tw)

theorem Twin.sees_atSignature : tw.Sees Parser.atSignature Parser.atSignature := by
  intro i
  have hk := tw.kindAt i 0
  refine ⟨_, rfl, ?_⟩
  show Except.ok (_, _) = Except.ok (_, _)
  rw [hk.beq (x := .lparen) (by simp), hk.beq (x := .langle) (by simp)]

theorem Twin.sees_atIndexSignature : tw.Sees Parser.atIndexSignature Parser.atIndexSignature := by
  intro i
  refine ⟨_, rfl, ?_⟩
  show Except.ok (_, _) = Except.ok (_, _)
  rw [(tw.kindAt i 0).beq (x := .lbracket) (by simp), isWord_eq (tw.kindAt i 1),
    (tw.kindAt i 2).beq (x := .colon) (by simp)]

theorem Twin.sees_atAccessor : tw.Sees Parser.atAccessor Parser.atAccessor := by
  intro i
  have hk := tw.kindAt i 0
  refine ⟨_, rfl, ?_⟩
  show Except.ok (_, _) = Except.ok (_, _)
  rw [hk.beq (x := .ident "get") (by simp), hk.beq (x := .ident "set") (by simp),
    followsModifier_eq (tw.kindAt i 1)]

theorem Twin.sees_atNamedElement : tw.Sees Parser.atNamedElement Parser.atNamedElement := by
  intro i
  refine ⟨_, rfl, ?_⟩
  show Except.ok (_, _) = Except.ok (_, _)
  rw [isWord_eq (tw.kindAt i 0), (tw.kindAt i 1).beq (x := .colon) (by simp),
    (tw.kindAt i 1).beq (x := .question) (by simp), (tw.kindAt i 2).beq (x := .colon) (by simp)]

theorem Twin.sees_atMapped : tw.Sees Parser.atMapped Parser.atMapped := by
  intro i
  have hsign := or_congr ((tw.kindAt i 1).eq_iff (x := .symbol .plus) (by simp))
    ((tw.kindAt i 1).eq_iff (x := .symbol .minus) (by simp))
  have hreadonly (n : Nat) := (tw.kindAt i n).eq_iff (x := .keyword .readonlyKw) (by simp)
  refine ⟨_, rfl, ?_⟩
  simp only [Parser.atMapped, hsign, hreadonly]
  rw [(tw.kindAt i _).beq (x := .lbracket) (by simp), isWord_eq (tw.kindAt i _),
    (tw.kindAt i _).beq (x := .keyword .inKw) (by simp)]

theorem Twin.sees_atFunction : tw.Sees Parser.atFunction Parser.atFunction := by
  intro i
  have harrow : arrowFollows 0 (l.cursorAt i).rest.tail = arrowFollows 0 (m.cursorAt i).rest.tail := by
    rw [Lexed.cursorAt, Lexed.cursorAt, List.tail_drop, List.tail_drop]
    exact arrowFollows_alike (tw.drop (i + 1)) 0
  have hcolon := (tw.kindAt i 2).beq (x := .colon) (by simp)
  have hthird := (tw.kindAt i 3).beq (x := .arrow) (by simp)
  refine ⟨_, rfl, ?_⟩
  simp only [Parser.atFunction, harrow, hcolon, hthird]
  rcases (tw.kindAt i 1).cases with hk | ⟨s, s', -, hk, hk'⟩
  · rw [hk]
    rcases (tw.kindAt i 2).cases with hk | ⟨s, s', -, hk, hk'⟩
    · rw [hk]
    · rw [hk, hk']
  · rw [hk, hk']
    rfl

end Sees

/-! ## Parts of a grammar -/

section Parts

variable {tw : Twin S l m} {i n : Nat} {α β γ δ : Type} {p p' : Parser γ} {q q' : Parser δ}
  {Q : γ → δ → Prop}

/-- Only positions in a source count. -/
theorem Twin.Agree.of_le (h : i ≤ l.tokens.length → tw.Agree i n p q Q) : tw.Agree i n p q Q :=
  fun hi => h hi hi

/-- What is done depending on whether a token of a fixed kind stands next, which is passed then. -/
theorem Twin.Agree.choose {k : Kind} (hk : k.isFixed = true)
    (ht : ∀ j, i + 1 ≤ j → tw.Agree j n p q Q) (hf : tw.Agree i n p' q' Q) :
    tw.Agree i n (Parser.accept k >>= fun b => if b = true then p else p')
      (Parser.accept k >>= fun b => if b = true then q else q') Q :=
  .accept hk ht fun _ => hf

/-- A token of a fixed kind that is passed if it stands next. -/
theorem Twin.Agree.drop {k : Kind} (hk : k.isFixed = true)
    (h : ∀ j, i ≤ j → tw.Agree j n p q Q) :
    tw.Agree i n (Parser.accept k >>= fun _ => p) (Parser.accept k >>= fun _ => q) Q :=
  (tw.agree_accept i hk).bind fun _ _ j hj _ => h j hj

variable (tw)

theorem Twin.agree_endMember (i : Nat) :
    tw.Agree i i Parser.endMember Parser.endMember fun _ _ => True :=
  .choose rfl (fun _ hj => .pure trivial (by omega))
    ((tw.agree_accept i rfl).map fun _ _ _ => trivial)

theorem Twin.agree_predicateSubject (i : Nat) :
    tw.Agree i (i + 1) Parser.predicateSubject Parser.predicateSubject (· = ·) :=
  .choose rfl (fun _ hj => .pure rfl hj) (tw.agree_identifier i)

theorem Twin.agree_readonlyModifier (i : Nat) :
    tw.Agree i i Parser.readonlyModifier Parser.readonlyModifier (· = ·) := by
  refine .peek (fun _ _ => by simp) fun k hk => .peekAt 1 (fun _ _ => rfl) fun k₁ _ => ?_
  split
  · next h =>
    have hi := tw.lt_of_kindAt_ne (i := i) (by rw [hk, h.1]; simp)
    exact .advance hi fun _ hj => .pure rfl (by omega)
  · exact .pure rfl (Nat.le_refl _)

theorem Twin.agree_mappedModifier (i : Nat) {k : Kind} (hk : k.isFixed = true) :
    tw.Agree i i (Parser.mappedModifier k) (Parser.mappedModifier k) (· = ·) := by
  refine .choose rfl (fun j hj => ?_) (.choose rfl (fun j hj => ?_) (.choose hk (fun j hj => ?_) ?_))
  · exact .expect hk fun _ hj' => .pure rfl (by omega)
  · exact .expect hk fun _ hj' => .pure rfl (by omega)
  · exact .pure rfl (by omega)
  · exact .pure rfl (Nat.le_refl _)

theorem Twin.agree_negativeNumber (i : Nat) :
    tw.Agree i (i + 1) Parser.negativeNumber Parser.negativeNumber (Ty.Like S) := by
  refine .of_le fun hi => (tw.agree_advance i).then fun j hj => .peek_like fun k k' _ hk hlt => ?_
  cases hk with
  | template hs => exact .fail (.found _ hs) (by simp) (by simp)
  | same k =>
    cases k with
    | number text =>
      exact .advance (hlt (by simp)) fun j₁ hj₁ => .pure (.numberLiteral _) (by omega)
    | _ => exact .fail (.same _) (by simp) (by simp)

theorem Twin.agree_typeParamModifiers (i : Nat) {F : List TypeParamModifier → Parser γ}
    {G : List TypeParamModifier → Parser δ} (h : ∀ v j, i ≤ j → tw.Agree j n (F v) (G v) Q) :
    tw.Agree i n
      (show Parser γ from
        (fun c : Cursor => .ok ((typeParamModifiers c.rest).1,
          { c with rest := (typeParamModifiers c.rest).2 })) >>= F)
      (show Parser δ from
        (fun c : Cursor => .ok ((typeParamModifiers c.rest).1,
          { c with rest := (typeParamModifiers c.rest).2 })) >>= G) Q :=
  .scan (typeParamModifiers_alike (tw.drop i)) h

end Parts

/-! ## Readers -/

theorem receivers_like {as bs : List (Ty ⊕ Param)}
    (h : List.Forall₂ (Sum.LiftRel (Ty.Like S) (Param.Like S)) as bs) :
    Option.Rel (Ty.Like S) (as.filterMap Sum.getLeft?).getLast?
      (bs.filterMap Sum.getLeft?).getLast? := by
  have hlefts : List.Forall₂ (Ty.Like S) (as.filterMap Sum.getLeft?) (bs.filterMap Sum.getLeft?) := by
    induction h with
    | nil => exact .nil
    | cons h _ ih =>
      cases h with
      | inl h => exact .cons h ih
      | inr h => exact ih
  generalize as.filterMap Sum.getLeft? = xs at hlefts
  generalize bs.filterMap Sum.getLeft? = ys at hlefts
  induction hlefts with
  | nil => exact .none
  | @cons x y xs ys hxy hxs ih =>
    cases hxs with
    | nil => exact .some hxy
    | cons _ _ => simpa using ih

theorem parameters_like {as bs : List (Ty ⊕ Param)}
    (h : List.Forall₂ (Sum.LiftRel (Ty.Like S) (Param.Like S)) as bs) :
    List.Forall₂ (Param.Like S) (as.filterMap Sum.getRight?) (bs.filterMap Sum.getRight?) := by
  induction h with
  | nil => exact .nil
  | cons h _ ih =>
    cases h with
    | inl h => exact ih
    | inr h => exact .cons h ih

/-- An element of a tuple may start with a type. -/
theorem Twin.agree_tupleElement {tw : Twin S l m} {ty ty' : TyReader} {j : Nat}
    (hty : ∀ k, j ≤ k → tw.Agree k (k + 1) (ty .full false) (ty' .full false) (Ty.Like S)) :
    tw.Agree j (j + 1) (Parser.tupleElement ty) (Parser.tupleElement ty')
      (TupleElement.Like S) := by
  refine (tw.agree_accept j rfl).bind fun rest _ j₁ hj₁ hr => ?_
  subst hr
  refine .look tw.sees_atNamedElement ?_ ?_
  · refine (tw.agree_propertyName j₁).bind fun a b j₂ hj₂ hab => ?_
    refine (tw.agree_accept j₂ rfl).bind fun optional _ j₃ hj₃ ho => .expect rfl fun j₄ hj₄ => ?_
    subst ho
    refine (hty _ (by omega)).bind fun t u j₅ hj₅ ht => ?_
    exact .pure (.mk optional rest (.some hab) ht) (by omega)
  · refine (hty _ (by omega)).bind fun t u j₂ hj₂ ht => ?_
    refine (tw.agree_accept j₂ rfl).bind fun optional _ j₃ hj₃ ho => ?_
    subst ho
    exact .pure (.mk optional rest .none ht) (by omega)

/-- Bounds above the number of tokens left, and readers for the types inside a type that starts at
the position `i`: they agree behind it. -/
structure Twin.Readers (tw : Twin S l m) (i n n' : Nat) (ty ty' : TyReader) : Prop where
  rounds : l.tokens.length < n + i
  rounds' : l.tokens.length < n' + i
  ty {j : Nat} (form : TyForm) (inSuper : Bool) (hj : i < j) :
    tw.Agree j (j + 1) (ty form inSuper) (ty' form inSuper) (Ty.Like S)

namespace Twin.Readers

variable {tw : Twin S l m} {i j n n' : Nat} {ty ty' : TyReader}

theorem mono (h : tw.Readers i n n' ty ty') (hj : i ≤ j) : tw.Readers j n n' ty ty' where
  rounds := by have := h.rounds; omega
  rounds' := by have := h.rounds'; omega
  ty form inSuper hk := h.ty form inSuper (Nat.lt_of_le_of_lt hj hk)

section

variable (h : tw.Readers i n n' ty ty') (inSuper : Bool)
include h

/-- A type behind a token that may stand next. -/
theorem after {k : Kind} (hk : k.isFixed = true) :
    tw.Agree i i (Parser.after? k (ty .full inSuper)) (Parser.after? k (ty' .full inSuper))
      (Option.Rel (Ty.Like S)) :=
  .after? hk fun _ hj => (h.ty .full inSuper hj).weaken (Nat.le_succ _)

/-! ## Signatures -/

theorem typeParam :
    tw.Agree i (i + 1) (Parser.typeParam ty inSuper) (Parser.typeParam ty' inSuper)
      (TypeParam.Like S) := by
  refine tw.agree_typeParamModifiers i fun ms j hj => ?_
  refine (tw.agree_identifier j).bind fun a b k hk hab => ?_
  subst hab
  refine ((h.mono (by omega)).after inSuper rfl).bind fun c c' k₁ hk₁ hc => ?_
  refine ((h.mono (by omega)).after inSuper rfl).bind fun d d' k₂ hk₂ hd => ?_
  exact .pure (.mk a ms hc hd) (by omega)

theorem typeParams :
    tw.Agree i i (Parser.typeParams n ty inSuper) (Parser.typeParams n' ty' inSuper)
      (List.Forall₂ (TypeParam.Like S)) := by
  refine .choose rfl (fun j hj => ?_) (.pure .nil (Nat.le_refl _))
  have hb := (h.mono (show i ≤ j by omega)).rounds
  have hb' := (h.mono (show i ≤ j by omega)).rounds'
  refine (Agree.commaList (by simp)
    (fun k hk => ((h.mono (by omega)).typeParam inSuper).weaken (Nat.le_succ _)) hb hb').bind
    fun ps qs k hk hps => ?_
  exact .expect rfl fun k' hk' => .pure hps (by omega)

theorem plainParam :
    tw.Agree i (i + 1) (Parser.plainParam ty inSuper) (Parser.plainParam ty' inSuper)
      (Param.Like S) := by
  refine (tw.agree_skipParamModifiers i).then fun j hj => ?_
  refine (tw.agree_accept j rfl).bind fun rest _ j₁ hj₁ hrest => ?_
  subst hrest
  refine .peek (fun _ _ => by simp) fun k hnext => ?_
  have hrest : ∀ a b j₂, j₁ + 1 ≤ j₂ → S a b → tw.Agree j₂ (i + 1)
      (do
        let optional ← Parser.accept .question
        let type ← Parser.after? .colon (ty .full inSuper)
        let _ ← Parser.after? .eq Parser.expression
        pure { name := a, ty := type, optional, rest })
      (do
        let optional ← Parser.accept .question
        let type ← Parser.after? .colon (ty' .full inSuper)
        let _ ← Parser.after? .eq Parser.expression
        pure { name := b, ty := type, optional, rest }) (Param.Like S) := by
    intro a b j₂ hj₂ hab
    refine (tw.agree_accept j₂ rfl).bind fun optional _ j₃ hj₃ ho => ?_
    subst ho
    refine ((h.mono (by omega)).after inSuper rfl).bind fun t u j₄ hj₄ ht => ?_
    refine (tw.agree_initializer j₄).bind fun _ _ j₅ hj₅ _ => ?_
    exact .pure (.mk optional rest hab ht) (by omega)
  by_cases hk : k = .lbrace ∨ k = .lbracket
  · rw [if_pos hk, if_pos hk]
    have hkept : KeptAlike S l m j₁ Parser.pattern :=
      fun j s hij hj hs => tw.written (.pattern (hnext ▸ hk) hs) hij hj
    exact (tw.agree_pattern j₁ hkept).bind hrest
  · rw [if_neg hk, if_neg hk]
    exact (tw.agree_propertyName j₁).bind hrest

/-- Receivers that are alike, or parameters that are. -/
theorem param :
    tw.Agree i (i + 1) (Parser.param ty inSuper) (Parser.param ty' inSuper)
      (Sum.LiftRel (Ty.Like S) (Param.Like S)) := by
  refine .peek (fun _ _ => by simp) fun k hk => .peekAt 1 (fun _ _ => by simp) fun k₁ _ => ?_
  by_cases hthis : k = .keyword .thisKw ∧ k₁ = .colon
  · have hi := tw.lt_of_kindAt_ne (i := i) (by rw [hk, hthis.1]; simp)
    rw [if_pos hthis, if_pos hthis]
    refine .advance hi fun j hj => .of_le fun hle => (tw.agree_advance j).then fun j' hj' => ?_
    exact ((h.ty .full inSuper (by omega)).map (fun _ _ => .inl)).weaken (by omega)
  · rw [if_neg hthis, if_neg hthis]
    exact (h.plainParam inSuper).map fun _ _ => .inr

/-- Receivers that are alike and parameters that are alike. -/
theorem params :
    tw.Agree i (i + 1) (Parser.params n ty inSuper) (Parser.params n' ty' inSuper)
      fun a b => Option.Rel (Ty.Like S) a.1 b.1 ∧ List.Forall₂ (Param.Like S) a.2 b.2 := by
  refine .expect rfl fun j hj => ?_
  have hj' := h.mono (show i ≤ j by omega)
  refine (Agree.commaList (by simp)
    (fun k hk => ((hj'.mono hk).param inSuper).weaken (Nat.le_succ _)) hj'.rounds hj'.rounds').bind
    fun ps qs k hk hps => ?_
  exact .expect rfl fun k' hk' => .pure ⟨receivers_like hps, parameters_like hps⟩ (by omega)

theorem signature :
    tw.Agree i (i + 1) (Parser.signature n ty inSuper) (Parser.signature n' ty' inSuper)
      (Signature.Like S) := by
  refine (h.typeParams inSuper).bind fun ps qs j hj hps => ?_
  refine ((h.mono hj).params inSuper).bind fun a b k hk hab => ?_
  exact .pure (.mk hps hab.1 hab.2) (by omega)

/-- The type of a result stands behind the token before the position. -/
theorem result (hj : i < j) :
    tw.Agree j (j + 1) (Parser.result ty inSuper) (Parser.result ty' inSuper) (Ty.Like S) := by
  refine .peek (fun _ _ => by simp [Kind.isIdent]) fun k hk =>
    .peekAt 1 (fun _ _ => by simp [Kind.isIdent]) fun k₁ _ => ?_
  by_cases hasserts : k = .ident "asserts" ∧ (k₁.isIdent = true ∨ k₁ = .keyword .thisKw)
  · have hlt := tw.lt_of_kindAt_ne (i := j) (by rw [hk, hasserts.1]; simp)
    rw [if_pos hasserts, if_pos hasserts]
    refine .advance hlt fun j₁ hj₁ => (tw.agree_predicateSubject j₁).bind fun a b j₂ hj₂ hab => ?_
    subst hab
    refine ((h.mono (by omega)).after inSuper rfl).bind fun t u j₃ hj₃ ht => ?_
    exact .pure (.predicate true a ht) (by omega)
  rw [if_neg hasserts, if_neg hasserts]
  by_cases his : (k.isIdent = true ∨ k = .keyword .thisKw) ∧ k₁ = .keyword .isKw
  · rw [if_pos his, if_pos his]
    refine (tw.agree_predicateSubject j).bind fun a b j₁ hj₁ hab => ?_
    subst hab
    refine .expect rfl fun j₂ hj₂ => (h.ty .full inSuper (by omega)).bind fun t u j₃ hj₃ ht => ?_
    exact .pure (.predicate false a (.some ht)) (by omega)
  · rw [if_neg his, if_neg his]
    exact h.ty .full inSuper hj

theorem result? :
    tw.Agree i i (Parser.result? ty inSuper) (Parser.result? ty' inSuper)
      (Option.Rel (Ty.Like S)) :=
  .after? rfl fun _ hj => (h.result inSuper hj).weaken (Nat.le_succ _)

end

/-! ## Members -/

section

variable (h : tw.Readers i n n' ty ty')
include h

theorem indexSignature (readonly isStatic : Bool) :
    tw.Agree i (i + 1) (Parser.indexSignature ty readonly isStatic)
      (Parser.indexSignature ty' readonly isStatic) (IndexSignature.Like S) := by
  refine .expect rfl fun j hj => (tw.agree_propertyName j).bind fun a b j₁ hj₁ hab => ?_
  refine .expect rfl fun j₂ hj₂ => (h.ty .full false (by omega)).bind fun t u j₃ hj₃ ht => ?_
  refine .expect rfl fun j₄ hj₄ => .expect rfl fun j₅ hj₅ => ?_
  refine (h.ty .full false (by omega)).bind fun v w j₆ hj₆ hv => ?_
  exact (tw.agree_endMember j₆).then fun j₇ hj₇ => .pure (.mk readonly isStatic hab ht hv) (by omega)

theorem accessor (modifiers : MemberModifiers) :
    tw.Agree i (i + 1) (Parser.accessor n ty modifiers) (Parser.accessor n' ty' modifiers)
      (Accessor.Like S) := by
  refine .of_le fun hi => .peek (fun _ _ => by simp) fun k _ => ?_
  refine (tw.agree_advance i).then fun j hj => ?_
  refine (tw.agree_propertyName j).bind fun a b j₁ hj₁ hab => ?_
  refine ((h.mono (by omega)).params false).bind fun ps qs j₂ hj₂ hps => ?_
  refine ((h.mono (by omega)).result? false).bind fun t u j₃ hj₃ ht => ?_
  refine (tw.agree_endMember j₃).then fun j₄ hj₄ => ?_
  exact .pure (.mk _ modifiers hab hps.2 ht) (by omega)

theorem callSignature :
    tw.Agree i (i + 1) (Parser.callSignature n ty) (Parser.callSignature n' ty')
      (MemberShape.Like S) := by
  refine (h.signature false).bind fun f g j hj hf => ?_
  refine ((h.mono (by omega)).result? false).bind fun t u j₁ hj₁ ht => ?_
  exact (tw.agree_endMember j₁).then fun j₂ hj₂ => .pure (.call hf ht) (by omega)

theorem constructSignature :
    tw.Agree i (i + 1) (Parser.constructSignature n ty) (Parser.constructSignature n' ty')
      (MemberShape.Like S) := by
  refine .of_le fun hi => (tw.agree_advance i).then fun j hj => ?_
  refine ((h.mono (by omega)).typeParams false).bind fun ps qs j₁ hj₁ hps => ?_
  refine ((h.mono (by omega)).params false).bind fun a b j₂ hj₂ hab => ?_
  refine ((h.mono (by omega)).result? false).bind fun t u j₃ hj₃ ht => ?_
  exact (tw.agree_endMember j₃).then fun j₄ hj₄ => .pure (.construct hps hab.2 ht) (by omega)

/-- Where no name stands, a token is passed all the same, unless the source is at its end. -/
theorem namedMember (readonly : Bool) :
    tw.Agree i (min (i + 1) l.tokens.length) (Parser.namedMember n ty readonly)
      (Parser.namedMember n' ty' readonly) (Option.Rel (MemberShape.Like S)) := by
  refine .of_le fun hi => (tw.agree_memberName? i).bind fun a b j hj hab => ?_
  cases hab with
  | none => exact .pure .none hj
  | some hab =>
    refine (tw.agree_accept j rfl).bind fun optional _ j₁ hj₁ ho => ?_
    subst ho
    refine .look tw.sees_atSignature ?_ ?_
    · refine ((h.mono (by omega)).signature false).bind fun f g j₂ hj₂ hf => ?_
      refine ((h.mono (by omega)).result? false).bind fun t u j₃ hj₃ ht => ?_
      refine (tw.agree_endMember j₃).then fun j₄ hj₄ => ?_
      exact .pure (.some (.method optional hab hf ht)) (by omega)
    · refine ((h.mono (by omega)).after false rfl).bind fun t u j₂ hj₂ ht => ?_
      refine (tw.agree_endMember j₂).then fun j₃ hj₃ => ?_
      exact .pure (.some (.property optional readonly hab ht)) (by omega)

theorem memberShape :
    tw.Agree i (min (i + 1) l.tokens.length) (Parser.memberShape n ty)
      (Parser.memberShape n' ty') (Option.Rel (MemberShape.Like S)) := by
  refine (tw.agree_readonlyModifier i).bind fun readonly _ j hj hr => ?_
  subst hr
  have hj' := h.mono hj
  refine .look tw.sees_atIndexSignature ?_ (.look tw.sees_atSignature ?_ ?_)
  · refine (hj'.indexSignature readonly false).bind fun s t k hk hs => ?_
    exact .pure (.some (.index hs)) (by omega)
  · exact (hj'.callSignature.map fun _ _ => .some).weaken (by omega)
  refine .peek (fun _ _ => by simp) fun k₀ _ => .peekAt 1 (fun _ _ => by simp) fun k₁ _ => ?_
  by_cases hnew : k₀ = .keyword .newKw ∧ (k₁ = .lparen ∨ k₁ = .langle)
  · rw [if_pos hnew, if_pos hnew]
    exact (hj'.constructSignature.map fun _ _ => .some).weaken (by omega)
  · rw [if_neg hnew, if_neg hnew]
    refine .look tw.sees_atAccessor ?_ ((hj'.namedMember readonly).weaken (by omega))
    refine (hj'.accessor {}).bind fun a b k hk hab => ?_
    exact .pure (.some (.accessor hab)) (by omega)

theorem member :
    tw.Agree i (min (i + 1) l.tokens.length) (Parser.member n ty) (Parser.member n' ty')
      (Option.Rel (Member.Like S)) := by
  refine .peekDoc fun doc => .peek (fun _ _ => by simp) fun k _ => ?_
  by_cases hend : k = .semicolon ∨ k = .comma
  · rw [if_pos hend, if_pos hend]
    exact (tw.agree_advance i).then fun j hj => .pure .none hj
  · rw [if_neg hend, if_neg hend]
    refine h.memberShape.bind fun s t j hj hs => ?_
    cases hs with
    | none => exact .pure .none hj
    | some hs => exact .pure (.some (.mk doc hs)) hj

theorem members :
    tw.Agree i (i + 1) (Parser.members n ty) (Parser.members n' ty')
      (List.Forall₂ (Member.Like S)) := by
  refine .expect rfl fun j hj => ?_
  have hj' := h.mono (show i ≤ j by omega)
  refine (Agree.itemsUntil (by simp) (fun k hk hlt => (hj'.mono hk).member.weaken (by omega))
    hj'.rounds hj'.rounds').bind fun ms ns k hk hms => ?_
  exact .expect rfl fun k' hk' => .pure hms (by omega)

/-! ## Primary types -/

theorem typeArgs :
    tw.Agree i i (Parser.typeArgs n ty) (Parser.typeArgs n' ty')
      (List.Forall₂ (Ty.Like S)) := by
  refine .choose rfl (fun j hj => ?_) (.pure .nil (Nat.le_refl _))
  have hj' := h.mono (show i ≤ j by omega)
  refine (Agree.commaList (by simp)
    (fun k hk => (h.ty .full false (by omega)).weaken (Nat.le_succ _)) hj'.rounds hj'.rounds').bind
    fun as bs k hk has => ?_
  exact .expect rfl fun k' hk' => .pure has (by omega)

theorem imported :
    tw.Agree i (i + 1) (Parser.imported n ty) (Parser.imported n' ty') (Ty.Like S) := by
  refine .expect rfl fun j hj => .expect rfl fun j₁ hj₁ => ?_
  refine .peek_like fun k k' _ hk hlt => ?_
  cases hk with
  | template hs => exact .fail (.found _ hs) (by simp) (by simp)
  | same k =>
    cases k with
    | string module =>
      refine .advance (hlt (by simp)) fun j₂ hj₂ => .expect rfl fun j₃ hj₃ => ?_
      refine (Agree.after? rfl fun k _ => (tw.agree_dottedName k).weaken (Nat.le_succ _)).bind
        fun q q' j₄ hj₄ hq => ?_
      refine ((h.mono (by omega)).typeArgs).bind fun as bs j₅ hj₅ has => ?_
      have hqq : q = q' := by cases hq <;> simp_all
      subst hqq
      exact .pure (.imported module q has) (by omega)
    | _ => exact .fail (.same _) (by simp) (by simp)

theorem arrowType (inSuper : Bool) :
    tw.Agree i (i + 1) (Parser.arrowType n ty inSuper) (Parser.arrowType n' ty' inSuper)
      fun a b => Signature.Like S a.1 b.1 ∧ Ty.Like S a.2 b.2 := by
  refine (h.signature inSuper).bind fun f g j hj hf => .expect rfl fun j₁ hj₁ => ?_
  refine (h.result inSuper (by omega)).bind fun t u j₂ hj₂ ht => ?_
  exact .pure ⟨hf, ht⟩ (by omega)

/-- A function type behind its first words. -/
theorem functionType (inSuper : Bool) :
    tw.Agree i (i + 1)
      (do
        let (sig, result) ← Parser.arrowType n ty inSuper
        pure (Ty.function sig result))
      (do
        let (sig, result) ← Parser.arrowType n' ty' inSuper
        pure (Ty.function sig result)) (Ty.Like S) :=
  (h.arrowType inSuper).bind fun _ _ _ hj hab => .pure (.function hab.1 hab.2) hj

/-- A constructor type behind its first words. -/
theorem constructorType (isAbstract inSuper : Bool) :
    tw.Agree i (i + 1)
      (do
        let (sig, result) ← Parser.arrowType n ty inSuper
        pure (Ty.constructor isAbstract sig result))
      (do
        let (sig, result) ← Parser.arrowType n' ty' inSuper
        pure (Ty.constructor isAbstract sig result)) (Ty.Like S) :=
  (h.arrowType inSuper).bind fun _ _ _ hj hab => .pure (.constructor isAbstract hab.1 hab.2) hj

theorem functionOrParens (inSuper : Bool) :
    tw.Agree i (i + 1) (Parser.functionOrParens n ty inSuper)
      (Parser.functionOrParens n' ty' inSuper) (Ty.Like S) := by
  refine .look tw.sees_atFunction (h.functionType inSuper) (.expect rfl fun j hj => ?_)
  refine (h.ty .full false (by omega)).bind fun t u j₁ hj₁ ht => ?_
  exact .expect rfl fun j₂ hj₂ => .pure (.parenthesized ht) (by omega)

theorem mapped :
    tw.Agree i (i + 1) (Parser.mapped ty) (Parser.mapped ty') (Ty.Like S) := by
  refine .expect rfl fun j hj => (tw.agree_mappedModifier j rfl).bind fun r _ j₁ hj₁ hr => ?_
  subst hr
  refine .expect rfl fun j₂ hj₂ => (tw.agree_propertyName j₂).bind fun a b j₃ hj₃ hab => ?_
  refine .expect rfl fun j₄ hj₄ => (h.ty .full false (by omega)).bind fun c d j₅ hj₅ hc => ?_
  refine ((h.mono (by omega)).after false rfl).bind fun x y j₆ hj₆ hx => .expect rfl fun j₇ hj₇ => ?_
  refine (tw.agree_mappedModifier j₇ rfl).bind fun o _ j₈ hj₈ ho => .expect rfl fun j₉ hj₉ => ?_
  subst ho
  refine (h.ty .full false (by omega)).bind fun v w k hk hv => .drop rfl fun k₁ hk₁ => ?_
  exact .expect rfl fun k₂ hk₂ => .pure (.mapped r o hab hc hx hv) (by omega)

theorem mappedOrObject :
    tw.Agree i (i + 1) (Parser.mappedOrObject n ty) (Parser.mappedOrObject n' ty') (Ty.Like S) :=
  .look tw.sees_atMapped h.mapped (h.members.map fun _ _ => .object)

theorem tuple :
    tw.Agree i (i + 1) (Parser.tuple n ty) (Parser.tuple n' ty') (Ty.Like S) := by
  refine .expect rfl fun j hj => ?_
  have hj' := h.mono (show i ≤ j by omega)
  refine (Agree.commaList (by simp)
    (fun k hk => (agree_tupleElement fun k' hk' => h.ty .full false (by omega)).weaken
      (Nat.le_succ _)) hj'.rounds hj'.rounds').bind
    fun es fs k hk hes => ?_
  exact .expect rfl fun k' hk' => .pure (.tuple hes) (by omega)

/-- An import in a type query is kept as text. -/
theorem typeQuery :
    tw.Agree i (i + 1) (Parser.typeQuery n ty) (Parser.typeQuery n' ty') (Ty.Like S) := by
  refine .of_le fun hi => (tw.agree_advance i).then fun j hj => ?_
  refine .peek (fun _ _ => by simp) fun k _ => ?_
  by_cases himport : k = .keyword .importKw
  · rw [if_pos himport, if_pos himport]
    refine (h.mono (by omega)).imported.bind fun t u j₁ hj₁ ht => ?_
    exact .pure (.typeOf (Ty.Like.print tw.joins 0 t ht)) (by omega)
  · rw [if_neg himport, if_neg himport]
    refine (tw.agree_dottedName j).bind fun a b j₁ hj₁ hab => ?_
    exact .pure (.typeOf (hab ▸ tw.joins.refl a)) (by omega)

theorem namedType :
    tw.Agree i (i + 1) (Parser.namedType n ty) (Parser.namedType n' ty') (Ty.Like S) := by
  refine (tw.agree_dottedName i).bind fun a b j hj hab => ?_
  subst hab
  refine ((h.mono (by omega)).typeArgs).bind fun as bs j₁ hj₁ has => ?_
  exact .pure (.named a has) (by omega)

theorem keywordType (inSuper : Bool) (k : Keyword) (hi : i < l.tokens.length) :
    tw.Agree i (i + 1) (Parser.keywordType n ty inSuper k) (Parser.keywordType n' ty' inSuper k)
      (Ty.Like S) := by
  have hoperand {f : Ty → Ty} (hf : ∀ t u, Ty.Like S t u → Ty.Like S (f t) (f u)) :
      tw.Agree i (i + 1) (Parser.advance >>= fun _ => f <$> ty .operand inSuper)
        (Parser.advance >>= fun _ => f <$> ty' .operand inSuper) (Ty.Like S) :=
    .advance hi fun j hj => ((h.ty .operand inSuper hj).map hf).weaken (by omega)
  have hword {t : Ty} (ht : Ty.Like S t t) :
      tw.Agree i (i + 1) (Parser.advance >>= fun _ => (pure t : Parser Ty))
        (Parser.advance >>= fun _ => (pure t : Parser Ty)) (Ty.Like S) :=
    .advance hi fun j hj => .pure ht hj
  rw [Parser.keywordType.eq_def, Parser.keywordType.eq_def]
  split
  · exact hword (.booleanLiteral true)
  · exact hword (.booleanLiteral false)
  · exact hword .this
  · exact h.typeQuery
  · exact hoperand fun _ _ => .keyOf
  · exact hoperand fun _ _ => .operator .readonly
  · refine .advance hi fun j hj => ((tw.agree_identifier j).map fun a b hab => ?_).weaken (by omega)
    rw [hab]
    exact .infer b
  · exact h.imported
  · refine .advance hi fun j hj => ?_
    exact ((h.mono (by omega)).constructorType false inSuper).weaken (by omega)
  · refine .peekAt 1 (fun _ _ => by simp) fun k _ => ?_
    by_cases hnew : k = .keyword .newKw
    · rw [if_pos hnew, if_pos hnew]
      refine .advance hi fun j hj => (tw.agree_advance j).then fun j₁ hj₁ => .of_le fun hle => ?_
      exact ((h.mono (by omega)).constructorType true inSuper).weaken (by omega)
    · rw [if_neg hnew, if_neg hnew]
      exact .fail (.same _) (by simp) (by simp)
  · split
    · exact hword (.primitive _)
    · exact .fail (.same _) (by simp) (by simp)

theorem symbolType (inSuper : Bool) (s : Symbol) :
    tw.Agree i (i + 1) (Parser.symbolType n ty inSuper s) (Parser.symbolType n' ty' inSuper s)
      (Ty.Like S) := by
  rw [Parser.symbolType.eq_def, Parser.symbolType.eq_def]
  split
  · exact tw.agree_negativeNumber i
  · exact h.functionOrParens inSuper
  · exact h.mappedOrObject
  · exact h.tuple
  · exact h.functionType inSuper
  · exact .fail (.same _) (by simp) (by simp)

theorem primary (inSuper : Bool) :
    tw.Agree i (i + 1) (Parser.primary n ty inSuper) (Parser.primary n' ty' inSuper)
      (Ty.Like S) := by
  refine .peek_like fun k k' _ hk hlt => ?_
  cases hk with
  | template hs => exact .advance (hlt (by simp)) fun j hj => .pure (.template (tw.template hs)) hj
  | same k =>
    cases k with
    | ident name =>
      refine .peekAt 1 (fun _ _ => by simp) fun k _ => ?_
      by_cases hunique : name = "unique" ∧ k = .keyword .symbolKw
      · rw [if_pos hunique, if_pos hunique]
        refine .advance (hlt (by simp)) fun j hj => ?_
        exact ((h.ty .operand inSuper hj).map fun _ _ => .operator .unique).weaken (by omega)
      · rw [if_neg hunique, if_neg hunique]
        exact h.namedType
    | string s => exact .advance (hlt (by simp)) fun j hj => .pure (.stringLiteral s) hj
    | number s => exact .advance (hlt (by simp)) fun j hj => .pure (.numberLiteral s) hj
    | template s =>
      exact .advance (hlt (by simp)) fun j hj => .pure (.template (tw.joins.refl s)) hj
    | keyword k => exact h.keywordType inSuper k (hlt (by simp))
    | symbol s => exact h.symbolType inSuper s
    | _ => exact .fail (.same _) (by simp) (by simp)

/-! ## Operators -/

/-- Brackets behind types that are alike. -/
theorem brackets (hi : i ≤ j) {t u : Ty} (ht : Ty.Like S t u) {b b' : Nat}
    (hb : l.tokens.length < b + j) (hb' : l.tokens.length < b' + j) :
    tw.Agree j j (Parser.brackets ty b t) (Parser.brackets ty' b' u) (Ty.Like S) := by
  induction b generalizing j b' t u with
  | zero => exact fun hj => absurd hb (by omega)
  | succ b ih =>
    cases b' with
    | zero => exact fun hj => absurd hb' (by omega)
    | succ b' =>
      refine .choose rfl (fun k hk => .choose rfl (fun k₁ hk₁ => ?_) ?_) (.pure ht (Nat.le_refl _))
      · exact (ih (by omega) (.array ht) (by omega) (by omega)).weaken (by omega)
      · refine (h.ty .full false (by omega)).bind fun v w k₁ hk₁ hv => .expect rfl fun k₂ hk₂ => ?_
        exact (ih (by omega) (.indexAccess ht hv) (by omega) (by omega)).weaken (by omega)

theorem postfixed (inSuper : Bool) :
    tw.Agree i (i + 1) (Parser.postfixed n ty inSuper) (Parser.postfixed n' ty' inSuper)
      (Ty.Like S) := by
  refine (h.primary inSuper).bind fun t u j hj ht => ?_
  have hj' := h.mono (show i ≤ j by omega)
  exact (h.brackets (by omega) ht hj'.rounds hj'.rounds').weaken hj

end

theorem combined_like {op op' : List Ty → Ty} {as bs : List Ty}
    (h : List.Forall₂ (Ty.Like S) as bs) (hop : Ty.Like S (op as) (op' bs)) :
    Ty.Like S (Parser.combined op as) (Parser.combined op' bs) := by
  cases h with
  | nil => exact hop
  | cons ht hts =>
    cases hts with
    | nil => exact ht
    | cons _ _ => exact hop

section

variable (h : tw.Readers i n n' ty ty') (inSuper : Bool)
include h

theorem intersected :
    tw.Agree i (i + 1) (Parser.intersected n ty inSuper) (Parser.intersected n' ty' inSuper)
      (Ty.Like S) := by
  refine .drop rfl fun j hj => ?_
  have hj' := h.mono hj
  refine (Agree.sepBy1 rfl (fun k hk => (hj'.mono hk).postfixed inSuper) hj'.rounds hj'.rounds').bind
    fun as bs k hk has => ?_
  exact .pure (combined_like has (.intersection has)) (by omega)

theorem united :
    tw.Agree i (i + 1) (Parser.united n ty inSuper) (Parser.united n' ty' inSuper)
      (Ty.Like S) := by
  refine .drop rfl fun j hj => ?_
  have hj' := h.mono hj
  refine (Agree.sepBy1 rfl (fun k hk => (hj'.mono hk).intersected inSuper) hj'.rounds
    hj'.rounds').bind fun as bs k hk has => ?_
  exact .pure (combined_like has (.union has)) (by omega)

omit inSuper in
theorem conditional {t u : Ty} (ht : Ty.Like S t u) :
    tw.Agree i (i + 1) (Parser.conditional n ty t) (Parser.conditional n' ty' u) (Ty.Like S) := by
  refine (h.united true).bind fun e f j hj he => .expect rfl fun j₁ hj₁ => ?_
  refine (h.ty .full false (by omega)).bind fun y z j₂ hj₂ hy => .expect rfl fun j₃ hj₃ => ?_
  refine (h.ty .full false (by omega)).bind fun x o j₄ hj₄ hx => ?_
  exact .pure (.conditional ht he hy hx) (by omega)

theorem full :
    tw.Agree i (i + 1) (Parser.full n ty inSuper) (Parser.full n' ty' inSuper) (Ty.Like S) := by
  refine (h.united inSuper).bind fun t u j hj ht => ?_
  cases inSuper with
  | true => exact .pure ht hj
  | false =>
    refine .choose rfl (fun k hk => ?_) (.pure ht hj)
    exact ((h.mono (by omega)).conditional ht).weaken (by omega)

end

end Twin.Readers

/-- Types are read in the same way under every two bounds above the number of tokens left. -/
theorem Twin.agree_readTy (tw : Twin S l m) {i b b' : Nat} (hb : l.tokens.length < b + i)
    (hb' : l.tokens.length < b' + i) (form : TyForm) (inSuper : Bool) :
    tw.Agree i (i + 1) (Parser.readTy b form inSuper) (Parser.readTy b' form inSuper)
      (Ty.Like S) := by
  -- a type inside a type starts behind at least one more token
  induction b generalizing i b' form inSuper with
  | zero => exact fun hi => absurd hb (by omega)
  | succ b ih =>
    cases b' with
    | zero => exact fun hi => absurd hb' (by omega)
    | succ b' =>
      have h : tw.Readers i (b + 1) (b' + 1) (Parser.readTy b) (Parser.readTy b') :=
        ⟨hb, hb', fun form inSuper hj => ih (by omega) (by omega) form inSuper⟩
      cases form with
      | full => exact h.full inSuper
      | operand => exact h.postfixed inSuper

theorem Twin.readers_readTy (tw : Twin S l m) {i n n' b b' : Nat}
    (hn : l.tokens.length < n + i) (hn' : l.tokens.length < n' + i)
    (hb : l.tokens.length < b + i) (hb' : l.tokens.length < b' + i) :
    tw.Readers i n n' (Parser.readTy b) (Parser.readTy b') :=
  ⟨hn, hn', fun form inSuper hj => tw.agree_readTy (by omega) (by omega) form inSuper⟩

end Ambient
