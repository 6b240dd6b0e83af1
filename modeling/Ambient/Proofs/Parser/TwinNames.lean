import Ambient.Parser.Decl
import Ambient.Proofs.Parser.Twin

/-!
# Scans and names side by side

What a scan passes depends on the kinds of the tokens only. Each scan that counts brackets is a run
of its counter (`counted`): the counter goes from token to token until it stops.
-/

namespace Ambient

variable {S : String → String → Prop} {l m : Lexed}

theorem Kind.Like.cases {k k' : Kind} (h : k.Like S k') :
    k = k' ∨ ∃ s t, S s t ∧ k = .template s ∧ k' = .template t := by
  cases h with
  | same _ => exact .inl rfl
  | template h => exact .inr ⟨_, _, h, rfl, rfl⟩

/-! ## Counters -/

/-- How many tokens a counter goes over before it stops. -/
def counted {δ : Type} (step : δ → Kind → Option δ) : δ → List Token → Nat
  | _, [] => 0
  | d, t :: ts =>
    match step d t.kind with
    | none => 0
    | some d => counted step d ts + 1

/-- The brackets that are open behind a token of an expression. Nothing at the end of the
expression. -/
def expressionDepth (depth : Nat) : Kind → Option Nat
  | .symbol .lparen | .symbol .lbracket | .symbol .lbrace => some (depth + 1)
  | .symbol .rparen | .symbol .rbracket => some (depth - 1)
  | .symbol .rbrace => if depth = 0 then none else some (depth - 1)
  | .symbol .comma | .symbol .semicolon => if depth = 0 then none else some depth
  | _ => some depth

/-- The square brackets that are open behind a token of a computed name. Nothing at its last
bracket. -/
def computedDepth (depth : Nat) : Kind → Option Nat
  | .symbol .lbracket => some (depth + 1)
  | .symbol .rbracket => if depth ≤ 1 then none else some (depth - 1)
  | _ => some depth

/-- The brackets and braces that are open behind a token of a pattern. Nothing at its last one. -/
def patternDepth (depth : Nat) : Kind → Option Nat
  | .symbol .lbrace | .symbol .lbracket => some (depth + 1)
  | .symbol .rbrace | .symbol .rbracket => if depth ≤ 1 then none else some (depth - 1)
  | _ => some depth

/-- Goes on up to a semicolon. -/
def statementDepth (depth : Nat) (k : Kind) : Option Nat :=
  if k = .semicolon then none else some depth

/-- What a scan gives that has passed the first `k` tokens. -/
def passing (k : Nat) (passed ts : List Token) : List Token × List Token :=
  ((ts.take k).reverse ++ passed, ts.drop k)

theorem counted_le {δ : Type} (step : δ → Kind → Option δ) (d : δ) (ts : List Token) :
    counted step d ts ≤ ts.length := by
  induction ts generalizing d with
  | nil => exact Nat.le_refl _
  | cons t ts ih =>
    rw [counted]
    split
    · exact Nat.zero_le _
    · exact Nat.succ_le_succ (ih _)

/-- A counter that does not look at the text of a template literal counts the same in twins. -/
theorem counted_eq (step : Nat → Kind → Option Nat)
    (hstep : ∀ d s t, step d (.template s) = step d (.template t)) {ts us : List Token}
    (h : List.Forall₂ (Token.Like S) ts us) (d : Nat) : counted step d ts = counted step d us := by
  induction h generalizing d with
  | nil => rfl
  | @cons t u ts us ht _ ih =>
    have hk : step d t.kind = step d u.kind := by
      rcases ht.kind.cases with hk | ⟨s, s', -, hk, hk'⟩
      · rw [hk]
      · rw [hk, hk']
        exact hstep d s s'
    rw [counted, counted, hk]
    split
    · rfl
    · rw [ih]

theorem passing_succ (k : Nat) (passed : List Token) (t : Token) (ts : List Token) :
    passing (k + 1) passed (t :: ts) = passing k (t :: passed) ts := by
  simp [passing]

/-- One round of the scan. -/
theorem passExpression_cons (depth : Nat) (passed : List Token) (t : Token) (ts : List Token) :
    passExpression depth passed (t :: ts) =
      match expressionDepth depth t.kind with
      | none => (passed, t :: ts)
      | some d => passExpression d (t :: passed) ts := by
  rw [passExpression]
  generalize t.kind = k
  rcases k with _ | _ | _ | _ | _ | s | _ <;> try rfl
  cases s <;> first | rfl | (simp only [expressionDepth]; split <;> rfl)

theorem passExpression_eq (depth : Nat) (passed ts : List Token) :
    passExpression depth passed ts = passing (counted expressionDepth depth ts) passed ts := by
  induction ts generalizing depth passed with
  | nil => rfl
  | cons t ts ih =>
    rw [passExpression_cons, counted]
    cases expressionDepth depth t.kind with
    | none => rfl
    | some d =>
      simp only [ih, passing_succ]

/-- One round of the scan. -/
theorem passComputedName?_cons (depth : Nat) (passed : List Token) (t : Token) (ts : List Token) :
    passComputedName? depth passed (t :: ts) =
      match computedDepth depth t.kind with
      | none => some (t :: passed, ts)
      | some d => passComputedName? d (t :: passed) ts := by
  rw [passComputedName?]
  generalize t.kind = k
  rcases k with _ | _ | _ | _ | _ | s | _ <;> try rfl
  cases s <;> first | rfl | (simp only [computedDepth]; split <;> rfl)

theorem passComputedName?_eq (depth : Nat) (passed ts : List Token) :
    passComputedName? depth passed ts =
      if counted computedDepth depth ts < ts.length then
        some (passing (counted computedDepth depth ts + 1) passed ts)
      else none := by
  induction ts generalizing depth passed with
  | nil => rfl
  | cons t ts ih =>
    rw [passComputedName?_cons, counted]
    cases computedDepth depth t.kind with
    | none => simp [passing]
    | some d => simp only [ih, passing_succ, List.length_cons, Nat.add_lt_add_iff_right]

/-- One round of the scan. -/
theorem passPattern?_cons (depth : Nat) (passed : List Token) (t : Token) (ts : List Token) :
    passPattern? depth passed (t :: ts) =
      match patternDepth depth t.kind with
      | none => some (t :: passed, ts)
      | some d => passPattern? d (t :: passed) ts := by
  rw [passPattern?]
  generalize t.kind = k
  rcases k with _ | _ | _ | _ | _ | s | _ <;> try rfl
  cases s <;> first | rfl | (simp only [patternDepth]; split <;> rfl)

theorem passPattern?_eq (depth : Nat) (passed ts : List Token) :
    passPattern? depth passed ts =
      if counted patternDepth depth ts < ts.length then
        some (passing (counted patternDepth depth ts + 1) passed ts)
      else none := by
  induction ts generalizing depth passed with
  | nil => rfl
  | cons t ts ih =>
    rw [passPattern?_cons, counted]
    cases patternDepth depth t.kind with
    | none => simp [passing]
    | some d => simp only [ih, passing_succ, List.length_cons, Nat.add_lt_add_iff_right]

theorem skipStatement_eq (ts : List Token) :
    skipStatement ts = ts.drop (counted statementDepth 0 ts + 1) := by
  induction ts with
  | nil => rfl
  | cons t ts ih =>
    rw [skipStatement, counted, statementDepth]
    by_cases h : t.kind = .semicolon
    · simp [h]
    · simp [h, ih]

/-! ## Scans with a result -/

/-- Two scans that give the same result and pass the same number of tokens. -/
def ScanAlike {α : Type} (f g : List Token → α × List Token) (ts us : List Token) : Prop :=
  ∃ v k, k ≤ ts.length ∧ f ts = (v, ts.drop k) ∧ g us = (v, us.drop k)

theorem itemModifiers_alike {ts us : List Token} (h : List.Forall₂ (Token.Like S) ts us) :
    ScanAlike itemModifiers itemModifiers ts us := by
  induction h with
  | nil => exact ⟨false, 0, Nat.le_refl _, rfl, rfl⟩
  | @cons t u ts us ht _ ih =>
    obtain ⟨v, k, hk, h₁, h₂⟩ := ih
    have hexport := ht.kind.eq_iff (x := .keyword .exportKw) (by simp)
    have hdeclare := ht.kind.eq_iff (x := .keyword .declareKw) (by simp)
    rw [ScanAlike]
    simp only [itemModifiers, hexport, hdeclare]
    by_cases he : u.kind = .keyword .exportKw
    · exact ⟨true, k + 1, Nat.succ_le_succ hk, by simp [he, h₁], by simp [he, h₂]⟩
    · by_cases hd : u.kind = .keyword .declareKw
      · exact ⟨v, k + 1, Nat.succ_le_succ hk, by simp [hd, h₁], by simp [hd, h₂]⟩
      · exact ⟨false, 0, Nat.zero_le _, by simp [he, hd], by simp [he, hd]⟩

theorem classMemberWords_alike {ts us : List Token} (h : List.Forall₂ (Token.Like S) ts us)
    (w : ClassMemberWords) : ScanAlike (classMemberWords w) (classMemberWords w) ts us := by
  induction h generalizing w with
  | nil => exact ⟨w, 0, Nat.le_refl _, rfl, rfl⟩
  | @cons t u ts us ht hts ih =>
    have hfollows : ((ts.head?.map Token.kind).getD .eof).followsModifier =
        ((us.head?.map Token.kind).getD .eof).followsModifier := by
      cases hts with
      | nil => rfl
      | cons ht _ =>
        rcases ht.kind.cases with hk | ⟨s, s', -, hk, hk'⟩
        · simp [hk]
        · simp [hk, hk', Kind.followsModifier]
    have hadd : w.add? t.kind = w.add? u.kind := by
      rcases ht.kind.cases with hk | ⟨s, s', -, hk, hk'⟩
      · rw [hk]
      · rw [hk, hk']
        rfl
    rw [ScanAlike]
    simp only [classMemberWords, hfollows, hadd]
    split
    · cases w.add? u.kind with
      | none => exact ⟨w, 0, Nat.zero_le _, rfl, rfl⟩
      | some w' =>
        obtain ⟨v, k, hk, h₁, h₂⟩ := ih w'
        exact ⟨v, k + 1, Nat.succ_le_succ hk, h₁, h₂⟩
    · exact ⟨w, 0, Nat.zero_le _, rfl, rfl⟩

theorem isWord_eq {k k' : Kind} (h : k.Like S k') : k.isWord = k'.isWord := by
  rcases h.cases with rfl | ⟨s, s', -, rfl, rfl⟩ <;> rfl

theorem wordText?_eq {k k' : Kind} (h : k.Like S k') : k.wordText? = k'.wordText? := by
  rcases h.cases with rfl | ⟨s, s', -, rfl, rfl⟩ <;> rfl

theorem typeParamModifiers_alike {ts us : List Token} (h : List.Forall₂ (Token.Like S) ts us) :
    ScanAlike typeParamModifiers typeParamModifiers ts us := by
  induction h with
  | nil => exact ⟨[], 0, Nat.le_refl _, rfl, rfl⟩
  | @cons t u ts us ht hts ih =>
    cases hts with
    | nil => exact ⟨[], 0, Nat.zero_le _, rfl, rfl⟩
    | @cons t' u' ts us ht' hts =>
      have hmod : TypeParamModifier.ofKind? t.kind = TypeParamModifier.ofKind? u.kind := by
        rcases ht.kind.cases with hk | ⟨s, s', -, hk, hk'⟩
        · rw [hk]
        · rw [hk, hk']
          rfl
      rw [ScanAlike]
      simp only [typeParamModifiers, hmod, isWord_eq ht'.kind]
      cases TypeParamModifier.ofKind? u.kind with
      | none => exact ⟨[], 0, Nat.zero_le _, rfl, rfl⟩
      | some x =>
        by_cases hw : u'.kind.isWord = true
        · obtain ⟨v, k, hk, h₁, h₂⟩ := ih
          exact ⟨x :: v, k + 1, Nat.succ_le_succ hk, by simp [hw, h₁], by simp [hw, h₂]⟩
        · exact ⟨[], 0, Nat.zero_le _, by simp [hw], by simp [hw]⟩

theorem skipParamModifiers_alike {ts us : List Token} (h : List.Forall₂ (Token.Like S) ts us) :
    ∃ k, k ≤ ts.length ∧ skipParamModifiers ts = ts.drop k ∧ skipParamModifiers us = us.drop k := by
  induction h with
  | nil => exact ⟨0, Nat.le_refl _, rfl, rfl⟩
  | @cons t u ts us ht hts ih =>
    cases hts with
    | nil => exact ⟨0, Nat.zero_le _, rfl, rfl⟩
    | @cons t' u' ts us ht' hts =>
      have hmod : t.kind.isParamModifier = u.kind.isParamModifier := by
        rcases ht.kind.cases with hk | ⟨s, s', -, hk, hk'⟩
        · rw [hk]
        · rw [hk, hk']
          rfl
      simp only [skipParamModifiers, hmod, isWord_eq ht'.kind]
      split
      · obtain ⟨k, hk, h₁, h₂⟩ := ih
        exact ⟨k + 1, Nat.succ_le_succ hk, h₁, h₂⟩
      · exact ⟨0, Nat.zero_le _, rfl, rfl⟩

theorem dottedRest_alike {ts us : List Token} (h : List.Forall₂ (Token.Like S) ts us) :
    ScanAlike Parser.dottedRest Parser.dottedRest ts us := by
  induction hn : ts.length using Nat.strongRecOn generalizing ts us with
  | ind n ih =>
    subst hn
    cases h with
    | nil => exact ⟨"", 0, Nat.le_refl _, rfl, rfl⟩
    | @cons t u ts us ht hts =>
      cases hts with
      | nil => exact ⟨"", 0, Nat.zero_le _, rfl, rfl⟩
      | @cons t' u' ts us ht' hts =>
        have hdot := ht.kind.eq_iff (x := .symbol .dot) (by simp)
        rw [ScanAlike]
        simp only [Parser.dottedRest, hdot, wordText?_eq ht'.kind]
        by_cases hd : u.kind = .symbol .dot
        · cases hw : u'.kind.wordText? with
          | none => exact ⟨"", 0, Nat.zero_le _, by simp [hd], by simp [hd]⟩
          | some s =>
            obtain ⟨v, k, hk, h₁, h₂⟩ := ih ts.length (by simp only [List.length_cons]; omega) hts rfl
            exact ⟨"." ++ s ++ v, k + 2, by simpa using hk, by simp [hd, h₁], by simp [hd, h₂]⟩
        · exact ⟨"", 0, Nat.zero_le _, by simp [hd], by simp [hd]⟩

/-! ## Parsers that scan -/

section Agree

variable {tw : Twin S l m} {i n : Nat} {α γ δ : Type} {Q : γ → δ → Prop}

theorem drop_drop_le {k : Nat} (hi : i ≤ l.tokens.length) (hk : k ≤ (l.tokens.drop i).length) :
    i + k ≤ l.tokens.length := by
  rw [List.length_drop] at hk
  omega

/-- What a scan has passed is the source between two positions. -/
theorem Lexed.written_take (l : Lexed) (i k : Nat) :
    Parser.written (((l.tokens.drop i).take k).reverse ++ []) = l.written i (i + k) := by
  rw [Lexed.written, Lexed.between, Nat.add_sub_cancel_left, List.append_nil]

/-- The text that a reader passes from the position `i` on is related in two sources. -/
def KeptAlike (S : String → String → Prop) (l m : Lexed) (i : Nat) (p : Parser String) : Prop :=
  ∀ j s, i ≤ j → j ≤ l.tokens.length → p (l.cursorAt i) = .ok (s, l.cursorAt j) →
    S (l.written i j) (m.written i j)

/-- A scan with a result, and what is done with it. -/
theorem Twin.Agree.scan {f : List Token → α × List Token} {F : α → Parser γ} {G : α → Parser δ}
    (hf : ScanAlike f f (l.tokens.drop i) (m.tokens.drop i))
    (h : ∀ v j, i ≤ j → tw.Agree j n (F v) (G v) Q) :
    tw.Agree i n
      (show Parser γ from (fun c : Cursor => .ok ((f c.rest).1, { c with rest := (f c.rest).2 })) >>= F)
      (show Parser δ from
        (fun c : Cursor => .ok ((f c.rest).1, { c with rest := (f c.rest).2 })) >>= G) Q := by
  intro hi
  obtain ⟨v, k, hk, h₁, h₂⟩ := hf
  have hcur := h v (i + k) (Nat.le_add_right i k) (drop_drop_le hi hk)
  show Ends S l m n Q (F (f (l.tokens.drop i)).1 ⟨(f (l.tokens.drop i)).2, l.eof⟩)
    (G (f (m.tokens.drop i)).1 ⟨(f (m.tokens.drop i)).2, m.eof⟩)
  rw [h₁, h₂, List.drop_drop, List.drop_drop]
  exact hcur

variable (tw)

theorem Twin.agree_expression (i : Nat) (h : KeptAlike S l m i Parser.expression) :
    tw.Agree i i Parser.expression Parser.expression S := by
  intro hi
  have hcount := counted_eq expressionDepth (fun _ _ _ => rfl) (tw.drop i) 0
  have hk := drop_drop_le hi (counted_le expressionDepth 0 (l.tokens.drop i))
  have hrun (x : Lexed) : Parser.expression (x.cursorAt i) =
      .ok (x.written i (i + counted expressionDepth 0 (x.tokens.drop i)),
        x.cursorAt (i + counted expressionDepth 0 (x.tokens.drop i))) := by
    simp only [Parser.expression, Lexed.cursorAt, passExpression_eq, passing, x.written_take,
      List.drop_drop]
  rw [hrun, hrun, ← hcount]
  exact .ok (Nat.le_add_right _ _) hk (h _ _ (Nat.le_add_right _ _) hk (hrun l))

/-- An initializer behind its sign, if there is one. -/
theorem Twin.agree_initializer (i : Nat) :
    tw.Agree i i (Parser.after? .eq Parser.expression) (Parser.after? .eq Parser.expression)
      (Option.Rel S) := by
  refine .acceptAt rfl (fun hequals => ?_) fun _ => .pure .none (Nat.le_refl _)
  have hkept : KeptAlike S l m (i + 1) Parser.expression :=
    fun j s hij hj hs => tw.written (.initializer hequals hs) hij hj
  exact ((tw.agree_expression (i + 1) hkept).map fun _ _ => Option.Rel.some).weaken (Nat.le_succ i)

/-- A scan that passes at least one token and may not end. -/
theorem Twin.agree_scanned (i : Nat) {cause : Cause} (hc : cause ≠ .exhausted)
    (step : Nat → Kind → Option Nat)
    (hstep : ∀ d s t, step d (.template s) = step d (.template t))
    {scan : List Token → Option (List Token × List Token)}
    (hscan : ∀ ts, scan ts = if counted step 0 ts < ts.length then
      some (passing (counted step 0 ts + 1) [] ts) else none)
    (hkept : KeptAlike S l m i (Parser.scanned cause scan)) :
    tw.Agree i (i + 1) (Parser.scanned cause scan) (Parser.scanned cause scan) S := by
  intro hi
  have hcount := counted_eq step hstep (tw.drop i) 0
  have hlen := (tw.drop i).length_eq
  have hrun (x : Lexed) : Parser.scanned cause scan (x.cursorAt i) =
      if counted step 0 (x.tokens.drop i) < (x.tokens.drop i).length then
        .ok (x.written i (i + (counted step 0 (x.tokens.drop i) + 1)),
          x.cursorAt (i + (counted step 0 (x.tokens.drop i) + 1)))
      else .error ⟨cause, (x.cursorAt x.tokens.length).current.start⟩ := by
    have heof : x.eof.start = (x.cursorAt x.tokens.length).current.start := by
      rw [Lexed.cursorAt, List.drop_length]
      rfl
    rw [← heof]
    simp only [Parser.scanned, Lexed.cursorAt, hscan]
    by_cases h : counted step 0 (x.tokens.drop i) < (x.tokens.drop i).length
    · rw [if_pos h, if_pos h]
      simp only [passing, x.written_take, List.drop_drop]
    · rw [if_neg h, if_neg h]
  have hl := hrun l
  -- The scan counts as far in both sources, so it fails in both or ends at one position.
  rw [hrun m, ← hcount, ← hlen, ← tw.length_eq]
  by_cases h : counted step 0 (l.tokens.drop i) < (l.tokens.drop i).length
  · have hk := drop_drop_le hi (Nat.succ_le_of_lt h)
    rw [if_pos h] at hl ⊢
    rw [hl]
    exact .ok (by omega) hk (hkept _ _ (Nat.le_add_right _ _) hk hl)
  · rw [if_neg h] at hl ⊢
    rw [hl]
    exact .error (Nat.le_refl _) (.same _) hc hc

theorem Twin.agree_computedName (i : Nat) (h : KeptAlike S l m i Parser.computedName) :
    tw.Agree i (i + 1) Parser.computedName Parser.computedName S :=
  tw.agree_scanned i (by simp) computedDepth (fun _ _ _ => rfl) (passComputedName?_eq 0 []) h

theorem Twin.agree_pattern (i : Nat) (h : KeptAlike S l m i Parser.pattern) :
    tw.Agree i (i + 1) Parser.pattern Parser.pattern S :=
  tw.agree_scanned i (by simp) patternDepth (fun _ _ _ => rfl) (passPattern?_eq 0 []) h

/-- A statement that is passed over has at least one token, unless the source is at its end. -/
theorem Twin.agree_statement (i : Nat) :
    tw.Agree i (min (i + 1) l.tokens.length) Parser.statement Parser.statement
      fun _ _ => True := by
  intro hi
  have hcount := counted_eq statementDepth (fun _ _ _ => rfl) (tw.drop i) 0
  show Ends S l m _ _ (.ok ((), ⟨skipStatement (l.tokens.drop i), l.eof⟩))
    (.ok ((), ⟨skipStatement (m.tokens.drop i), m.eof⟩))
  rw [skipStatement_eq, skipStatement_eq, ← hcount, List.drop_drop, List.drop_drop]
  generalize hk : i + (counted statementDepth 0 (l.tokens.drop i) + 1) = k
  by_cases hl : k ≤ l.tokens.length
  · exact .ok (by omega) hl trivial
  · have hcur := l.cursorAt_of_length_le (Nat.le_of_not_le hl)
    have hcur' := m.cursorAt_of_length_le (tw.length_eq ▸ Nat.le_of_not_le hl)
    rw [← tw.length_eq] at hcur'
    show Ends S l m _ _ (.ok ((), l.cursorAt k)) (.ok ((), m.cursorAt k))
    rw [hcur, hcur']
    exact .ok (Nat.min_le_right _ _) (Nat.le_refl _) trivial

theorem Twin.agree_skipParamModifiers (i : Nat) :
    tw.Agree i i (Parser.skip skipParamModifiers) (Parser.skip skipParamModifiers)
      fun _ _ => True := by
  intro hi
  obtain ⟨k, hk, h₁, h₂⟩ := skipParamModifiers_alike (tw.drop i)
  show Ends S l m _ _ (.ok ((), ⟨skipParamModifiers (l.tokens.drop i), l.eof⟩))
    (.ok ((), ⟨skipParamModifiers (m.tokens.drop i), m.eof⟩))
  rw [h₁, h₂, List.drop_drop, List.drop_drop]
  exact .ok (Nat.le_add_right _ _) (drop_drop_le hi hk) trivial

/-! ## Names -/

theorem Twin.agree_identifier (i : Nat) :
    tw.Agree i (i + 1) Parser.identifier Parser.identifier (· = ·) := by
  refine .peek_like fun k k' _ hk hlt => ?_
  cases hk with
  | template h => exact .fail (.found _ h) (by simp) (by simp)
  | same k =>
    cases k with
    | ident name => exact .advance (hlt (by simp)) fun _ hj => .pure rfl hj
    | keyword k =>
      by_cases hb : k.bindsName = true
      · simp only [hb, if_true]
        exact .advance (hlt (by simp)) fun _ hj => .pure rfl hj
      · simp only [hb]
        exact .fail (.same _) (by simp) (by simp)
    | _ => exact .fail (.same _) (by simp) (by simp)

theorem Twin.agree_dottedName (i : Nat) :
    tw.Agree i (i + 1) Parser.dottedName Parser.dottedName (· = ·) := by
  refine (tw.agree_identifier i).bind fun a b j hj hab => ?_
  subst hab
  intro hi
  obtain ⟨v, k, hk, h₁, h₂⟩ := dottedRest_alike (tw.drop j)
  show Ends S l m _ _
    (.ok (a ++ (Parser.dottedRest (l.tokens.drop j)).1,
      ⟨(Parser.dottedRest (l.tokens.drop j)).2, l.eof⟩))
    (.ok (a ++ (Parser.dottedRest (m.tokens.drop j)).1,
      ⟨(Parser.dottedRest (m.tokens.drop j)).2, m.eof⟩))
  rw [h₁, h₂, List.drop_drop, List.drop_drop]
  exact .ok (by omega) (drop_drop_le hi hk) rfl

theorem Twin.agree_propertyName (i : Nat) :
    tw.Agree i (i + 1) Parser.propertyName Parser.propertyName S := by
  refine .peek_like fun k k' hnext hk hlt => ?_
  cases hk with
  | template h => exact .fail (.found _ h) (by simp) (by simp)
  | same k =>
    cases k with
    | ident name => exact .advance (hlt (by simp)) fun _ hj => .pure (tw.joins.refl _) hj
    | string s => exact .advance (hlt (by simp)) fun _ hj => .pure (tw.joins.refl _) hj
    | number s => exact .advance (hlt (by simp)) fun _ hj => .pure (tw.joins.refl _) hj
    | keyword k => exact .advance (hlt (by simp)) fun _ hj => .pure (tw.joins.refl _) hj
    | symbol y =>
      cases y with
      | lbracket =>
        exact tw.agree_computedName i fun j s hij hj hs => tw.written (.computedName hnext hs) hij hj
      | _ => exact .fail (.same _) (by simp) (by simp)
    | _ => exact .fail (.same _) (by simp) (by simp)

/-- Where no name stands, a token is passed all the same, unless the source is at its end. -/
theorem Twin.agree_memberName? (i : Nat) :
    tw.Agree i (min (i + 1) l.tokens.length) Parser.memberName? Parser.memberName?
      (Option.Rel S) := by
  intro hi
  have h := tw.agree_propertyName i hi
  have hbracket := (tw.kindAt i 0).eq_iff (x := .lbracket) (by simp)
  simp only [Parser.memberName?]
  generalize Parser.propertyName (l.cursorAt i) = x at h
  generalize Parser.propertyName (m.cursorAt i) = y at h
  cases h with
  | ok hn hj hab => exact .ok (by omega) hj (.some hab)
  | error _ _ _ _ =>
    by_cases hb : (l.cursorAt i).kindAt 0 = .lbracket
    · simp only [hb, hbracket.1 hb, if_true]
      have hend (x : Lexed) : ({ x.cursorAt i with rest := [] } : Cursor) =
          x.cursorAt x.tokens.length := by
        rw [Lexed.cursorAt, Lexed.cursorAt, List.drop_length]
      rw [hend l, hend m, ← tw.length_eq]
      exact .ok (Nat.min_le_right _ _) (Nat.le_refl _) .none
    · simp only [hb, mt hbracket.2 hb, if_false]
      exact (tw.agree_advance i).map (Q := Option.Rel S) (u := fun _ => (none : Option String))
        (v := fun _ => (none : Option String)) (fun _ _ _ => .none) hi

end Agree

end Ambient
