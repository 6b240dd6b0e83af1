import Ambient.Proofs.Parser.EdgeTypes
import Ambient.Proofs.Parser.Moved

/-!
# Parameters with initializers

The initializer of a parameter is passed over by the scan for expressions. `Initialized` is the
relation between the tokens of a parameter list and the same tokens with initializers added to some
of the parameters. In front of a comma they change nothing, since the scan stops there. The
parenthesis that closes the list does not stop the scan: with an initializer right in front of it,
the scan goes on behind the list (`params_initialized`).
-/

namespace Ambient

variable {eof : Token}

/-! ## The scan over an expression -/

theorem expressionDepth_eq_none {depth : Nat} {k : Kind} (h : expressionDepth depth k = none) :
    depth = 0 ∧ EndsExpression k := by
  unfold expressionDepth at h
  split at h <;> simp_all [EndsExpression]

theorem passExpression_snd (depth : Nat) (passed passed' ts : List Token) :
    (passExpression depth passed ts).2 = (passExpression depth passed' ts).2 := by
  rw [passExpression_eq, passExpression_eq]
  rfl

theorem passExpression_length_le (depth : Nat) (passed ts : List Token) :
    (passExpression depth passed ts).2.length ≤ ts.length := by
  rw [passExpression_eq, passing, List.length_drop]
  exact Nat.sub_le _ _

theorem passExpression_comma {passed ts : List Token} {t : Token} (ht : t.kind = .comma) :
    passExpression 0 passed (t :: ts) = (passed, t :: ts) := by
  rw [passExpression_cons, ht]
  rfl

/-- Behind the tokens in front of which it can stop, the scan is outside of all brackets, whatever
follows there. -/
theorem passExpression_stopped {depth : Nat} {passed ts rest : List Token} {t : Token}
    (h : (passExpression depth passed (ts ++ t :: rest)).2 = t :: rest) :
    EndsExpression t.kind ∧ ∀ us, passExpression depth passed (ts ++ us) =
      passExpression 0 (ts.reverse ++ passed) us := by
  induction ts generalizing depth passed with
  | nil =>
    rw [List.nil_append, passExpression_cons] at h
    split at h
    · next hd =>
      obtain ⟨rfl, ht⟩ := expressionDepth_eq_none hd
      exact ⟨ht, fun us => rfl⟩
    · next d hd =>
      have hle := passExpression_length_le d (t :: passed) rest
      rw [h, List.length_cons] at hle
      omega
  | cons u ts ih =>
    rw [List.cons_append, passExpression_cons] at h
    split at h
    · have hlength := congrArg List.length h
      simp at hlength
      omega
    · next d hd =>
      obtain ⟨ht, hscan⟩ := ih h
      refine ⟨ht, fun us => ?_⟩
      rw [List.cons_append, passExpression_cons, hd]
      simp [hscan us]

theorem behindExpression_passExpression (depth : Nat) (passed ts : List Token) :
    BehindExpression (passExpression depth passed ts).2 := by
  induction ts generalizing depth passed with
  | nil => exact fun t ht => nomatch ht
  | cons u ts ih =>
    rw [passExpression_cons]
    split
    · next hd =>
      intro t ht
      obtain rfl := Option.some.inj ht
      exact (expressionDepth_eq_none hd).2
    · exact ih _ _

/-! ## Initializers -/

/-- An equals sign and an expression with its brackets in pairs. -/
inductive IsInitializer : List Token → Prop
  | mk {q : Token} {e : List Token} (hq : q.kind = .eq) (hne : e ≠ [])
      (he : Bracketed false (e.map Token.kind)) : IsInitializer (q :: e)

theorem arrowFollows_of_ne {t : Token} (hopen : t.kind ≠ .lparen) (hclose : t.kind ≠ .rparen)
    (depth : Nat) (ts : List Token) : arrowFollows depth (t :: ts) = arrowFollows depth ts := by
  simp only [arrowFollows]

/-- The look for an arrow goes over tokens with brackets in pairs. -/
theorem arrowFollows_bracketed {i : Bool} {ts : List Token} (h : Bracketed i (ts.map Token.kind))
    (depth : Nat) (us : List Token) :
    arrowFollows depth (ts ++ us) = arrowFollows depth us := by
  generalize hks : ts.map Token.kind = ks at h
  induction h generalizing depth ts us with
  | nil =>
    obtain rfl := List.map_eq_nil_iff.1 hks
    rfl
  | @cons i k ks hk _ _ ih =>
    obtain ⟨t, ts, rfl, rfl, rfl⟩ := List.map_eq_cons_iff.1 hks
    have hopen : t.kind ≠ .lparen := by
      intro ht
      rw [ht] at hk
      cases hk
    have hclose : t.kind ≠ .rparen := by
      intro ht
      rw [ht] at hk
      cases hk
    rw [List.cons_append, arrowFollows_of_ne hopen hclose, ih _ _ rfl]
  | @pair i k close ks ls hk _ _ ih ihs =>
    obtain ⟨t, r, rfl, rfl, hr⟩ := List.map_eq_cons_iff.1 hks
    obtain ⟨vs, r', rfl, rfl, hr'⟩ := List.map_eq_append_iff.1 hr
    obtain ⟨u, ws, rfl, rfl, rfl⟩ := List.map_eq_cons_iff.1 hr'
    have hsplit : t :: (vs ++ u :: ws) ++ us = t :: (vs ++ u :: (ws ++ us)) := by simp
    rw [hsplit]
    rcases Kind.closing?_eq_some hk with ⟨ht, hu⟩ | ⟨ht, hu⟩ | ⟨ht, hu⟩
    · have hfirst : arrowFollows depth (t :: (vs ++ u :: (ws ++ us))) =
          arrowFollows (depth + 1) (vs ++ u :: (ws ++ us)) := by
        simp only [arrowFollows, ht]
      have hlast : arrowFollows (depth + 1) (u :: (ws ++ us)) = arrowFollows depth (ws ++ us) := by
        simp only [arrowFollows, hu]
      rw [hfirst, ih _ _ rfl, hlast, ihs _ _ rfl]
    all_goals
      rw [arrowFollows_of_ne (by rw [ht]; decide) (by rw [ht]; decide), ih _ _ rfl,
        arrowFollows_of_ne (by rw [hu]; decide) (by rw [hu]; decide), ihs _ _ rfl]

theorem IsInitializer.arrowFollows_append {ts : List Token} (h : IsInitializer ts) (depth : Nat)
    (us : List Token) : arrowFollows depth (ts ++ us) = arrowFollows depth us := by
  obtain ⟨hq, -, he⟩ := h
  rw [List.cons_append, arrowFollows_of_ne (by rw [hq]; decide) (by rw [hq]; decide),
    arrowFollows_bracketed he]

theorem IsInitializer.passExpression_append {ts : List Token} (h : IsInitializer ts)
    (passed us : List Token) :
    passExpression 0 passed (ts ++ us) =
      passExpression 0 (ts.reverse ++ passed) us := by
  obtain ⟨hq, -, he⟩ := h
  rw [List.cons_append, passExpression_other (by rw [hq]; rfl) (by rw [hq]; decide),
    passExpression_bracketed he (by simp), List.reverse_cons, List.append_assoc]
  rfl

theorem after?_expression {q : Token} (hq : q.kind = .eq) (ts : List Token) :
    Parser.after? .eq Parser.expression ⟨q :: ts, eof⟩ =
      .ok (some (Parser.written (passExpression 0 [] ts).1),
        ⟨(passExpression 0 [] ts).2, eof⟩) := by
  rw [Parser.after?_of_kind hq, map_eq_pure_bind]
  rfl

/-- **An added initializer is passed**, also behind one that is there already, and the scan goes on
behind it. In front of a comma it stops there, and nothing has to be added. -/
theorem after?_added {ts rest added : List Token} {t : Token} {o : Option String}
    (ht : t.kind ≠ .eq)
    (h : Parser.after? .eq Parser.expression ⟨ts ++ t :: rest, eof⟩ = .ok (o, ⟨t :: rest, eof⟩))
    (hadded : IsInitializer added ∨ added = [] ∧ t.kind = .comma) (rest' : List Token) :
    ∃ o', Parser.after? .eq Parser.expression ⟨ts ++ (added ++ t :: rest'), eof⟩ =
      .ok (o', ⟨(passExpression 0 [] (t :: rest')).2, eof⟩) := by
  have hscan (passed : List Token) : (passExpression 0 passed (added ++ t :: rest')).2 =
      (passExpression 0 [] (t :: rest')).2 := by
    rcases hadded with hadded | ⟨rfl, -⟩
    · rw [hadded.passExpression_append]
      exact passExpression_snd _ _ _ _
    · exact passExpression_snd _ _ _ _
  cases ts with
  | nil =>
    rcases hadded with ⟨hq, -, he⟩ | ⟨rfl, hcomma⟩
    · next q e =>
      rw [List.nil_append, List.cons_append, after?_expression hq,
        passExpression_bracketed he (by simp), passExpression_snd 0 (e.reverse ++ []) []]
      exact ⟨_, rfl⟩
    · rw [passExpression_comma hcomma]
      exact ⟨none, Parser.after?_of_ne ht⟩
  | cons q ts =>
    by_cases hq : q.kind = .eq
    · rw [List.cons_append, after?_expression hq] at h
      obtain ⟨-, hstop⟩ := passExpression_stopped
        (congrArg Cursor.rest (Prod.mk.inj (Except.ok.inj h)).2)
      rw [List.cons_append, after?_expression hq, hstop, hscan]
      exact ⟨_, rfl⟩
    · -- without an equals sign nothing is passed
      rw [Parser.after?_of_ne (by exact hq)] at h
      have hlength := congrArg (fun c => c.rest.length) (Prod.mk.inj (Except.ok.inj h)).2
      simp at hlength
      omega

namespace Edge

variable {e : Edge} {c : Cursor} {k : Nat} {α β : Type}

/-! ## Up to the edge -/

/-- If the parser ends at the edge in front of the left text, it has passed at least `k` tokens, and
it ends at the cursor `c` in front of the right text, with the same value. -/
structure Lands (e : Edge) (c : Cursor) (k : Nat) (p : Parser α) : Prop where
  forward : Forward p
  passes {ts : List Token} {v : α} (h : p (e.leftAt ts) = .ok (v, e.leftAt [])) : k ≤ ts.length
  same {ts : List Token} {v : α} (h : p (e.leftAt ts) = .ok (v, e.leftAt [])) :
    p (e.rightAt ts) = .ok (v, c)

theorem Keeps.lands {j : Nat} {p : Parser α} {f : α → Parser β} (hp : e.Keeps 0 j p)
    (hf : ∀ v, e.Lands c k (f v)) : e.Lands c (j + k) (p >>= f) where
  forward := hp.forward.bind fun v => (hf v).forward
  passes h := by
    obtain ⟨v, us, hv, hw⟩ := exists_between hp.forward (fun v => (hf v).forward) h
    have hpassed := hp.passes hv
    have hpassed' := (hf v).passes hw
    omega
  same h := by
    obtain ⟨v, us, hv, hw⟩ := exists_between hp.forward (fun v => (hf v).forward) h
    rw [Parser.bind_apply, hp.same hv (Nat.zero_le _)]
    exact (hf v).same hw

theorem Lands.peek {g : Kind → Parser β} (hk : 0 < k) (hg : ∀ κ, e.Lands c k (g κ)) :
    e.Lands c k (Parser.peek >>= g) where
  forward := .peek fun κ => (hg κ).forward
  passes h := (hg _).passes h
  same {ts v} h := by
    have hpassed := (hg _).passes h
    have hkind : (e.leftAt ts).kindAt 0 = (e.rightAt ts).kindAt 0 := kindAt_of_lt (by omega)
    show g ((e.rightAt ts).kindAt 0) (e.rightAt ts) = _
    rw [← hkind]
    exact (hg _).same h

variable {ty : TyReader} {s : Bool}

/-- A parameter ends where its initializer does. -/
theorem lands_plainParam (h : ∀ form s, e.Keeps 0 1 (ty form s))
    (hinit : ∀ x : Param, e.Lands c 0 (Parser.after? .eq Parser.expression >>= fun _ => pure x)) :
    e.Lands c 1 (Parser.plainParam ty s) := by
  refine Keeps.lands (k := 1) keeps_skipParamModifiers fun _ => ?_
  refine Keeps.lands (k := 1) (keeps_accept (by decide)) fun rest => ?_
  refine .peek Nat.one_pos fun κ => ?_
  have hbehind (name : String) : e.Lands c 0 (do
      let optional ← Parser.accept .question
      let type ← Parser.after? .colon (ty .full s)
      let _ ← Parser.after? .eq Parser.expression
      pure ({ name, ty := type, optional, rest } : Param)) := by
    refine Keeps.lands (k := 0) (keeps_accept (by decide)) fun optional => ?_
    refine Keeps.lands (k := 0) (Keeps.after? (keeps_ty h 0 _ _) (by decide)) fun type => ?_
    exact hinit _
  split
  · exact Keeps.lands (k := 0) keeps_pattern hbehind
  · exact Keeps.lands (k := 0) keeps_propertyName hbehind

theorem isLeft_of_receiver {c c' : Cursor} {x : Ty ⊕ Param}
    (h : (Parser.advance >>= fun _ => Parser.advance >>= fun _ => Sum.inl <$> ty .full s) c =
      .ok (x, c')) : x.isLeft = true := by
  obtain ⟨-, c₁, -, h⟩ := Parser.bind_eq_ok h
  obtain ⟨-, c₂, -, h⟩ := Parser.bind_eq_ok h
  rw [map_eq_pure_bind] at h
  obtain ⟨type, c₃, -, h⟩ := Parser.bind_eq_ok h
  rw [← (Prod.mk.inj (Except.ok.inj h)).1]
  rfl

/-- A receiver has no initializer and ends in front of the edge in both texts. -/
theorem param_lands (h : ∀ form s, e.Keeps 0 1 (ty form s))
    (hinit : ∀ x : Param, e.Lands c 0 (Parser.after? .eq Parser.expression >>= fun _ => pure x))
    {ts : List Token} {x : Ty ⊕ Param} (hx : x.isLeft = true → c = e.rightAt [])
    (hp : Parser.param ty s (e.leftAt ts) = .ok (x, e.leftAt [])) :
    Parser.param ty s (e.rightAt ts) = .ok (x, c) := by
  have hpassed := (keeps_param h).passes hp
  have hthis : (e.rightAt ts).kindAt 0 = (e.leftAt ts).kindAt 0 := (kindAt_of_lt hpassed).symm
  have hcolon : ((e.rightAt ts).kindAt 1 = .colon) = ((e.leftAt ts).kindAt 1 = .colon) :=
    (kindAt_congr (g := fun κ => κ = .colon) (fun κ κ' hκ hκ' => by
      simp [hκ.ne (show ¬ Kind.colon.IsEdge by decide),
        hκ'.ne (show ¬ Kind.colon.IsEdge by decide)]) hpassed).symm
  rw [Parser.param, Parser.peek, Parser.peekAt_bind, Parser.peekAt_bind] at hp ⊢
  simp only [hthis, hcolon]
  split at hp
  · next hreceiver =>
    have hkeeps : e.Keeps 0 1 (Parser.advance >>= fun _ => Parser.advance >>= fun _ =>
        Sum.inl (β := Param) <$> ty .full s) :=
      Keeps.andThen keeps_advance fun _ => keeps_advance.bind fun _ => (keeps_ty h 0 _ _).map _
    rw [if_pos hreceiver, hx (isLeft_of_receiver hp)]
    exact hkeeps.same hp (Nat.zero_le _)
  · next hreceiver =>
    rw [map_eq_pure_bind] at hp
    obtain ⟨p, c', hplain, hp⟩ := Parser.bind_eq_ok hp
    obtain ⟨rfl, rfl⟩ := Prod.mk.inj (Except.ok.inj hp)
    rw [if_neg hreceiver, map_eq_pure_bind, Parser.bind_apply,
      (lands_plainParam h hinit).same hplain]
    rfl

/-- The edge behind a parameter, in front of which an initializer may be added. -/
def behindParam (heof : eof.kind = .eof) {t : Token} (ht : t.kind = .comma ∨ t.kind = .rparen)
    {added rest rest' : List Token} (hadded : IsInitializer added ∨ added = [])
    (harrow : ∀ depth, arrowFollows depth (t :: rest) = arrowFollows depth (t :: rest')) :
    Edge where
  eof := eof
  left := t :: rest
  right := added ++ t :: rest'
  heof := heof
  left_head := ⟨t, rest, rfl, ht.imp_right .inl⟩
  right_head := by
    rcases hadded with ⟨hq, -, -⟩ | rfl
    · exact ⟨_, _, rfl, .inr (.inr hq)⟩
    · exact ⟨t, rest', rfl, ht.imp_right .inl⟩
  arrow depth := by
    rcases hadded with hadded | rfl
    · rw [hadded.arrowFollows_append, harrow]
    · exact harrow depth

end Edge

/-- **An initializer can be added to a parameter.** The scan for expressions goes on behind it. -/
theorem param_added {m : Nat} {s : Bool} {front rest rest' added : List Token} {t : Token}
    {x : Ty ⊕ Param} (heof : eof.kind = .eof) (ht : t.kind = .comma ∨ t.kind = .rparen)
    (hadded : IsInitializer added ∧ x.isRight = true ∨ added = [] ∧ t.kind = .comma)
    (harrow : ∀ depth, arrowFollows depth (t :: rest) = arrowFollows depth (t :: rest'))
    (hp : Parser.param (Parser.readTy m) s ⟨front ++ t :: rest, eof⟩ = .ok (x, ⟨t :: rest, eof⟩)) :
    Parser.param (Parser.readTy m) s ⟨front ++ (added ++ t :: rest'), eof⟩ =
      .ok (x, ⟨(passExpression 0 [] (t :: rest')).2, eof⟩) := by
  let e := Edge.behindParam heof ht (hadded.imp And.left And.left) harrow
  have hinit (y : Param) : e.Lands ⟨(passExpression 0 [] (t :: rest')).2, eof⟩ 0
      (Parser.after? .eq Parser.expression >>= fun _ => pure y) := by
    constructor
    case forward => exact (forward_after? _ forward_expression).bind fun _ => .pure y
    case passes => exact fun _ => Nat.zero_le _
    case same =>
      intro ts v h
      obtain ⟨o, c', ho, h⟩ := Parser.bind_eq_ok h
      obtain ⟨rfl, rfl⟩ := Prod.mk.inj (Except.ok.inj h)
      have hne : t.kind ≠ .eq := by rcases ht with ht | ht <;> (rw [ht]; decide)
      obtain ⟨o', ho'⟩ := after?_added hne ho (hadded.imp_left And.left) rest'
      rw [Parser.bind_apply]
      exact ho' ▸ rfl
  refine Edge.param_lands (e := e) (Edge.keeps_readTy m) hinit (fun hleft => ?_) hp
  rcases hadded with ⟨-, hright⟩ | ⟨rfl, hcomma⟩
  · exact absurd (Sum.isRight_eq_false.2 hleft) (by simp [hright])
  · rw [passExpression_comma hcomma]
    rfl

/-! ## Lists of parameters -/

/-- The tokens `ts` and the tokens `ts'` with initializers added behind some of the parameters. They
are added in front of commas, and at most one in front of the closing parenthesis, where `last` tells
whether it is there. No initializer is added to the type of the receiver. -/
inductive Initialized (p : Parser (Ty ⊕ Param)) (eof : Token) :
    (last : Bool) → List Token → List Token → Prop
  | same (ts : List Token) : Initialized p eof false ts ts
  | next {last : Bool} {front rest rest' added : List Token} {t : Token} {x : Ty ⊕ Param}
      (ht : t.kind = .comma)
      (hp : p ⟨front ++ t :: rest, eof⟩ = .ok (x, ⟨t :: rest, eof⟩))
      (hadded : IsInitializer added ∧ x.isRight = true ∨ added = [])
      (h : Initialized p eof last rest rest') :
      Initialized p eof last (front ++ t :: rest) (front ++ (added ++ t :: rest'))
  | last {front rest added : List Token} {t : Token} {x : Param} (ht : t.kind = .rparen)
      (hp : p ⟨front ++ t :: rest, eof⟩ = .ok (.inr x, ⟨t :: rest, eof⟩))
      (hadded : IsInitializer added) :
      Initialized p eof true (front ++ t :: rest) (front ++ (added ++ t :: rest))

theorem Initialized.arrow {p : Parser (Ty ⊕ Param)} {last : Bool} {ts ts' : List Token}
    (heof : eof.kind = .eof) (h : Initialized p eof last ts ts') (depth : Nat) :
    arrowFollows depth ts = arrowFollows depth ts' := by
  induction h generalizing depth with
  | same ts => rfl
  | @next _ front _ _ _ _ _ ht _ hadded _ ih =>
    exact Edge.arrowFollows_edge (e := Edge.behindParam heof (.inl ht) (hadded.imp_left And.left)
      fun depth => by simp only [arrowFollows, ht, ih]) front depth
  | @last front _ _ _ _ ht _ hadded =>
    exact Edge.arrowFollows_edge (e := Edge.behindParam heof (.inr ht) (.inl hadded)
      fun _ => rfl) front depth

/-- Neither a closing parenthesis nor the end of the source starts a parameter. -/
theorem kind_of_param_eq_ok {ty : TyReader} {s : Bool} {c : Cursor} {r : (Ty ⊕ Param) × Cursor}
    (h : Parser.param ty s c = .ok r) : c.kindAt 0 ≠ .rparen ∧ c.kindAt 0 ≠ .eof := by
  suffices hnone : ¬ (c.kindAt 0 = .rparen ∨ c.kindAt 0 = .eof) from not_or.1 hnone
  intro hk
  have hne {κ : Kind} (hr : Kind.rparen ≠ κ) (he : Kind.eof ≠ κ) : c.kindAt 0 ≠ κ := by
    rcases hk with hk | hk <;> rwa [hk]
  have hskip : Parser.skip skipParamModifiers c = .ok ((), c) := by
    obtain ⟨_ | ⟨t, ts⟩, eof⟩ := c
    · rfl
    · have ht : t.kind = .rparen ∨ t.kind = .eof := hk
      have hts : skipParamModifiers (t :: ts) = t :: ts :=
        Edge.skipParamModifiers_cons (.inl (by rcases ht with ht | ht <;> rw [ht] <;> rfl))
      simp [Parser.skip, hts]
  have hname : ∃ e, Parser.propertyName c = .error e := by
    rw [Parser.propertyName, Parser.peek, Parser.peekAt_bind]
    rcases hk with hk | hk <;> exact hk ▸ ⟨_, rfl⟩
  -- what is passed in front of the name is nothing
  rw [Parser.param, Parser.peek, Parser.peekAt_bind, Parser.peekAt_bind,
    if_neg fun hthis => hne (by decide) (by decide) hthis.1, map_eq_pure_bind] at h
  obtain ⟨x, c₁, hplain, -⟩ := Parser.bind_eq_ok h
  obtain ⟨_, c₂, hc₂, hplain⟩ := Parser.bind_eq_ok hplain
  obtain ⟨-, rfl⟩ := Prod.mk.inj (Except.ok.inj (hskip.symm.trans hc₂))
  obtain ⟨rest, c₃, hc₃, hplain⟩ := Parser.bind_eq_ok hplain
  rw [Parser.accept, if_neg (by exact hne (by decide) (by decide))] at hc₃
  obtain ⟨-, rfl⟩ := Prod.mk.inj (Except.ok.inj hc₃)
  rw [Parser.peek, Parser.peekAt_bind, if_neg (not_or.2
    ⟨hne (by decide) (by decide), hne (by decide) (by decide)⟩)] at hplain
  obtain ⟨name, c₄, hc₄, -⟩ := Parser.bind_eq_ok hplain
  obtain ⟨e, he⟩ := hname
  exact absurd (he.symm.trans hc₄) (by simp)

/-- A list behind its first parameter. -/
theorem commaList_param {ty : TyReader} {s : Bool} {c c' : Cursor} {x : Ty ⊕ Param}
    (hp : Parser.param ty s c = .ok (x, c')) (n : Nat) :
    Parser.commaList .rparen (Parser.param ty s) (n + 1) c =
      if c'.kindAt 0 = .comma then
        (Parser.commaList .rparen (Parser.param ty s) n >>= fun xs => pure (x :: xs)) c'.advance
      else .ok ([x], c') := by
  rw [Parser.commaList, Parser.peek, Parser.peekAt_bind,
    if_neg (not_or.2 (kind_of_param_eq_ok hp)), Parser.bind_apply, hp]
  show (Parser.accept .comma >>= _) c' = _
  rw [Parser.bind_apply, Parser.accept]
  by_cases hcomma : c'.kindAt 0 = .comma
  · rw [if_pos hcomma, if_pos hcomma]
    rfl
  · rw [if_neg hcomma, if_neg hcomma]
    rfl

/-- Where the scan for expressions stops. -/
def Cursor.behindExpression (c : Cursor) : Cursor :=
  { c with rest := (passExpression 0 [] c.rest).2 }

/-- Where a list ends that has an initializer in front of the closing parenthesis, or has none. -/
def listEnd (last : Bool) (close : Token) (c : Cursor) : Cursor :=
  if last then c.behindExpression else ⟨close :: c.rest, c.eof⟩

/-- The parameters of a list with initializers added are those of the list. The list goes on behind
its end if a comma stands there. -/
theorem Initialized.commaList {n m : Nat} {s last : Bool} {ts ts' : List Token} {close : Token}
    {c : Cursor} {xs : List (Ty ⊕ Param)} (heof : c.eof.kind = .eof)
    (h : Initialized (Parser.param (Parser.readTy m) s) c.eof last ts ts')
    (hxs : Parser.commaList .rparen (Parser.param (Parser.readTy m) s) n ⟨ts, c.eof⟩ =
      .ok (xs, ⟨close :: c.rest, c.eof⟩)) :
    ((listEnd last close c).kindAt 0 ≠ .comma →
        Parser.commaList .rparen (Parser.param (Parser.readTy m) s) n ⟨ts', c.eof⟩ =
          .ok (xs, listEnd last close c)) ∧
      ∀ ys c', Parser.commaList .rparen (Parser.param (Parser.readTy m) s) n ⟨ts', c.eof⟩ =
        .ok (ys, c') → c'.eof = c.eof ∧ c'.rest.length ≤ (listEnd last close c).rest.length := by
  induction h generalizing n xs with
  | same ts =>
    refine ⟨fun _ => hxs, fun ys c' hys => ?_⟩
    obtain ⟨rfl, rfl⟩ := Prod.mk.inj (Except.ok.inj (hxs.symm.trans hys))
    exact ⟨rfl, Nat.le_refl _⟩
  | @next last front rest rest' added t x ht hp hadded h ih =>
    cases n with
    | zero => cases hxs
    | succ n =>
      have harrow (depth : Nat) : arrowFollows depth (t :: rest) =
          arrowFollows depth (t :: rest') := by
        simp only [arrowFollows, ht, h.arrow heof]
      have hp' := param_added heof (.inl ht) (hadded.imp_right fun hnil => ⟨hnil, ht⟩) harrow hp
      rw [passExpression_comma ht] at hp'
      have hcomma (us : List Token) : (⟨t :: us, c.eof⟩ : Cursor).kindAt 0 = .comma := ht
      rw [commaList_param hp, if_pos (hcomma rest)] at hxs
      obtain ⟨xs', c₁, hxs', hpure⟩ := Parser.bind_eq_ok hxs
      obtain ⟨rfl, rfl⟩ := Prod.mk.inj (Except.ok.inj hpure)
      obtain ⟨hsame, hruns⟩ := ih hxs'
      rw [commaList_param hp', if_pos (hcomma rest')]
      constructor
      · intro hend
        show (Parser.commaList .rparen _ n >>= _) ⟨rest', c.eof⟩ = _
        rw [Parser.bind_apply, hsame hend]
        rfl
      · intro ys c' hys
        obtain ⟨ys', c₂, hys', hpure⟩ := Parser.bind_eq_ok hys
        obtain ⟨rfl, rfl⟩ := Prod.mk.inj (Except.ok.inj hpure)
        exact hruns _ _ hys'
  | @last front rest added t x ht hp hadded =>
    cases n with
    | zero => cases hxs
    | succ n =>
      have hp' := param_added heof (.inr ht) (.inl ⟨hadded, rfl⟩) (fun _ => rfl) hp
      have hparen : t.kind ≠ .comma := by
        rw [ht]
        decide
      rw [commaList_param hp, if_neg (by exact hparen)] at hxs
      obtain ⟨rfl, hrest⟩ := Prod.mk.inj (Except.ok.inj hxs)
      obtain ⟨rfl, rfl⟩ := List.cons.inj (congrArg Cursor.rest hrest)
      -- the scan passes the parenthesis
      have hend : (⟨(passExpression 0 [] (t :: c.rest)).2, c.eof⟩ : Cursor) =
          c.behindExpression := by
        rw [passExpression_cons, ht, Cursor.behindExpression, passExpression_snd 0 [] [t]]
        rfl
      rw [hend] at hp'
      rw [commaList_param hp']
      refine ⟨fun hne => if_neg hne, fun ys c' hys => ?_⟩
      split at hys
      · have hforward : Forward (Parser.commaList .rparen (Parser.param (Parser.readTy m) s) n >>=
            fun xs => pure (Sum.inr x :: xs)) :=
          (forward_commaList _ (forward_param ((stops_readTy m).forward)) n).bind fun _ => .pure _
        obtain ⟨hc', vs, hvs, -⟩ := hforward c.behindExpression.advance heof _ _ hys
        have hlength := congrArg List.length hvs
        simp only [Cursor.advance, List.length_tail, List.length_append] at hlength
        exact ⟨hc', by rw [listEnd, if_pos rfl]; omega⟩
      · obtain ⟨-, rfl⟩ := Prod.mk.inj (Except.ok.inj hys)
        exact ⟨rfl, Nat.le_refl _⟩

/-- No parenthesis ends the scan for expressions. -/
theorem Cursor.behindExpression_ne {c : Cursor} (heof : c.eof.kind = .eof) :
    c.behindExpression.kindAt 0 ≠ .rparen := by
  have hbehind := behindExpression_passExpression 0 [] c.rest
  rw [behindExpression, kindAt]
  cases hrest : (passExpression 0 [] c.rest).2 with
  | nil =>
    show c.eof.kind ≠ .rparen
    rw [heof]
    decide
  | cons u us =>
    have hu : EndsExpression u.kind := hbehind u (by rw [hrest]; rfl)
    show u.kind ≠ .rparen
    rcases hu with hu | hu | hu <;> (rw [hu]; decide)

theorem expect_eq_ok {κ : Kind} {c c' : Cursor} (hκ : c.eof.kind ≠ κ)
    (h : Parser.expect κ c = .ok ((), c')) : ∃ t, t.kind = κ ∧ c = ⟨t :: c'.rest, c'.eof⟩ := by
  rw [Parser.expect] at h
  split at h
  · next hk =>
    obtain ⟨-, rfl⟩ := Prod.mk.inj (Except.ok.inj h)
    obtain ⟨_ | ⟨t, ts⟩, eof⟩ := c
    · exact absurd hk hκ
    · exact ⟨t, hk, rfl⟩
  · cases h

section

variable {n : Nat} {ty : TyReader} {s : Bool} {t : Token} {ts : List Token}

/-- Behind its opening parenthesis, a list of parameters is read up to the closing one. -/
theorem params_open (ht : t.kind = .lparen) :
    Parser.params n ty s ⟨t :: ts, eof⟩ =
      (Parser.commaList .rparen (Parser.param ty s) n >>= fun ps =>
        Parser.expect .rparen >>= fun _ => pure ((ps.filterMap Sum.getLeft?).getLast?,
          ps.filterMap Sum.getRight?)) ⟨ts, eof⟩ := by
  rw [Parser.params, Parser.bind_apply, Parser.expect_eq ht]

theorem params_eq_ok (hty : ∀ form s, Forward (ty form s)) {r : Option Ty × List Param} {c : Cursor}
    (heof : c.eof.kind = .eof) (h : Parser.params n ty s ⟨t :: ts, c.eof⟩ = .ok (r, c)) :
    t.kind = .lparen ∧ ∃ close ps, close.kind = .rparen ∧
      Parser.commaList .rparen (Parser.param ty s) n ⟨ts, c.eof⟩ =
        .ok (ps, ⟨close :: c.rest, c.eof⟩) ∧
      r = ((ps.filterMap Sum.getLeft?).getLast?, ps.filterMap Sum.getRight?) := by
  have ht : t.kind = .lparen := by
    by_contra hne
    rw [Parser.params, Parser.bind_apply, Parser.expect, if_neg (by exact hne)] at h
    cases h
  rw [params_open ht] at h
  obtain ⟨ps, c₁, hps, h⟩ := Parser.bind_eq_ok h
  obtain ⟨_, c₂, hclose, h⟩ := Parser.bind_eq_ok h
  obtain ⟨rfl, rfl⟩ := Prod.mk.inj (Except.ok.inj h)
  obtain ⟨heof₁, -⟩ := forward_commaList _ (forward_param hty) n ⟨ts, c₂.eof⟩ heof _ _ hps
  obtain ⟨close, hkind, rfl⟩ := expect_eq_ok (by rw [heof₁, heof]; decide) hclose
  exact ⟨ht, close, ps, hkind, hps, rfl⟩

end

/-- A list that has got initializers, the tokens of the list being left in their places. -/
theorem Initialized.params {n m : Nat} {s last : Bool} {t : Token} {ts ts' : List Token}
    {r : Option Ty × List Param} {c : Cursor} (heof : c.eof.kind = .eof)
    (hts : Initialized (Parser.param (Parser.readTy m) s) c.eof last ts ts')
    (h : Parser.params n (Parser.readTy m) s ⟨t :: ts, c.eof⟩ = .ok (r, c)) :
    (last = false → Parser.params n (Parser.readTy m) s ⟨t :: ts', c.eof⟩ = .ok (r, c)) ∧
    (last = true →
      (∀ r' c', Parser.params n (Parser.readTy m) s ⟨t :: ts', c.eof⟩ = .ok (r', c') →
        c'.rest.length < c.rest.length) ∧
      (c.behindExpression.kindAt 0 ≠ .comma →
        Parser.params n (Parser.readTy m) s ⟨t :: ts', c.eof⟩ =
          .error ⟨.expected .rparen (c.behindExpression.kindAt 0),
            c.behindExpression.current.start⟩)) := by
  obtain ⟨ht, close, ps, hkind, hps, rfl⟩ := params_eq_ok (stops_readTy m).forward heof h
  obtain ⟨hsame, hruns⟩ := hts.commaList heof hps
  rw [params_open ht, Parser.bind_apply]
  constructor
  · rintro rfl
    have hparen : (listEnd false close c).kindAt 0 ≠ .comma := by
      show close.kind ≠ .comma
      rw [hkind]
      decide
    rw [hsame hparen]
    show (Parser.expect .rparen >>= _) ⟨close :: c.rest, c.eof⟩ = _
    rw [Parser.bind_apply, Parser.expect_eq hkind]
    rfl
  · rintro rfl
    constructor
    · intro r' c' h'
      rw [← Parser.bind_apply] at h'
      obtain ⟨ps', c₁, hps', h'⟩ := Parser.bind_eq_ok h'
      obtain ⟨_, c₂, hclose, h'⟩ := Parser.bind_eq_ok h'
      obtain ⟨rfl, rfl⟩ := Prod.mk.inj (Except.ok.inj h')
      obtain ⟨heof', hle⟩ := hruns _ _ hps'
      obtain ⟨close', -, rfl⟩ := expect_eq_ok (by rw [heof', heof]; decide) hclose
      have hle' : (listEnd true close c).rest.length ≤ c.rest.length :=
        passExpression_length_le 0 [] c.rest
      exact Nat.lt_of_lt_of_le (Nat.lt_of_succ_le hle) hle'
    · intro hcomma
      rw [hsame hcomma]
      show (Parser.expect .rparen >>= _) c.behindExpression = _
      rw [Parser.bind_apply, Parser.expect, if_neg (Cursor.behindExpression_ne heof)]

/-- **Initializers of parameters are passed over in front of a comma, and not in front of the closing
parenthesis.** The tokens of `d` are those of a list of parameters that has got initializers, with
everything behind the list, and the bounds are above their number. If the initializers stand in front
of commas, the list is read as before and ends at the same parenthesis. An initializer in front of
the parenthesis is not ended by it: the parser does not stop there, and it fails unless a comma
stands where the scan for expressions stops. -/
theorem params_initialized {n m : Nat} {s last : Bool} {t : Token} {ts ts' : List Token}
    {r : Option Ty × List Param} {c d : Cursor} (heof : c.eof.kind = .eof)
    (h : Parser.params n (Parser.readTy m) s ⟨t :: ts, c.eof⟩ = .ok (r, c))
    (hts : Initialized (Parser.param (Parser.readTy m) s) c.eof last ts ts')
    (hd : Cursor.Moved ⟨t :: ts', c.eof⟩ d) (hne : ∀ u ∈ t :: ts', u.kind ≠ .eof)
    (hn : ts'.length + 1 < n) (hm : ts'.length + 1 < m) :
    (last = false →
      Parser.params n (Parser.readTy m) s d = .ok (r, d.before c.rest.length)) ∧
    (last = true →
      (∀ r' c', Parser.params n (Parser.readTy m) s d = .ok (r', c') →
        c'.rest.length < c.rest.length) ∧
      (c.behindExpression.kindAt 0 ≠ .comma → ∃ pos, Parser.params n (Parser.readTy m) s d =
        .error ⟨.expected .rparen (c.behindExpression.kindAt 0), pos⟩)) := by
  obtain ⟨hsame, hruns⟩ := hts.params heof h
  obtain ⟨hok, hback, herror⟩ := params_moved hd heof hne hn hm (s := s)
  refine ⟨fun hlast => hok _ _ (hsame hlast), fun hlast => ?_⟩
  obtain ⟨hbehind, hfails⟩ := hruns hlast
  constructor
  · intro r' d' hd'
    obtain ⟨c', hc', hlength⟩ := hback r' d' hd'
    rw [← hlength]
    exact hbehind r' c' hc'
  · intro hcomma
    exact herror _ (hfails hcomma)

/-- Two parameters in front of a semicolon, with one initializer and with two. -/
theorem params_initialized_pair :
    let run (source : String) := Parser.params 12 (Parser.readTy 12) false (lex source).cursor
    let pair : Option Ty × List Param :=
      (none, [⟨"a", none, false, false⟩, ⟨"b", none, false, false⟩])
    run "(a, b);" = .ok (pair, (lex "(a, b);").cursor.before 1) ∧
      run "(a = 1, b);" = .ok (pair, (lex "(a = 1, b);").cursor.before 1) ∧
      ∃ pos, run "(a = 1, b = 2);" = .error ⟨.expected .rparen .semicolon, pos⟩ := by
  intro run pair
  let p := Parser.param (Parser.readTy 12) false
  let token (k : Kind) (gap text : List Char) (start : Nat) : Token :=
    { kind := k, gap, text, start }
  let a := token (.ident "a") [] ['a'] 1
  let comma := token .comma [] [','] 2
  let b := token (.ident "b") [' '] ['b'] 4
  let close := token .rparen [] [')'] 5
  let c : Cursor := ⟨[token .semicolon [] [';'] 6], (lex "(a, b);").eof⟩
  let initializer (text : Char) : List Token :=
    [token .eq [' '] ['='] 0, token (.number (String.singleton text)) [' '] [text] 0]
  have hplain : run "(a, b);" = .ok (pair, c) := rfl
  have hinit (text : Char) : IsInitializer (initializer text) :=
    .mk rfl (List.cons_ne_nil _ _) (.cons rfl (fun _ => ⟨nofun, nofun⟩) .nil)
  have hnext {last : Bool} {ts : List Token}
      (h : Initialized p c.eof last (b :: close :: c.rest) ts) :
      Initialized p c.eof last (a :: comma :: b :: close :: c.rest)
        (a :: (initializer '1' ++ comma :: ts)) :=
    @Initialized.next p c.eof last [a] (b :: close :: c.rest) ts (initializer '1') comma
      (.inr ⟨"a", none, false, false⟩) rfl rfl (.inl ⟨hinit '1', rfl⟩) h
  have hlast : Initialized p c.eof true (b :: close :: c.rest)
      (b :: (initializer '2' ++ close :: c.rest)) :=
    @Initialized.last p c.eof [b] c.rest (initializer '2') close ⟨"b", none, false, false⟩ rfl rfl
      (hinit '2')
  have hone := params_initialized rfl hplain (hnext (.same _))
    (d := (lex "(a = 1, b);").cursor) ⟨by repeat' constructor, rfl⟩ (by decide) (by decide)
    (by decide)
  have htwo := params_initialized rfl hplain (hnext hlast)
    (d := (lex "(a = 1, b = 2);").cursor) ⟨by repeat' constructor, rfl⟩ (by decide) (by decide)
    (by decide)
  exact ⟨hplain, hone.1 rfl, (htwo.2 rfl).2 (by decide)⟩

end Ambient
