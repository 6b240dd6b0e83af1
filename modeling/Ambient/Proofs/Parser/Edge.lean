import Ambient.Proofs.Parser.Bracketed
import Ambient.Proofs.Parser.Stops
import Ambient.Proofs.Parser.TwinNames

/-!
# What stands behind the tokens that are passed

A parser looks a few tokens ahead, so what it reads could depend on tokens that it does not pass.
`Edge` is a pair of texts that may stand behind the same tokens, both starting with a token with
which no type goes on. `Keeps e m k p` says that `p` takes no notice of which of the two stands
there, as long as it leaves at least `m` tokens in front of the edge, and that it passes at least `k`
tokens. The number `m` is needed where a parser looks at a token and may leave it: what follows then
passes it (`Keeps.bind`).
-/

namespace Ambient

/-- Kinds with which no type goes on. -/
def Kind.IsEdge (k : Kind) : Prop :=
  k = .comma ∨ k = .rparen ∨ k = .eq

instance : DecidablePred Kind.IsEdge := fun _ => inferInstanceAs (Decidable (_ ∨ _))

theorem Kind.IsEdge.ne {k x : Kind} (h : k.IsEdge) (hx : ¬ x.IsEdge) : k ≠ x :=
  fun hk => hx (hk ▸ h)

theorem Kind.IsEdge.wordText? {k : Kind} (h : k.IsEdge) : k.wordText? = none := by
  rcases h with rfl | rfl | rfl <;> rfl

theorem Kind.IsEdge.isWord {k : Kind} (h : k.IsEdge) : k.isWord = false := by
  rw [Kind.isWord, h.wordText?]
  rfl

/-- Two texts that may stand behind the same tokens. Parentheses that are open in front of the edge
are closed in the same way in both. -/
structure Edge where
  eof : Token
  left : List Token
  right : List Token
  heof : eof.kind = .eof
  left_head : ∃ t ts, left = t :: ts ∧ t.kind.IsEdge
  right_head : ∃ t ts, right = t :: ts ∧ t.kind.IsEdge
  arrow : ∀ depth, arrowFollows depth left = arrowFollows depth right

namespace Edge

/-- The cursor in front of some tokens and the left text. -/
def leftAt (e : Edge) (ts : List Token) : Cursor :=
  ⟨ts ++ e.left, e.eof⟩

/-- The cursor in front of some tokens and the right text. -/
def rightAt (e : Edge) (ts : List Token) : Cursor :=
  ⟨ts ++ e.right, e.eof⟩

/-- In front of the left text, the parser passes at least `k` tokens; and if at least `m` are left, it
does the same in front of the right text. -/
structure Keeps (e : Edge) (m k : Nat) {α : Type} (p : Parser α) : Prop where
  forward : Forward p
  passes {ts ts' : List Token} {v : α} (h : p (e.leftAt ts) = .ok (v, e.leftAt ts')) :
    ts'.length + k ≤ ts.length
  same {ts ts' : List Token} {v : α} (h : p (e.leftAt ts) = .ok (v, e.leftAt ts'))
    (hm : m ≤ ts'.length) : p (e.rightAt ts) = .ok (v, e.rightAt ts')

variable {e : Edge} {α β : Type} {m k : Nat} {p : Parser α} {f : α → Parser β}

theorem leftAt_inj {ts ts' : List Token} (h : e.leftAt ts = e.leftAt ts') : ts = ts' :=
  List.append_cancel_right (congrArg Cursor.rest h)

theorem Keeps.mono {a j : Nat} (h : e.Keeps a j p) (ha : a ≤ m) (hj : k ≤ j) : e.Keeps m k p where
  forward := h.forward
  passes hp := Nat.le_trans (Nat.add_le_add_left hj _) (h.passes hp)
  same hp hm := h.same hp (Nat.le_trans ha hm)

theorem Keeps.pure (v : α) : e.Keeps m 0 (pure v) where
  forward := .pure v
  passes h := by
    obtain ⟨-, hc⟩ := Prod.mk.inj (Except.ok.inj h)
    rw [leftAt_inj hc]
    exact Nat.le_refl _
  same h _ := by
    obtain ⟨rfl, hc⟩ := Prod.mk.inj (Except.ok.inj h)
    rw [leftAt_inj hc]
    rfl

theorem Keeps.fail {cause : Cause} : e.Keeps m k (Parser.fail cause : Parser α) where
  forward := .fail cause
  passes h := nomatch h
  same h := nomatch h

/-- Between two parsers the cursor stands in front of the edge. -/
theorem exists_between (hp : Forward p) (hf : ∀ v, Forward (f v)) {ts ts' : List Token} {w : β}
    (h : (p >>= f) (e.leftAt ts) = .ok (w, e.leftAt ts')) :
    ∃ v us, p (e.leftAt ts) = .ok (v, e.leftAt us) ∧ f v (e.leftAt us) = .ok (w, e.leftAt ts') := by
  obtain ⟨v, ⟨rest, eof⟩, hv, hw⟩ := Parser.bind_eq_ok h
  obtain ⟨rfl, -⟩ := hp _ e.heof _ _ hv
  obtain ⟨-, us, rfl, -⟩ := hf v _ e.heof _ _ hw
  have hus : (⟨us ++ (e.leftAt ts').rest, (e.leftAt ts).eof⟩ : Cursor) = e.leftAt (us ++ ts') := by
    rw [leftAt, leftAt, leftAt, List.append_assoc]
  rw [hus] at hv hw
  exact ⟨v, us ++ ts', hv, hw⟩

/-- What a parser leaves is enough for it if the next one passes it. -/
theorem Keeps.bind_front {a j : Nat} (hp : e.Keeps a j p) (ha : a ≤ m + k)
    (hf : ∀ v, e.Keeps m k (f v)) : e.Keeps m (j + k) (p >>= f) where
  forward := hp.forward.bind fun v => (hf v).forward
  passes h := by
    obtain ⟨v, us, hv, hw⟩ := exists_between hp.forward (fun v => (hf v).forward) h
    have hpassed := hp.passes hv
    have hpassed' := (hf v).passes hw
    omega
  same h hm := by
    obtain ⟨v, us, hv, hw⟩ := exists_between hp.forward (fun v => (hf v).forward) h
    have hpassed := (hf v).passes hw
    rw [Parser.bind_apply, hp.same hv (by omega)]
    exact (hf v).same hw hm

theorem Keeps.bind {j : Nat} (hp : e.Keeps 0 j p) (hf : ∀ v, e.Keeps m k (f v)) :
    e.Keeps m (j + k) (p >>= f) :=
  hp.bind_front (Nat.zero_le _) hf

/-- The tokens that are passed first need not be counted. -/
theorem Keeps.andThen_front {a j : Nat} (hp : e.Keeps a j p) (ha : a ≤ m + k)
    (hf : ∀ v, e.Keeps m k (f v)) : e.Keeps m k (p >>= f) :=
  (hp.bind_front ha hf).mono (Nat.le_refl m) (Nat.le_add_left k j)

theorem Keeps.andThen {j : Nat} (hp : e.Keeps 0 j p) (hf : ∀ v, e.Keeps m k (f v)) :
    e.Keeps m k (p >>= f) :=
  hp.andThen_front (Nat.zero_le _) hf

theorem Keeps.map (u : α → β) (hp : e.Keeps m k p) : e.Keeps m k (u <$> p) := by
  rw [map_eq_pure_bind]
  exact (hp.bind_front (Nat.le_add_right m 0) fun v => .pure (u v)).mono (Nat.le_refl m)
    (Nat.le_refl k)

/-! ## Questions -/

theorem kindAt_of_lt {ts : List Token} {i : Nat} (hi : i < ts.length) :
    (e.leftAt ts).kindAt i = (e.rightAt ts).kindAt i := by
  rw [Cursor.kindAt, Cursor.kindAt, leftAt, rightAt, List.getD_eq_getElem?_getD,
    List.getD_eq_getElem?_getD, List.getElem?_append_left hi, List.getElem?_append_left hi]

/-- At the edge a token stands that tells it. -/
theorem kindAt_edge (ts : List Token) :
    ((e.leftAt ts).kindAt ts.length).IsEdge ∧ ((e.rightAt ts).kindAt ts.length).IsEdge := by
  obtain ⟨t, us, hleft, ht⟩ := e.left_head
  obtain ⟨t', us', hright, ht'⟩ := e.right_head
  rw [Cursor.kindAt, Cursor.kindAt, leftAt, rightAt, hleft, hright, List.getD_eq_getElem?_getD,
    List.getD_eq_getElem?_getD, List.getElem?_append_right (Nat.le_refl _),
    List.getElem?_append_right (Nat.le_refl _), Nat.sub_self]
  exact ⟨ht, ht'⟩

/-- What is asked about the next tokens by a parser that passes none. -/
theorem Keeps.look {q : Parser α} (hq : ∀ c, ∃ v, q c = .ok (v, c))
    (hsame : ∀ ts, m + k ≤ ts.length → ∃ v, q (e.leftAt ts) = .ok (v, e.leftAt ts) ∧
      q (e.rightAt ts) = .ok (v, e.rightAt ts))
    (hf : ∀ v, e.Keeps m k (f v)) : e.Keeps m k (q >>= f) where
  forward := by
    refine Forward.bind (fun c _ v c' h => ?_) fun v => (hf v).forward
    obtain ⟨w, hw⟩ := hq c
    obtain ⟨-, rfl⟩ := Prod.mk.inj (Except.ok.inj (hw.symm.trans h))
    exact ⟨rfl, [], rfl, fun _ => trivial⟩
  passes {ts ts' w} h := by
    obtain ⟨v, hv⟩ := hq (e.leftAt ts)
    rw [Parser.bind_apply, hv] at h
    exact (hf v).passes h
  same {ts ts' w} h hm := by
    obtain ⟨v, hv⟩ := hq (e.leftAt ts)
    rw [Parser.bind_apply, hv] at h
    have hpassed := (hf v).passes h
    obtain ⟨v', hleft, hright⟩ := hsame ts (by omega)
    obtain ⟨rfl, -⟩ := Prod.mk.inj (Except.ok.inj (hv.symm.trans hleft))
    rw [Parser.bind_apply, hright]
    exact (hf v).same h hm

theorem Keeps.ask {q : Cursor → α}
    (hq : ∀ ts, m + k ≤ ts.length → q (e.leftAt ts) = q (e.rightAt ts))
    (hf : ∀ v, e.Keeps m k (f v)) : e.Keeps m k ((fun c => .ok (q c, c)) >>= f) :=
  .look (fun c => ⟨q c, rfl⟩) (fun ts hts => ⟨_, rfl, by rw [hq ts hts]⟩) hf

variable {κ : Kind} {g : Kind → Parser β}

theorem Keeps.peekAt (i : Nat) (hi : i < m + k) (hf : ∀ κ, e.Keeps m k (g κ)) :
    e.Keeps m k (Parser.peekAt i >>= g) :=
  .ask (q := fun c => c.kindAt i) (fun _ hts => kindAt_of_lt (Nat.lt_of_lt_of_le hi hts)) hf

theorem Keeps.peek (h : 0 < m + k) (hf : ∀ κ, e.Keeps m k (g κ)) :
    e.Keeps m k (Parser.peek >>= g) :=
  .peekAt 0 h hf

theorem Keeps.peekDoc {f : Option String → Parser β} (h : 0 < m + k)
    (hf : ∀ d, e.Keeps m k (f d)) : e.Keeps m k (Parser.peekDoc >>= f) := by
  refine .ask (q := fun c => c.current.doc) (fun ts hts => ?_) hf
  obtain ⟨t, ts, rfl⟩ := List.exists_cons_of_ne_nil
    (List.ne_nil_of_length_pos (Nat.lt_of_lt_of_le h hts))
  rfl

/-- What does not tell the tokens apart that can stand at the edge is the same of the token there. -/
theorem kindAt_congr {γ : Type} {g : Kind → γ}
    (hg : ∀ κ κ', κ.IsEdge → κ'.IsEdge → g κ = g κ') {ts : List Token} {i : Nat}
    (hi : i ≤ ts.length) : g ((e.leftAt ts).kindAt i) = g ((e.rightAt ts).kindAt i) := by
  rcases Nat.lt_or_eq_of_le hi with hlt | rfl
  · rw [kindAt_of_lt hlt]
  · exact hg _ _ (kindAt_edge ts).1 (kindAt_edge ts).2

theorem kindAt_beq {x : Kind} (hx : ¬ x.IsEdge) {ts : List Token} {i : Nat} (hi : i ≤ ts.length) :
    ((e.leftAt ts).kindAt i == x) = ((e.rightAt ts).kindAt i == x) := by
  refine kindAt_congr (g := (· == x)) (fun κ κ' hκ hκ' => ?_) hi
  rw [beq_eq_false_iff_ne.2 (hκ.ne hx), beq_eq_false_iff_ne.2 (hκ'.ne hx)]

/-- A look behind a token that is not at the edge. -/
theorem and_kindAt {g : Kind → Bool} (hg : ∀ κ, κ.IsEdge → g κ = false) {ts : List Token} {i : Nat}
    {b b' : Bool} (hi : i ≤ ts.length) (hb : i < ts.length → b = b') :
    (g ((e.leftAt ts).kindAt i) && b) = (g ((e.rightAt ts).kindAt i) && b') := by
  rcases Nat.lt_or_eq_of_le hi with hlt | rfl
  · rw [kindAt_of_lt hlt, hb hlt]
  · rw [hg _ (kindAt_edge ts).1, hg _ (kindAt_edge ts).2, Bool.false_and, Bool.false_and]

/-- A look at the next token, or at the one behind it if it is one that cannot stand at the edge. -/
theorem index_edge {P : Kind → Prop} [DecidablePred P] (hP : ∀ κ, κ.IsEdge → ¬ P κ)
    {ts : List Token} {i : Nat} (hi : i ≤ ts.length) : ∃ j ≤ ts.length,
      (if P ((e.leftAt ts).kindAt i) then i + 1 else i) = j ∧
        (if P ((e.rightAt ts).kindAt i) then i + 1 else i) = j := by
  rcases Nat.lt_or_eq_of_le hi with hlt | rfl
  · rw [← kindAt_of_lt hlt]
    refine ⟨_, ?_, rfl, rfl⟩
    split <;> omega
  · exact ⟨_, Nat.le_refl _, if_neg (hP _ (kindAt_edge ts).1), if_neg (hP _ (kindAt_edge ts).2)⟩

/-- A look at the token behind the last one that is passed, by a parser that does not tell the
tokens apart which can stand there. -/
theorem Keeps.peekAt_edge (i : Nat) (hi : i ≤ m + k)
    (hg : ∀ κ κ', κ.IsEdge → κ'.IsEdge → g κ = g κ') (hf : ∀ κ, e.Keeps m k (g κ)) :
    e.Keeps m k (Parser.peekAt i >>= g) where
  forward := .peekAt i fun κ => (hf κ).forward
  passes h := (hf _).passes h
  same {ts ts' w} h hm := by
    have hpassed := (hf _).passes h
    have hsame := (hf _).same h hm
    have hcongr : g ((e.leftAt ts).kindAt i) = g ((e.rightAt ts).kindAt i) :=
      kindAt_congr hg (by omega)
    show g ((e.rightAt ts).kindAt i) (e.rightAt ts) = _
    rwa [← hcongr]

/-! ## Tokens -/

theorem Keeps.of_cons (hp : Forward p)
    (hnil : ∀ v ts', p (e.leftAt []) ≠ .ok (v, e.leftAt ts'))
    (hcons : ∀ t ts v ts', p (e.leftAt (t :: ts)) = .ok (v, e.leftAt ts') →
      ts'.length + k ≤ ts.length + 1 ∧ p (e.rightAt (t :: ts)) = .ok (v, e.rightAt ts')) :
    e.Keeps m k p where
  forward := hp
  passes {ts ts' v} h := by
    cases ts with
    | nil => exact absurd h (hnil v ts')
    | cons t ts => exact (hcons t ts v ts' h).1
  same {ts ts' v} h _ := by
    cases ts with
    | nil => exact absurd h (hnil v ts')
    | cons t ts => exact (hcons t ts v ts' h).2

/-- The edge is not passed. -/
theorem advance_leftAt_nil (ts : List Token) : (e.leftAt []).advance ≠ e.leftAt ts := by
  intro h
  obtain ⟨t, us, hleft, -⟩ := e.left_head
  have hlength := congrArg (fun c => c.rest.length) h
  simp [Cursor.advance, leftAt, hleft] at hlength
  omega

theorem keeps_advance : e.Keeps 0 1 Parser.advance := by
  refine .of_cons forward_advance (fun v ts' h => ?_) fun t ts v ts' h => ?_
  · exact advance_leftAt_nil ts' (Prod.mk.inj (Except.ok.inj h)).2
  · have hts : ts = ts' := leftAt_inj (Prod.mk.inj (Except.ok.inj h)).2
    subst hts
    exact ⟨Nat.le_refl _, rfl⟩

theorem keeps_expect : e.Keeps 0 1 (Parser.expect κ) := by
  refine .of_cons (forward_expect κ) (fun v ts' h => ?_) fun t ts v ts' h => ?_
  · rw [Parser.expect] at h
    split at h
    · exact advance_leftAt_nil ts' (Prod.mk.inj (Except.ok.inj h)).2
    · cases h
  · have hkind : (e.rightAt (t :: ts)).kindAt 0 = (e.leftAt (t :: ts)).kindAt 0 := rfl
    rw [Parser.expect] at h ⊢
    split at h
    · next hκ =>
      rw [if_pos (hkind.trans hκ)]
      have hts : ts = ts' := leftAt_inj (Prod.mk.inj (Except.ok.inj h)).2
      subst hts
      exact ⟨Nat.le_refl _, rfl⟩
    · cases h

theorem Keeps.accept (hκ : κ.IsEdge → 0 < m) : e.Keeps m 0 (Parser.accept κ) where
  forward := forward_accept κ
  passes {ts ts' v} h := by
    obtain ⟨-, us, hus, -⟩ := forward_accept κ _ e.heof _ _ h
    have hlength := congrArg List.length hus
    simp only [leftAt, List.length_append] at hlength
    omega
  same {ts ts' v} h hm := by
    cases ts with
    | nil =>
      have hright := (kindAt_edge (e := e) []).2
      rw [Parser.accept] at h ⊢
      split at h
      · exact absurd (Prod.mk.inj (Except.ok.inj h)).2 (advance_leftAt_nil ts')
      · obtain ⟨rfl, hts⟩ := Prod.mk.inj (Except.ok.inj h)
        have hnil : [] = ts' := leftAt_inj hts
        subst hnil
        refine if_neg fun hk => ?_
        exact absurd (hκ (hk ▸ hright)) (Nat.not_lt.2 hm)
    | cons t ts =>
      have hkind : (e.rightAt (t :: ts)).kindAt 0 = (e.leftAt (t :: ts)).kindAt 0 := rfl
      rw [Parser.accept] at h ⊢
      rw [hkind]
      split at h
      · next hk =>
        obtain ⟨rfl, hts⟩ := Prod.mk.inj (Except.ok.inj h)
        have heq : ts = ts' := leftAt_inj hts
        subst heq
        exact if_pos hk
      · next hk =>
        obtain ⟨rfl, hts⟩ := Prod.mk.inj (Except.ok.inj h)
        have heq : t :: ts = ts' := leftAt_inj hts
        subst heq
        exact if_neg hk

/-- A token that may be there and cannot stand at the edge. -/
theorem keeps_accept (hκ : ¬ κ.IsEdge) : e.Keeps 0 0 (Parser.accept κ) :=
  .accept fun h => absurd h hκ

/-- A token that may be there, with something behind it in front of the edge. -/
theorem keeps_accept_front : e.Keeps 1 0 (Parser.accept κ) :=
  .accept fun _ => Nat.one_pos

theorem Keeps.after? (hp : e.Keeps m 0 p) (hκ : ¬ κ.IsEdge) :
    e.Keeps m 0 (Parser.after? κ p) := by
  refine Keeps.bind (k := 0) (keeps_accept hκ) fun b => ?_
  split
  · exact hp.map some
  · exact .pure none

theorem Keeps.after?_front (hp : e.Keeps 1 0 p) : e.Keeps 1 0 (Parser.after? κ p) := by
  refine Keeps.bind_front (k := 0) keeps_accept_front (Nat.le_refl 1) fun b => ?_
  split
  · exact hp.map some
  · exact .pure none

/-! ## Scans -/

/-- A scan over the tokens that gives what is left behind them. -/
theorem keeps_scan {F : List Token → α × List Token} (hF : ∀ ts, (F ts).2 <:+ ts)
    (h : ∀ ts ts', (F (ts ++ e.left)).2 = ts' ++ e.left → m ≤ ts'.length →
      F (ts ++ e.right) = ((F (ts ++ e.left)).1, ts' ++ e.right)) :
    e.Keeps m 0 (fun c => .ok ((F c.rest).1, { c with rest := (F c.rest).2 })) where
  forward c := by
    obtain ⟨us, hus⟩ := hF c.rest
    exact .scan ⟨us, hus.symm, fun _ => trivial⟩
  passes {ts ts' v} hp := by
    obtain ⟨-, hc⟩ := Prod.mk.inj (Except.ok.inj hp)
    have hle := (hF (ts ++ e.left)).length_le
    have hrest : (F (ts ++ e.left)).2 = ts' ++ e.left := congrArg Cursor.rest hc
    rw [hrest, List.length_append, List.length_append] at hle
    omega
  same {ts ts' v} hp hm := by
    obtain ⟨rfl, hc⟩ := Prod.mk.inj (Except.ok.inj hp)
    have hrest : (F (ts ++ e.left)).2 = ts' ++ e.left := congrArg Cursor.rest hc
    rw [rightAt]
    simp only [h ts ts' hrest hm]
    rfl

/-- A scan that stops in front of the edge at the latest. -/
theorem keeps_scan_of {F : List Token → α × List Token} (hF : ∀ ts, (F ts).2 <:+ ts)
    (h : ∀ ts, ∃ v us, F (ts ++ e.left) = (v, us ++ e.left) ∧
      F (ts ++ e.right) = (v, us ++ e.right)) :
    e.Keeps 0 0 (fun c => .ok ((F c.rest).1, { c with rest := (F c.rest).2 })) := by
  refine keeps_scan hF fun ts ts' hrest _ => ?_
  obtain ⟨v, us, hleft, hright⟩ := h ts
  rw [hleft] at hrest ⊢
  rw [hright, List.append_cancel_right hrest]

/-- A counter that stops in front of the edge stops at the same token in both texts. -/
theorem counted_append {δ : Type} {step : δ → Kind → Option δ} {d : δ} {ts us : List Token}
    (vs : List Token) (h : counted step d (ts ++ us) < ts.length) :
    counted step d (ts ++ vs) = counted step d (ts ++ us) := by
  induction ts generalizing d with
  | nil => cases h
  | cons t ts ih =>
    rw [List.cons_append, counted] at h ⊢
    rw [List.cons_append, counted]
    split
    · rfl
    · next d' hd =>
      rw [hd] at h
      rw [ih (Nat.lt_of_succ_lt_succ h)]

/-- What is passed in front of the edge. -/
theorem passing_append {n : Nat} {passed ts ts' us : List Token} (vs : List Token) (hus : us ≠ [])
    (h : (passing n passed (ts ++ us)).2 = ts' ++ us) :
    n + ts'.length = ts.length ∧
      passing n passed (ts ++ vs) = ((passing n passed (ts ++ us)).1, ts' ++ vs) := by
  have hlength := congrArg List.length h
  have hpos := List.length_pos_of_ne_nil hus
  simp only [passing, List.length_drop, List.length_append] at hlength
  have hn : n ≤ ts.length := by omega
  have hdrop : ts.drop n = ts' :=
    List.append_cancel_right ((List.drop_append_of_le_length hn).symm.trans h)
  refine ⟨by omega, ?_⟩
  rw [passing, passing, List.take_append_of_le_length hn, List.take_append_of_le_length hn,
    List.drop_append_of_le_length hn, hdrop]

theorem left_ne_nil (e : Edge) : e.left ≠ [] := by
  obtain ⟨t, ts, hleft, -⟩ := e.left_head
  simp [hleft]

/-- An expression that ends in front of the edge. -/
theorem keeps_expression : e.Keeps 1 0 Parser.expression := by
  have hforward (ts : List Token) : (passExpression 0 [] ts).2 <:+ ts :=
    ⟨_, by simpa using passExpression_append 0 [] ts⟩
  refine keeps_scan (F := fun ts =>
    (Parser.written (passExpression 0 [] ts).1, (passExpression 0 [] ts).2)) hforward
    fun ts ts' hrest hm => ?_
  simp only [passExpression_eq] at hrest ⊢
  obtain ⟨hlength, hpassing⟩ := passing_append e.right e.left_ne_nil hrest
  have hcounted : counted expressionDepth 0 (ts ++ e.right) =
      counted expressionDepth 0 (ts ++ e.left) := counted_append e.right (by omega)
  rw [hcounted, hpassing]

/-! ## Lists -/

theorem keeps_sepBy1 {sep : Kind} (hsep : ¬ sep.IsEdge) (hp : e.Keeps 0 k p) (n : Nat) :
    e.Keeps 0 k (Parser.sepBy1 sep p n) := by
  induction n with
  | zero => exact .fail
  | succ n ih =>
    refine Keeps.bind (k := 0) hp fun x => ?_
    refine Keeps.bind (k := 0) (keeps_accept hsep) fun b => ?_
    split
    · exact (ih.bind fun xs => .pure (x :: xs)).mono (Nat.le_refl 0) (Nat.zero_le k)
    · exact .pure [x]

theorem keeps_commaList {close : Kind} (hp : e.Keeps 1 k p) (n : Nat) :
    e.Keeps 1 0 (Parser.commaList close p n) := by
  induction n with
  | zero => exact .fail
  | succ n ih =>
    refine .peek Nat.one_pos fun κ => ?_
    split
    · exact .pure []
    · refine hp.andThen_front (Nat.le_refl 1) fun x => ?_
      refine Keeps.bind_front (k := 0) keeps_accept_front (Nat.le_refl 1) fun b => ?_
      split
      · exact ih.bind_front (Nat.le_refl 1) fun xs => .pure (x :: xs)
      · exact .pure [x]

theorem keeps_itemsUntil {item : Parser (Option α)} {close : Kind} (hp : e.Keeps 1 k item)
    (n : Nat) : e.Keeps 1 0 (Parser.itemsUntil close item n) := by
  induction n with
  | zero => exact .fail
  | succ n ih =>
    refine .peek Nat.one_pos fun κ => ?_
    split
    · exact .pure []
    · refine hp.andThen_front (Nat.le_refl 1) fun o => ?_
      exact ih.bind_front (Nat.le_refl 1) fun xs => .pure (o.toList ++ xs)

end Edge

end Ambient
