import Ambient.Proofs.Parser.AliasFront
import Ambient.Proofs.Parser.Edge

/-!
# Types do not see beyond their edge

The parsers for types keep to an edge (`Edge.Keeps`) if the reader for the types inside of them
does. A bracket that has to be closed keeps everything inside of it away from the edge. The only
look that goes far ahead is the one for the arrow of a function type, and behind the edge it finds
the same in both texts.
-/

namespace Ambient

namespace Edge

variable {e : Edge} {m : Nat}

/-! ## Names and texts -/

theorem keeps_identifier : e.Keeps 0 1 Parser.identifier := by
  refine .peek (by decide) fun k => ?_
  split
  · exact keeps_advance.bind fun _ => .pure _
  · split
    · exact keeps_advance.bind fun _ => .pure _
    · exact .fail
  · exact .fail

theorem keeps_scanned {cause : Cause} {scan : List Token → Option (List Token × List Token)}
    (hforward : ∀ ts r, scan ts = some r → r.1.reverse ++ r.2 = ts)
    (hscan : ∀ ts ts' passed, scan (ts ++ e.left) = some (passed, ts' ++ e.left) →
      ts'.length + 1 ≤ ts.length ∧ scan (ts ++ e.right) = some (passed, ts' ++ e.right)) :
    e.Keeps 0 1 (Parser.scanned cause scan) := by
  have h {ts ts' : List Token} {v : String}
      (hp : Parser.scanned cause scan (e.leftAt ts) = .ok (v, e.leftAt ts')) :
      ∃ passed, v = Parser.written passed ∧ scan (ts ++ e.left) = some (passed, ts' ++ e.left) := by
    rw [Parser.scanned] at hp
    split at hp
    · next passed rest hs =>
      obtain ⟨rfl, hc⟩ := Prod.mk.inj (Except.ok.inj hp)
      have hrest : rest = ts' ++ e.left := congrArg Cursor.rest hc
      exact ⟨passed, rfl, hrest ▸ hs⟩
    · cases hp
  constructor
  case forward => exact forward_scanned cause hforward
  case passes =>
    intro ts ts' v hp
    obtain ⟨passed, -, hs⟩ := h hp
    exact (hscan ts ts' passed hs).1
  case same =>
    intro ts ts' v hp _
    obtain ⟨passed, rfl, hs⟩ := h hp
    have hright : scan (e.rightAt ts).rest = some (passed, ts' ++ e.right) :=
      (hscan ts ts' passed hs).2
    rw [Parser.scanned, hright]
    rfl

/-- A scan that goes on up to a bracket and passes it. -/
theorem keeps_scanned_counted {cause : Cause} {step : Nat → Kind → Option Nat}
    {scan : List Token → Option (List Token × List Token)}
    (hforward : ∀ ts r, scan ts = some r → r.1.reverse ++ r.2 = ts)
    (hscan : ∀ ts, scan ts = if counted step 0 ts < ts.length then
      some (passing (counted step 0 ts + 1) [] ts) else none) :
    e.Keeps 0 1 (Parser.scanned cause scan) := by
  refine keeps_scanned hforward fun ts ts' passed h => ?_
  rw [hscan] at h ⊢
  split at h
  · have hpassing := Option.some.inj h
    obtain ⟨hlength, hright⟩ := passing_append e.right e.left_ne_nil (congrArg Prod.snd hpassing)
    have hcounted : counted step 0 (ts ++ e.right) = counted step 0 (ts ++ e.left) :=
      counted_append e.right (by omega)
    refine ⟨by omega, ?_⟩
    rw [hcounted, if_pos (by rw [List.length_append]; omega), hright, hpassing]
  · cases h

theorem keeps_computedName : e.Keeps 0 1 Parser.computedName :=
  keeps_scanned_counted (fun _ _ h => by simpa using passComputedName?_append h)
    (passComputedName?_eq 0 [])

theorem keeps_pattern : e.Keeps 0 1 Parser.pattern :=
  keeps_scanned_counted (fun _ _ h => by simpa using passPattern?_append h) (passPattern?_eq 0 [])

theorem keeps_propertyName : e.Keeps 0 1 Parser.propertyName := by
  refine .peek (by decide) fun k => ?_
  split
  · exact keeps_advance.bind fun _ => .pure _
  · exact keeps_advance.bind fun _ => .pure _
  · exact keeps_advance.bind fun _ => .pure _
  · exact keeps_computedName
  · exact keeps_advance.bind fun _ => .pure _
  · exact .fail

theorem dottedRest_of_ne {t : Token} (ts : List Token) (h : t.kind ≠ .symbol .dot) :
    Parser.dottedRest (t :: ts) = ("", t :: ts) := by
  cases ts with
  | nil => rfl
  | cons u us => rw [Parser.dottedRest, if_neg h]

theorem dottedRest_of_wordText? {t u : Token} (ts : List Token) (h : u.kind.wordText? = none) :
    Parser.dottedRest (t :: u :: ts) = ("", t :: u :: ts) := by
  rw [Parser.dottedRest, h]
  split <;> rfl

theorem dottedRest_edge (ts : List Token) : ∃ v us,
    Parser.dottedRest (ts ++ e.left) = (v, us ++ e.left) ∧
      Parser.dottedRest (ts ++ e.right) = (v, us ++ e.right) := by
  obtain ⟨t₁, us₁, hleft, ht₁⟩ := e.left_head
  obtain ⟨t₂, us₂, hright, ht₂⟩ := e.right_head
  fun_induction Parser.dottedRest ts with
  | case1 t u ts hdot w hw r ih =>
    obtain ⟨v, us, h₁, h₂⟩ := ih
    refine ⟨"." ++ w ++ v, us, ?_, ?_⟩
    · rw [List.cons_append, List.cons_append, Parser.dottedRest, if_pos hdot, hw]
      simp only [h₁]
    · rw [List.cons_append, List.cons_append, Parser.dottedRest, if_pos hdot, hw]
      simp only [h₂]
  | case2 t u ts hdot hw =>
    exact ⟨"", t :: u :: ts, dottedRest_of_wordText? _ hw, dottedRest_of_wordText? _ hw⟩
  | case3 t u ts hdot => exact ⟨"", t :: u :: ts, dottedRest_of_ne _ hdot, dottedRest_of_ne _ hdot⟩
  | case4 ts hts =>
    -- the text begins in the place of the dot, or in that of the word
    rcases ts with _ | ⟨t, _ | ⟨u, ts⟩⟩
    · rw [hleft, hright]
      exact ⟨"", [], dottedRest_of_ne _ (ht₁.ne (by decide)),
        dottedRest_of_ne _ (ht₂.ne (by decide))⟩
    · rw [hleft, hright]
      exact ⟨"", [t], dottedRest_of_wordText? _ ht₁.wordText?,
        dottedRest_of_wordText? _ ht₂.wordText?⟩
    · exact absurd rfl (hts t u ts)

theorem keeps_dottedName : e.Keeps 0 1 Parser.dottedName := by
  refine Keeps.bind (k := 0) keeps_identifier fun name => ?_
  refine keeps_scan_of (F := fun ts =>
    (name ++ (Parser.dottedRest ts).1, (Parser.dottedRest ts).2)) (fun ts => ?_) fun ts => ?_
  · obtain ⟨passed, hts, -⟩ := ending_dottedRest ts
    exact ⟨passed, hts.symm⟩
  · obtain ⟨v, us, hleft, hright⟩ := dottedRest_edge (e := e) ts
    exact ⟨name ++ v, us, by simp only [hleft], by simp only [hright]⟩

/-- Where no name stands, the next token tells so, unless it opens a computed name. -/
theorem propertyName_eq_error {c c' : Cursor} {x : ParseError} (hk : c'.kindAt 0 = c.kindAt 0)
    (hb : c.kindAt 0 ≠ .lbracket) (h : Parser.propertyName c = .error x) :
    ∃ y, Parser.propertyName c' = .error y := by
  rw [Parser.propertyName, Parser.peek, Parser.peekAt_bind] at h ⊢
  rw [hk]
  generalize c.kindAt 0 = k at hb h
  cases k with
  | symbol s =>
    cases s with
    | lbracket => exact absurd rfl hb
    | _ => exact ⟨_, rfl⟩
  | template | reference | eof => exact ⟨_, rfl⟩
  | ident | string | number | keyword => cases h

theorem propertyName_leftAt_nil : ∃ x, Parser.propertyName (e.leftAt []) = .error x := by
  have hedge := (kindAt_edge (e := e) []).1
  rw [Parser.propertyName, Parser.peek, Parser.peekAt_bind]
  rcases hedge with h | h | h <;> exact h ▸ ⟨_, rfl⟩

theorem keeps_memberName? : e.Keeps 0 1 Parser.memberName? := by
  refine .of_cons forward_memberName? (fun v ts' h => ?_) fun t ts v ts' h => ?_
  · obtain ⟨x, hx⟩ := propertyName_leftAt_nil (e := e)
    have hb : (e.leftAt []).kindAt 0 ≠ .lbracket := (kindAt_edge (e := e) []).1.ne (by decide)
    rw [Parser.memberName?, hx] at h
    dsimp only at h
    rw [if_neg hb] at h
    exact advance_leftAt_nil ts' (Prod.mk.inj (Except.ok.inj h)).2
  · have hkind : (e.rightAt (t :: ts)).kindAt 0 = (e.leftAt (t :: ts)).kindAt 0 := rfl
    rw [Parser.memberName?] at h ⊢
    split at h
    · next name later hname =>
      obtain ⟨rfl, rfl⟩ := Prod.mk.inj (Except.ok.inj h)
      rw [keeps_propertyName.same hname (Nat.zero_le _)]
      exact ⟨keeps_propertyName.passes hname, rfl⟩
    · next x hx =>
      split at h
      · next hb =>
        -- behind the edge nothing would be left
        have hrest : [] = ts' ++ e.left :=
          congrArg Cursor.rest (Prod.mk.inj (Except.ok.inj h)).2
        exact absurd (List.append_eq_nil_iff.1 hrest.symm).2 e.left_ne_nil
      · next hb =>
        obtain ⟨rfl, hc⟩ := Prod.mk.inj (Except.ok.inj h)
        have hts : ts = ts' := leftAt_inj hc
        subst hts
        obtain ⟨y, hy⟩ := propertyName_eq_error hkind hb hx
        rw [hy]
        dsimp only
        rw [hkind, if_neg hb]
        exact ⟨Nat.le_refl _, rfl⟩

/-! ## Modifiers -/

theorem typeParamModifiers_cons {t : Token} {ts : List Token}
    (h : TypeParamModifier.ofKind? t.kind = none ∨ ∀ u ∈ ts.head?, u.kind.wordText? = none) :
    typeParamModifiers (t :: ts) = ([], t :: ts) := by
  cases ts with
  | nil => rfl
  | cons u us =>
    rw [typeParamModifiers]
    rcases h with h | h
    · rw [h]
    · have hword : u.kind.isWord = false := by rw [Kind.isWord, h u rfl]; rfl
      split
      · rw [if_neg (by simp [hword])]
      · rfl

theorem skipParamModifiers_cons {t : Token} {ts : List Token}
    (h : t.kind.isParamModifier = false ∨ ∀ u ∈ ts.head?, u.kind.wordText? = none) :
    skipParamModifiers (t :: ts) = t :: ts := by
  cases ts with
  | nil => rfl
  | cons u us =>
    rw [skipParamModifiers, if_neg]
    rcases h with h | h
    · simp [h]
    · have hword : u.kind.isWord = false := by rw [Kind.isWord, h u rfl]; rfl
      simp [hword]

theorem typeParamModifiers_edge (ts : List Token) : ∃ v us,
    typeParamModifiers (ts ++ e.left) = (v, us ++ e.left) ∧
      typeParamModifiers (ts ++ e.right) = (v, us ++ e.right) := by
  obtain ⟨t₁, us₁, hleft, ht₁⟩ := e.left_head
  obtain ⟨t₂, us₂, hright, ht₂⟩ := e.right_head
  fun_induction typeParamModifiers ts with
  | case1 t u ts mod hmod hu r ih =>
    obtain ⟨v, us, h₁, h₂⟩ := ih
    refine ⟨mod :: v, us, ?_, ?_⟩
    · rw [List.cons_append] at h₁
      rw [List.cons_append, List.cons_append, typeParamModifiers, hmod]
      simp only [if_pos hu, h₁]
    · rw [List.cons_append] at h₂
      rw [List.cons_append, List.cons_append, typeParamModifiers, hmod]
      simp only [if_pos hu, h₂]
  | case2 t u ts mod hmod hu =>
    have hword (vs : List Token) : ∀ w ∈ (u :: vs).head?, w.kind.wordText? = none := by
      simpa [Kind.isWord] using hu
    exact ⟨[], t :: u :: ts, typeParamModifiers_cons (.inr (hword _)),
      typeParamModifiers_cons (.inr (hword _))⟩
  | case3 t u ts hmod =>
    exact ⟨[], t :: u :: ts, typeParamModifiers_cons (.inl hmod),
      typeParamModifiers_cons (.inl hmod)⟩
  | case4 ts hts =>
    rcases ts with _ | ⟨t, _ | ⟨u, ts⟩⟩
    · have hmod {k : Kind} (h : k.IsEdge) : TypeParamModifier.ofKind? k = none := by
        rcases h with rfl | rfl | rfl <;> rfl
      rw [hleft, hright]
      exact ⟨[], [], typeParamModifiers_cons (.inl (hmod ht₁)),
        typeParamModifiers_cons (.inl (hmod ht₂))⟩
    · rw [hleft, hright]
      exact ⟨[], [t], typeParamModifiers_cons (.inr (by simpa using ht₁.wordText?)),
        typeParamModifiers_cons (.inr (by simpa using ht₂.wordText?))⟩
    · exact absurd rfl (hts t u ts)

theorem skipParamModifiers_edge (ts : List Token) : ∃ us,
    skipParamModifiers (ts ++ e.left) = us ++ e.left ∧
      skipParamModifiers (ts ++ e.right) = us ++ e.right := by
  obtain ⟨t₁, us₁, hleft, ht₁⟩ := e.left_head
  obtain ⟨t₂, us₂, hright, ht₂⟩ := e.right_head
  fun_induction skipParamModifiers ts with
  | case1 t u ts h ih =>
    obtain ⟨us, h₁, h₂⟩ := ih
    refine ⟨us, ?_, ?_⟩
    · rw [List.cons_append, List.cons_append, skipParamModifiers, if_pos h]
      exact h₁
    · rw [List.cons_append, List.cons_append, skipParamModifiers, if_pos h]
      exact h₂
  | case2 t u ts h =>
    refine ⟨t :: u :: ts, ?_, ?_⟩
    · rw [List.cons_append, List.cons_append, skipParamModifiers, if_neg h]
    · rw [List.cons_append, List.cons_append, skipParamModifiers, if_neg h]
  | case3 ts hts =>
    rcases ts with _ | ⟨t, _ | ⟨u, ts⟩⟩
    · have hmod {k : Kind} (h : k.IsEdge) : k.isParamModifier = false := by
        rcases h with rfl | rfl | rfl <;> rfl
      rw [hleft, hright]
      exact ⟨[], skipParamModifiers_cons (.inl (hmod ht₁)),
        skipParamModifiers_cons (.inl (hmod ht₂))⟩
    · rw [hleft, hright]
      exact ⟨[t], skipParamModifiers_cons (.inr (by simpa using ht₁.wordText?)),
        skipParamModifiers_cons (.inr (by simpa using ht₂.wordText?))⟩
    · exact absurd rfl (hts t u ts)

theorem keeps_skipParamModifiers : e.Keeps 0 0 (Parser.skip skipParamModifiers) := by
  refine keeps_scan_of (F := fun ts => ((), skipParamModifiers ts)) skipParamModifiers_suffix
    fun ts => ?_
  obtain ⟨us, h₁, h₂⟩ := skipParamModifiers_edge (e := e) ts
  exact ⟨(), us, by simp only [h₁], by simp only [h₂]⟩

/-! ## Signatures -/

section

variable {n : Nat} {ty : TyReader} {s : Bool} (h : ∀ form s, e.Keeps 0 1 (ty form s))
include h

theorem keeps_ty (m : Nat) (form : TyForm) (s : Bool) : e.Keeps m 0 (ty form s) :=
  (h form s).mono (Nat.zero_le m) (Nat.zero_le 1)

theorem keeps_typeParam : e.Keeps 1 1 (Parser.typeParam ty s) := by
  refine Keeps.bind (k := 1) (keeps_scan_of (F := typeParamModifiers) typeParamModifiers_suffix
    typeParamModifiers_edge) fun modifiers => ?_
  refine Keeps.bind (k := 0) keeps_identifier fun name => ?_
  refine Keeps.bind (k := 0) (Keeps.after? (keeps_ty h 0 _ _) (by decide)) fun constraint => ?_
  exact (Keeps.after?_front (keeps_ty h 1 _ _)).bind_front (Nat.le_refl 1) fun default => .pure _

theorem keeps_typeParams : e.Keeps 0 0 (Parser.typeParams n ty s) := by
  refine Keeps.bind (k := 0) (keeps_accept (by decide)) fun b => ?_
  split
  · have hps : e.Keeps 0 1 (Parser.commaList .rangle (Parser.typeParam ty s) n >>= fun ps =>
        Parser.expect .rangle >>= fun _ => pure ps) :=
      Keeps.andThen_front (k := 1) (keeps_commaList (keeps_typeParam h) n) (Nat.le_refl 1) fun ps =>
        keeps_expect.bind fun _ => .pure ps
    exact hps.mono (Nat.le_refl 0) (Nat.zero_le 1)
  · exact .pure []

omit h in
/-- The name of a parameter in front of its type. -/
theorem keeps_paramName {f : String → Parser Param} {c : Nat}
    (hf : ∀ name, e.Keeps c 0 (f name)) (k : Kind) :
    e.Keeps c 1 (if k = .lbrace ∨ k = .lbracket then Parser.pattern >>= f
      else Parser.propertyName >>= f) := by
  split
  · exact Keeps.bind (k := 0) keeps_pattern hf
  · exact Keeps.bind (k := 0) keeps_propertyName hf

theorem keeps_plainParam : e.Keeps 1 1 (Parser.plainParam ty s) := by
  refine Keeps.bind (k := 1) keeps_skipParamModifiers fun _ => ?_
  refine Keeps.bind (k := 1) (keeps_accept (by decide)) fun rest => .peek (by decide) fun k => ?_
  refine keeps_paramName (fun name => ?_) k
  refine Keeps.bind (k := 0) (keeps_accept (by decide)) fun optional => ?_
  refine Keeps.bind (k := 0) (Keeps.after? (keeps_ty h 0 _ _) (by decide)) fun type => ?_
  exact (Keeps.after?_front keeps_expression).bind_front (Nat.le_refl 1) fun _ => .pure _

theorem keeps_param : e.Keeps 1 1 (Parser.param ty s) := by
  refine .peek (by decide) fun k₀ => .peekAt 1 (by decide) fun k₁ => ?_
  split
  · refine Keeps.andThen keeps_advance fun _ => ?_
    exact keeps_advance.bind fun _ => (keeps_ty h 1 _ _).map _
  · exact (keeps_plainParam h).map _

theorem keeps_params : e.Keeps 0 2 (Parser.params n ty s) := by
  refine Keeps.bind (k := 1) keeps_expect fun _ => ?_
  refine Keeps.bind_front (k := 1) (keeps_commaList (keeps_param h) n) (Nat.le_refl 1) fun ps => ?_
  exact keeps_expect.bind fun _ => .pure _

theorem keeps_signature : e.Keeps 0 2 (Parser.signature n ty s) := by
  refine Keeps.bind (k := 2) (keeps_typeParams h) fun typeParams => ?_
  exact (keeps_params h).bind fun _ => .pure _

omit h in
theorem keeps_predicateSubject : e.Keeps 0 0 Parser.predicateSubject := by
  refine Keeps.bind (k := 0) (keeps_accept (by decide)) fun b => ?_
  split
  · exact .pure _
  · exact keeps_identifier.mono (Nat.le_refl 0) (Nat.zero_le 1)

/-- No result tells about an argument or the receiver at the edge. -/
theorem keeps_result : e.Keeps 0 1 (Parser.result ty s) := by
  refine .peek (by decide) fun k₀ => .peekAt_edge 1 (by decide) (fun κ κ' hκ hκ' => ?_) fun k₁ => ?_
  · have hne {κ : Kind} (h : κ.IsEdge) :
        κ.isIdent = false ∧ κ ≠ .keyword .thisKw ∧ κ ≠ .keyword .isKw := by
      rcases h with rfl | rfl | rfl <;> simp [Kind.isIdent]
    simp [hne hκ, hne hκ']
  split
  · refine Keeps.bind (k := 0) keeps_advance fun _ => ?_
    refine Keeps.bind (k := 0) keeps_predicateSubject fun subject => ?_
    exact (Keeps.after? (keeps_ty h 0 _ _) (by decide)).bind fun type => .pure _
  split
  · refine Keeps.bind (k := 1) keeps_predicateSubject fun subject => ?_
    refine Keeps.bind (k := 0) keeps_expect fun _ => ?_
    exact (keeps_ty h 0 _ _).bind fun type => .pure _
  · exact h .full s

theorem keeps_result? : e.Keeps 0 0 (Parser.result? ty s) :=
  Keeps.after? ((keeps_result h).mono (Nat.le_refl 0) (Nat.zero_le 1)) (by decide)

theorem keeps_arrowType : e.Keeps 0 4 (Parser.arrowType n ty s) := by
  refine Keeps.bind (k := 2) (keeps_signature h) fun sig => ?_
  refine Keeps.bind (k := 1) keeps_expect fun _ => ?_
  exact (keeps_result h).bind fun result => .pure _

/-! ## Members -/

omit h in
theorem keeps_endMember : e.Keeps 1 0 Parser.endMember := by
  refine Keeps.bind_front (k := 0) keeps_accept_front (Nat.le_refl 1) fun b => ?_
  split
  · exact .pure _
  · exact keeps_accept_front.map _

/-- The rest of a member with parameters, up to its terminator. -/
theorem keeps_behindParams {γ : Type} {f : Option Ty → γ} :
    e.Keeps 1 0 (Parser.result? ty s >>= fun result => Parser.endMember >>= fun _ =>
      pure (f result)) := by
  refine Keeps.bind (k := 0) (keeps_result? h) fun result => ?_
  exact keeps_endMember.bind_front (Nat.le_refl 1) fun _ => .pure _

theorem keeps_indexSignature {readonly isStatic : Bool} :
    e.Keeps 1 1 (Parser.indexSignature ty readonly isStatic) := by
  refine Keeps.bind (k := 0) keeps_expect fun _ => ?_
  refine Keeps.andThen keeps_propertyName fun key => ?_
  refine Keeps.andThen keeps_expect fun _ => ?_
  refine Keeps.bind (k := 0) (keeps_ty h 0 _ _) fun keyType => ?_
  refine Keeps.andThen keeps_expect fun _ => ?_
  refine Keeps.andThen keeps_expect fun _ => ?_
  refine Keeps.bind (k := 0) (keeps_ty h 0 _ _) fun valueType => ?_
  exact keeps_endMember.bind_front (Nat.le_refl 1) fun _ => .pure _

theorem keeps_accessor {modifiers : MemberModifiers} :
    e.Keeps 1 1 (Parser.accessor n ty modifiers) := by
  refine .peek (by decide) fun k => Keeps.bind (k := 0) keeps_advance fun _ => ?_
  refine Keeps.andThen keeps_propertyName fun name => ?_
  refine Keeps.andThen (keeps_params h) fun ps => ?_
  exact keeps_behindParams h

theorem keeps_callSignature : e.Keeps 1 1 (Parser.callSignature n ty) := by
  refine Keeps.mono (Keeps.bind (k := 0) (keeps_signature h) fun sig => ?_) (Nat.le_refl 1)
    (by omega)
  exact keeps_behindParams h

theorem keeps_constructSignature : e.Keeps 1 1 (Parser.constructSignature n ty) := by
  refine Keeps.bind (k := 0) keeps_advance fun _ => ?_
  refine Keeps.bind (k := 0) (keeps_typeParams h) fun typeParams => ?_
  refine Keeps.andThen (keeps_params h) fun ps => ?_
  exact keeps_behindParams h

/-! ## Questions in front of members -/

omit h in
theorem keeps_readonlyModifier : e.Keeps 2 0 Parser.readonlyModifier := by
  refine .peek (by decide) fun k₀ => .peekAt 1 (by decide) fun k₁ => ?_
  split
  · exact keeps_advance.andThen fun _ => .pure _
  · exact .pure _

omit h in
/-- A bracket, a name and a token behind it do not go over the edge. -/
theorem startsKeyAt {x : Kind} (hx : ¬ x.IsEdge) {ts : List Token} {i : Nat} (hi : i ≤ ts.length) :
    ((e.leftAt ts).kindAt i == .lbracket && ((e.leftAt ts).kindAt (i + 1)).isWord &&
        (e.leftAt ts).kindAt (i + 2) == x) =
      ((e.rightAt ts).kindAt i == .lbracket && ((e.rightAt ts).kindAt (i + 1)).isWord &&
        (e.rightAt ts).kindAt (i + 2) == x) := by
  rw [Bool.and_assoc, Bool.and_assoc]
  refine and_kindAt (g := fun κ => κ == .lbracket)
    (fun κ hκ => beq_eq_false_iff_ne.2 (hκ.ne (by decide))) hi fun hbracket => ?_
  refine and_kindAt (fun κ hκ => hκ.isWord) hbracket fun hword => ?_
  exact kindAt_beq hx hword

omit h in
theorem keeps_atIndexSignature {α : Type} {f : Bool → Parser α} {c d : Nat}
    (hf : ∀ b, e.Keeps c d (f b)) : e.Keeps c d (Parser.atIndexSignature >>= f) :=
  .ask (q := fun c => c.kindAt 0 == .lbracket && (c.kindAt 1).isWord && c.kindAt 2 == .colon)
    (fun _ _ => startsKeyAt (by decide) (Nat.zero_le _)) hf

omit h in
theorem keeps_atSignature {α : Type} {f : Bool → Parser α} {c d : Nat}
    (hf : ∀ b, e.Keeps c d (f b)) : e.Keeps c d (Parser.atSignature >>= f) := by
  refine .ask (q := fun c => c.kindAt 0 == .lparen || c.kindAt 0 == .langle) (fun ts _ => ?_) hf
  rw [kindAt_beq (by decide) (Nat.zero_le _), kindAt_beq (by decide) (Nat.zero_le _)]

theorem keeps_namedMember {readonly : Bool} : e.Keeps 1 1 (Parser.namedMember n ty readonly) := by
  refine Keeps.bind (k := 0) keeps_memberName? fun name => ?_
  split
  · exact .pure _
  · refine Keeps.bind (k := 0) (keeps_accept (by decide)) fun optional => ?_
    refine keeps_atSignature fun b => ?_
    split
    · refine Keeps.andThen (keeps_signature h) fun sig => ?_
      exact keeps_behindParams h
    · refine Keeps.bind (k := 0) (Keeps.after? (keeps_ty h 0 _ _) (by decide)) fun type => ?_
      exact keeps_endMember.bind_front (Nat.le_refl 1) fun _ => .pure _

theorem keeps_memberShape : e.Keeps 1 1 (Parser.memberShape n ty) := by
  refine Keeps.bind_front (k := 1) keeps_readonlyModifier (Nat.le_refl 2) fun readonly => ?_
  refine keeps_atIndexSignature fun b => ?_
  split
  · exact (keeps_indexSignature h).bind_front (Nat.le_refl 1) fun sig => .pure _
  refine keeps_atSignature fun b => ?_
  split
  · exact (keeps_callSignature h).map _
  refine .peek (by decide) fun k₀ => .peekAt 1 (by decide) fun k₁ => ?_
  split
  · exact (keeps_constructSignature h).map _
  refine .ask (q := fun c => (c.kindAt 0 == .ident "get" || c.kindAt 0 == .ident "set") &&
    (c.kindAt 1).followsModifier) (fun ts hts => ?_) fun b => ?_
  · rw [kindAt_of_lt (show 0 < ts.length by omega), kindAt_of_lt (show 1 < ts.length by omega)]
  split
  · exact (keeps_accessor h).bind_front (Nat.le_refl 1) fun a => .pure _
  · exact keeps_namedMember h

theorem keeps_member : e.Keeps 1 1 (Parser.member n ty) := by
  refine .peekDoc (by decide) fun doc => .peek (by decide) fun k => ?_
  split
  · exact keeps_advance.bind fun _ => .pure _
  · exact (keeps_memberShape h).bind_front (Nat.le_refl 1) fun shape => .pure _

theorem keeps_members : e.Keeps 0 2 (Parser.members n ty) := by
  refine Keeps.bind (k := 1) keeps_expect fun _ => ?_
  refine Keeps.andThen_front (keeps_itemsUntil (keeps_member h) n) (Nat.le_refl 1) fun ms => ?_
  exact keeps_expect.bind fun _ => .pure ms

/-! ## Primary types -/

theorem keeps_typeArgs : e.Keeps 0 0 (Parser.typeArgs n ty) := by
  refine Keeps.bind (k := 0) (keeps_accept (by decide)) fun b => ?_
  split
  · have hargs : e.Keeps 0 1 (Parser.commaList .rangle (ty .full false) n >>= fun args =>
        Parser.expect .rangle >>= fun _ => pure args) :=
      Keeps.andThen_front (k := 1) (keeps_commaList (keeps_ty h 1 _ _) n) (Nat.le_refl 1)
        fun args => keeps_expect.bind fun _ => .pure args
    exact hargs.mono (Nat.le_refl 0) (Nat.zero_le 1)
  · exact .pure []

theorem keeps_imported : e.Keeps 0 1 (Parser.imported n ty) := by
  refine Keeps.andThen keeps_expect fun _ => Keeps.andThen keeps_expect fun _ => ?_
  refine .peek (by decide) fun k => ?_
  split
  · refine Keeps.bind (k := 0) keeps_advance fun _ => ?_
    have hdotted : e.Keeps 0 0 Parser.dottedName :=
      keeps_dottedName.mono (Nat.le_refl 0) (Nat.zero_le 1)
    refine Keeps.andThen keeps_expect fun _ => ?_
    refine Keeps.andThen (hdotted.after? (by decide)) fun qualifier => ?_
    exact (keeps_typeArgs h).bind fun args => .pure _
  · exact .fail

omit h in
/-- The look for the arrow of a function type finds the same in both texts. -/
theorem arrowFollows_edge (ts : List Token) (depth : Nat) :
    arrowFollows depth (ts ++ e.left) = arrowFollows depth (ts ++ e.right) := by
  induction ts generalizing depth with
  | nil => exact e.arrow depth
  | cons t ts ih =>
    simp only [List.cons_append, arrowFollows]
    split
    · exact ih _
    · cases depth with
      | succ depth => exact ih depth
      | zero =>
        cases ts with
        | cons u us => rfl
        | nil =>
          -- no arrow stands at the edge
          obtain ⟨t₁, us₁, hleft, ht₁⟩ := e.left_head
          obtain ⟨t₂, us₂, hright, ht₂⟩ := e.right_head
          have h₁ : t₁.kind ≠ .arrow := ht₁.ne (by decide)
          have h₂ : t₂.kind ≠ .arrow := ht₂.ne (by decide)
          simp [hleft, hright, h₁, h₂]
    · exact ih _

omit h in
theorem keeps_atFunction {α : Type} {f : Bool → Parser α} {c d : Nat}
    (hd : 3 ≤ c + d) (hf : ∀ b, e.Keeps c d (f b)) :
    e.Keeps c d (Parser.atFunction >>= f) := by
  refine .look (fun c => ⟨_, rfl⟩) (fun ts hts => ?_) hf
  obtain ⟨t, ts, rfl⟩ := List.exists_cons_of_ne_nil
    (List.ne_nil_of_length_pos (show 0 < ts.length by omega))
  have htail : arrowFollows 0 (e.leftAt (t :: ts)).rest.tail =
      arrowFollows 0 (e.rightAt (t :: ts)).rest.tail := arrowFollows_edge ts 0
  have hthird : ((e.leftAt (t :: ts)).kindAt 3 == .arrow) =
      ((e.rightAt (t :: ts)).kindAt 3 == .arrow) := kindAt_beq (by decide) (by omega)
  refine ⟨_, rfl, ?_⟩
  simp only [Parser.atFunction, kindAt_of_lt (e := e) (show 1 < (t :: ts).length by omega),
    kindAt_of_lt (e := e) (show 2 < (t :: ts).length by omega), htail, hthird]

/-- A function type has more tokens than the look for it takes in, and so has a type in
parentheses. -/
theorem keeps_functionOrParens : e.Keeps 0 3 (Parser.functionOrParens n ty s) := by
  refine keeps_atFunction (by decide) fun b => ?_
  split
  · exact (Keeps.bind (k := 0) (keeps_arrowType h) fun r => .pure _).mono (Nat.le_refl 0)
      (by omega)
  · refine Keeps.bind (k := 2) keeps_expect fun _ => Keeps.bind (k := 1) (h .full false) fun t => ?_
    exact keeps_expect.bind fun _ => .pure _

omit h in
theorem keeps_mappedModifier {target : Kind} (ht : ¬ target.IsEdge) :
    e.Keeps 0 0 (Parser.mappedModifier target) := by
  have hexpect {o : Option MappedModifier} :
      e.Keeps 0 0 (Parser.expect target >>= fun _ => pure o) :=
    (Keeps.bind (k := 0) keeps_expect fun _ => .pure o).mono (Nat.le_refl 0) (Nat.zero_le _)
  refine Keeps.bind (k := 0) (keeps_accept (by decide)) fun b => ?_
  split
  · exact hexpect
  refine Keeps.bind (k := 0) (keeps_accept (by decide)) fun b => ?_
  split
  · exact hexpect
  refine Keeps.bind (k := 0) (keeps_accept ht) fun b => ?_
  split <;> exact .pure _

theorem keeps_mapped : e.Keeps 0 1 (Parser.mapped ty) := by
  have hty : e.Keeps 0 0 (ty .full false) := keeps_ty h 0 _ _
  refine Keeps.andThen keeps_expect fun _ => ?_
  refine Keeps.andThen (keeps_mappedModifier (by decide)) fun readonly => ?_
  refine Keeps.andThen keeps_expect fun _ => Keeps.andThen keeps_propertyName fun key => ?_
  refine Keeps.andThen keeps_expect fun _ => Keeps.andThen hty fun constraint => ?_
  refine Keeps.andThen (hty.after? (by decide)) fun name => Keeps.andThen keeps_expect fun _ => ?_
  refine Keeps.andThen (keeps_mappedModifier (by decide)) fun optional => ?_
  refine Keeps.andThen keeps_expect fun _ => Keeps.andThen hty fun value => ?_
  refine Keeps.andThen (keeps_accept (by decide)) fun _ => ?_
  exact keeps_expect.bind fun _ => .pure _

omit h in
theorem keeps_atMapped {α : Type} {f : Bool → Parser α} {c d : Nat}
    (hd : 0 < c + d) (hf : ∀ b, e.Keeps c d (f b)) :
    e.Keeps c d (Parser.atMapped >>= f) := by
  refine .ask (q := fun c =>
    let i := if c.kindAt 1 = .symbol .plus ∨ c.kindAt 1 = .symbol .minus then 2 else 1
    let i := if c.kindAt i = .keyword .readonlyKw then i + 1 else i
    c.kindAt i == .lbracket && (c.kindAt (i + 1)).isWord && c.kindAt (i + 2) == .keyword .inKw)
    (fun ts hts => ?_) hf
  have hsign {κ : Kind} (hκ : κ.IsEdge) : ¬ (κ = .symbol .plus ∨ κ = .symbol .minus) := by
    rintro (rfl | rfl) <;> exact absurd hκ (by decide)
  obtain ⟨i, hi, h₁, h₁'⟩ := index_edge (e := e)
    (P := fun κ => κ = .symbol .plus ∨ κ = .symbol .minus) (fun κ hκ => hsign hκ)
    (show 1 ≤ ts.length by omega)
  obtain ⟨j, hj, h₂, h₂'⟩ := index_edge (e := e) (P := fun κ => κ = .keyword .readonlyKw)
    (fun κ hκ => hκ.ne (by decide)) hi
  simp only [h₁, h₁', h₂, h₂']
  exact startsKeyAt (by decide) hj

theorem keeps_mappedOrObject : e.Keeps 0 1 (Parser.mappedOrObject n ty) := by
  refine keeps_atMapped (by decide) fun b => ?_
  split
  · exact keeps_mapped h
  · exact ((keeps_members h).mono (Nat.le_refl 0) (by omega)).map _

omit h in
theorem keeps_atNamedElement {α : Type} {f : Bool → Parser α} {c d : Nat}
    (hf : ∀ b, e.Keeps c d (f b)) : e.Keeps c d (Parser.atNamedElement >>= f) := by
  refine .ask (q := fun c => (c.kindAt 0).isWord &&
    (c.kindAt 1 == .colon || (c.kindAt 1 == .question && c.kindAt 2 == .colon)))
    (fun ts _ => ?_) hf
  refine and_kindAt (fun κ hκ => hκ.isWord) (Nat.zero_le _) fun hts => ?_
  have hcolon {i : Nat} (hi : i ≤ ts.length) : ((e.leftAt ts).kindAt i == .colon) =
      ((e.rightAt ts).kindAt i == .colon) := kindAt_beq (by decide) hi
  have hquestion := and_kindAt (e := e) (g := fun κ => κ == .question)
    (fun κ hκ => beq_eq_false_iff_ne.2 (hκ.ne (by decide))) (show 1 ≤ ts.length from hts)
    fun h₁ => hcolon (i := 2) h₁
  rw [hcolon hts, hquestion]

theorem keeps_tupleElement : e.Keeps 0 1 (Parser.tupleElement ty) := by
  refine Keeps.andThen (keeps_accept (by decide)) fun rest => keeps_atNamedElement fun b => ?_
  split
  · refine Keeps.bind (k := 0) keeps_propertyName fun name => ?_
    refine Keeps.bind (k := 0) (keeps_accept (by decide)) fun optional => ?_
    refine Keeps.mono (Keeps.bind (k := 0) keeps_expect fun _ => ?_) (Nat.le_refl 0) (Nat.zero_le _)
    exact (keeps_ty h 0 _ _).bind fun type => .pure _
  · refine Keeps.bind (k := 0) (h .full false) fun type => ?_
    exact Keeps.bind (k := 0) (keeps_accept (by decide)) fun optional => .pure _

theorem keeps_tuple : e.Keeps 0 1 (Parser.tuple n ty) := by
  have helement : e.Keeps 1 0 (Parser.tupleElement ty) :=
    (keeps_tupleElement h).mono (Nat.zero_le 1) (Nat.zero_le 1)
  refine Keeps.andThen keeps_expect fun _ => ?_
  refine Keeps.andThen_front (keeps_commaList helement n) (Nat.le_refl 1) fun es => ?_
  exact keeps_expect.bind fun _ => .pure _

theorem keeps_typeQuery : e.Keeps 0 1 (Parser.typeQuery n ty) := by
  refine Keeps.andThen keeps_advance fun _ => .peek (by decide) fun k => ?_
  split
  · exact (keeps_imported h).bind fun type => .pure _
  · exact keeps_dottedName.bind fun name => .pure _

theorem keeps_namedType : e.Keeps 0 1 (Parser.namedType n ty) := by
  refine Keeps.bind (k := 0) keeps_dottedName fun name => ?_
  exact (keeps_typeArgs h).bind fun args => .pure _

theorem keeps_keywordType {k : Keyword} : e.Keeps 0 1 (Parser.keywordType n ty s k) := by
  have single {t : Ty} : e.Keeps 0 1 (Parser.advance >>= fun _ => pure t) :=
    keeps_advance.bind fun _ => .pure t
  have behind {u : Ty → Ty} {form : TyForm} :
      e.Keeps 0 1 (Parser.advance >>= fun _ => u <$> ty form s) :=
    keeps_advance.andThen fun _ => (h form s).map u
  have constructor {isAbstract : Bool} : e.Keeps 0 1 (Parser.arrowType n ty s >>= fun r =>
      pure (Ty.constructor isAbstract r.1 r.2)) :=
    (Keeps.bind (k := 0) (keeps_arrowType h) fun r => .pure _).mono (Nat.le_refl 0) (by omega)
  unfold Parser.keywordType
  split
  -- words that are types of their own
  · exact single
  · exact single
  · exact single
  · exact keeps_typeQuery h
  -- words in front of an operand or a name
  · exact behind
  · exact behind
  · exact keeps_advance.andThen fun _ => keeps_identifier.map Ty.infer
  · exact keeps_imported h
  · exact keeps_advance.andThen fun _ => constructor
  · refine .peekAt_edge 1 (by decide) (fun κ κ' hκ hκ' => ?_) fun next => ?_
    · rw [if_neg (hκ.ne (by decide)), if_neg (hκ'.ne (by decide))]
    split
    · exact keeps_advance.andThen fun _ => keeps_advance.andThen fun _ => constructor
    · exact .fail
  · split
    · exact single
    · exact .fail

omit h in
theorem keeps_negativeNumber : e.Keeps 0 1 Parser.negativeNumber := by
  refine Keeps.andThen keeps_advance fun _ => .peek (by decide) fun k => ?_
  split
  · exact keeps_advance.bind fun _ => .pure _
  · exact .fail

theorem keeps_symbolType {t : Symbol} : e.Keeps 0 1 (Parser.symbolType n ty s t) := by
  unfold Parser.symbolType
  split
  · exact keeps_negativeNumber
  · exact (keeps_functionOrParens h).mono (Nat.le_refl 0) (by omega)
  · exact keeps_mappedOrObject h
  · exact keeps_tuple h
  · exact (Keeps.bind (k := 0) (keeps_arrowType h) fun r => .pure _).mono (Nat.le_refl 0)
      (by omega)
  · exact .fail

theorem keeps_primary : e.Keeps 0 1 (Parser.primary n ty s) := by
  refine .peek (by decide) fun k => ?_
  split
  · next name =>
    refine .peekAt_edge 1 (by decide) (fun κ κ' hκ hκ' => ?_) fun next => ?_
    · have hne {κ : Kind} (h : κ.IsEdge) : κ ≠ .keyword .symbolKw := h.ne (by decide)
      simp [hne hκ, hne hκ']
    split
    · exact keeps_advance.andThen fun _ => (h _ _).map _
    · exact keeps_namedType h
  · exact keeps_advance.bind fun _ => .pure _
  · exact keeps_advance.bind fun _ => .pure _
  · exact keeps_advance.bind fun _ => .pure _
  · exact keeps_keywordType h
  · exact keeps_symbolType h
  · exact .fail

/-! ## Operators -/

theorem keeps_brackets (k : Nat) (t : Ty) : e.Keeps 0 0 (Parser.brackets ty k t) := by
  induction k generalizing t with
  | zero => exact .fail
  | succ k ih =>
    refine Keeps.bind (k := 0) (keeps_accept (by decide)) fun b => ?_
    split
    · refine Keeps.bind (k := 0) (keeps_accept (by decide)) fun b => ?_
      split
      · exact ih _
      · refine Keeps.bind (k := 0) (keeps_ty h 0 _ _) fun index => ?_
        exact (keeps_expect.andThen fun _ => ih _)
    · exact .pure t

theorem keeps_postfixed : e.Keeps 0 1 (Parser.postfixed n ty s) :=
  (keeps_primary h).bind fun type => keeps_brackets h n type

theorem keeps_intersected : e.Keeps 0 1 (Parser.intersected n ty s) := by
  refine Keeps.andThen (keeps_accept (by decide)) fun _ => ?_
  exact (keeps_sepBy1 (by decide) (keeps_postfixed h) n).bind fun ts => .pure _

theorem keeps_united : e.Keeps 0 1 (Parser.united n ty s) := by
  refine Keeps.andThen (keeps_accept (by decide)) fun _ => ?_
  exact (keeps_sepBy1 (by decide) (keeps_intersected h) n).bind fun ts => .pure _

theorem keeps_conditional {check : Ty} : e.Keeps 0 0 (Parser.conditional n ty check) := by
  refine Keeps.andThen (keeps_united h) fun super => Keeps.andThen keeps_expect fun _ => ?_
  refine Keeps.andThen (h .full false) fun yes => Keeps.andThen keeps_expect fun _ => ?_
  exact (keeps_ty h 0 _ _).bind fun no => .pure _

theorem keeps_full : e.Keeps 0 1 (Parser.full n ty s) := by
  refine Keeps.bind (k := 0) (keeps_united h) fun type => ?_
  split
  · exact .pure type
  · refine Keeps.bind (k := 0) (keeps_accept (by decide)) fun b => ?_
    split
    · exact keeps_conditional h
    · exact .pure type

end

/-- **What is read as a type does not depend on what stands behind it**, if the type ends in front
of the edge. -/
theorem keeps_readTy (n : Nat) (form : TyForm) (s : Bool) :
    e.Keeps 0 1 (Parser.readTy n form s) := by
  induction n generalizing form s with
  | zero => exact .fail
  | succ n ih =>
    cases form with
    | full => exact keeps_full ih
    | operand => exact keeps_postfixed ih

end Edge

end Ambient
