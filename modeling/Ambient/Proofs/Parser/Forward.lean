import Ambient.Proofs.Parser.Passes

/-!
# Functions and objects are passed token by token

The parsers for function types, constructor types and object types go forward if the reader for the
types inside of them does. What they give is of no interest here: a function type or constructor
type passes an arrow (`passes_arrowType`), and an object type starts with a brace that starts no
mapped type.
-/

namespace Ambient

/-! ## Names and texts -/

theorem forward_identifier : Forward Parser.identifier := by
  refine .peek fun k => ?_
  split
  · exact forward_advance.bind fun _ => .pure _
  · split
    · exact forward_advance.bind fun _ => .pure _
    · exact .fail _
  · exact .fail _

theorem forward_scanned (cause : Cause) {scan : List Token → Option (List Token × List Token)}
    (h : ∀ ts r, scan ts = some r → r.1.reverse ++ r.2 = ts) :
    Forward (Parser.scanned cause scan) := by
  intro c heof v c' hp
  rw [Parser.scanned] at hp
  split at hp
  · next passed rest hscan =>
    cases hp
    exact ⟨rfl, passed.reverse, (h _ _ hscan).symm, fun _ => trivial⟩
  · cases hp

theorem forward_computedName : Forward Parser.computedName :=
  forward_scanned _ fun _ _ h => by simpa using passComputedName?_append h

theorem forward_pattern : Forward Parser.pattern :=
  forward_scanned _ fun _ _ h => by simpa using passPattern?_append h

theorem forward_expression : Forward Parser.expression := by
  intro c
  have happend := passExpression_append 0 [] c.rest
  refine .scan (F := fun ts =>
    (Parser.written (passExpression 0 [] ts).1, (passExpression 0 [] ts).2)) ⟨(passExpression 0 [] c.rest).1.reverse, ?_, fun _ => trivial⟩
  simpa using happend.symm

theorem forward_propertyName : Forward Parser.propertyName := by
  refine .peek fun k => ?_
  split
  · exact forward_advance.bind fun _ => .pure _
  · exact forward_advance.bind fun _ => .pure _
  · exact forward_advance.bind fun _ => .pure _
  · exact forward_computedName
  · exact forward_advance.bind fun _ => .pure _
  · exact .fail _

theorem forward_memberName? : Forward Parser.memberName? := by
  intro c heof v c' hp
  rw [Parser.memberName?] at hp
  split at hp
  · next name later hname =>
    cases hp
    exact forward_propertyName c heof _ _ hname
  · split at hp
    · cases hp
      exact ⟨rfl, c.rest, by simp, fun _ => trivial⟩
    · cases hp
      obtain ⟨ts, hts⟩ := List.tail_suffix c.rest
      exact ⟨rfl, ts, hts.symm, fun _ => trivial⟩

theorem typeParamModifiers_suffix (ts : List Token) : (typeParamModifiers ts).2 <:+ ts := by
  fun_induction typeParamModifiers ts with
  | case1 t u ts m hm hu r ih => exact ih.trans (List.suffix_cons t _)
  | _ => exact List.suffix_refl _

theorem skipParamModifiers_suffix (ts : List Token) : skipParamModifiers ts <:+ ts := by
  fun_induction skipParamModifiers ts with
  | case1 t u ts h ih => exact ih.trans (List.suffix_cons t _)
  | _ => exact List.suffix_refl _

/-! ## Signatures -/

section

variable {n : Nat} {ty : TyReader} {s : Bool} (h : ∀ form s, Forward (ty form s))
include h

theorem forward_typeParam : Forward (Parser.typeParam ty s) := by
  refine Forward.bind (fun c => ?_) fun modifiers => forward_identifier.bind fun name => ?_
  · obtain ⟨ts, hts⟩ := typeParamModifiers_suffix c.rest
    exact .scan (F := typeParamModifiers) ⟨ts, hts.symm, fun _ => trivial⟩
  · exact (forward_after? _ (h _ _)).bind fun _ => (forward_after? _ (h _ _)).bind fun _ => .pure _

theorem forward_typeParams : Forward (Parser.typeParams n ty s) := by
  refine (forward_accept _).bind fun b => ?_
  split
  · exact (forward_commaList _ (forward_typeParam h) n).bind fun _ =>
      (forward_expect _).bind fun _ => .pure _
  · exact .pure _

theorem forward_plainParam : Forward (Parser.plainParam ty s) := by
  refine (forward_skip skipParamModifiers_suffix).bind fun _ => (forward_accept _).bind fun _ => ?_
  refine .peek fun k => ?_
  dsimp only
  split
  · refine forward_pattern.bind fun name => ?_
    exact (forward_accept _).bind fun _ => (forward_after? _ (h _ _)).bind fun _ =>
      (forward_after? _ forward_expression).bind fun _ => .pure _
  · refine forward_propertyName.bind fun name => ?_
    exact (forward_accept _).bind fun _ => (forward_after? _ (h _ _)).bind fun _ =>
      (forward_after? _ forward_expression).bind fun _ => .pure _

theorem forward_param : Forward (Parser.param ty s) := by
  refine .peek fun k₀ => .peekAt 1 fun k₁ => ?_
  split
  · exact forward_advance.bind fun _ => forward_advance.bind fun _ => (h _ _).map _
  · exact (forward_plainParam h).map _

theorem forward_params : Forward (Parser.params n ty s) :=
  (forward_expect _).bind fun _ => (forward_commaList _ (forward_param h) n).bind fun _ =>
    (forward_expect _).bind fun _ => .pure _

theorem forward_signature : Forward (Parser.signature n ty s) :=
  (forward_typeParams h).bind fun _ => (forward_params h).bind fun _ => .pure _

omit h in
theorem forward_predicateSubject : Forward Parser.predicateSubject := by
  refine (forward_accept _).bind fun b => ?_
  split
  · exact .pure _
  · exact forward_identifier

theorem forward_result : Forward (Parser.result ty s) := by
  refine .peek fun k₀ => .peekAt 1 fun k₁ => ?_
  split
  · exact forward_advance.bind fun _ => forward_predicateSubject.bind fun _ =>
      (forward_after? _ (h _ _)).bind fun _ => .pure _
  split
  · exact forward_predicateSubject.bind fun _ => (forward_expect _).bind fun _ =>
      (h _ _).bind fun _ => .pure _
  · exact h _ _

theorem forward_result? : Forward (Parser.result? ty s) :=
  forward_after? _ (forward_result h)

/-- A function type or constructor type passes an arrow. -/
theorem passes_arrowType (c : Cursor) :
    Passes c (Parser.arrowType n ty s) fun _ _ => False := by
  refine Passes.bind (forward_signature h c) fun sig c' => .expect (by simp) fun _ => ?_
  refine Passes.bind (forward_result h _) fun result c' => .pure ?_
  exact fun _ _ harrow _ _ => harrow.arrow rfl

/-! ## Members -/

omit h in
theorem forward_endMember : Forward Parser.endMember := by
  refine (forward_accept _).bind fun b => ?_
  split
  · exact .pure _
  · exact (forward_accept _).map _

theorem forward_indexSignature {readonly isStatic : Bool} :
    Forward (Parser.indexSignature ty readonly isStatic) :=
  (forward_expect _).bind fun _ => forward_propertyName.bind fun _ =>
    (forward_expect _).bind fun _ => (h _ _).bind fun _ => (forward_expect _).bind fun _ =>
      (forward_expect _).bind fun _ => (h _ _).bind fun _ => forward_endMember.bind fun _ => .pure _

theorem forward_accessor {modifiers : MemberModifiers} :
    Forward (Parser.accessor n ty modifiers) :=
  .peek fun _ => forward_advance.bind fun _ => forward_propertyName.bind fun _ =>
    (forward_params h).bind fun _ => (forward_result? h).bind fun _ =>
      forward_endMember.bind fun _ => .pure _

theorem forward_callSignature : Forward (Parser.callSignature n ty) :=
  (forward_signature h).bind fun _ => (forward_result? h).bind fun _ =>
    forward_endMember.bind fun _ => .pure _

theorem forward_constructSignature : Forward (Parser.constructSignature n ty) :=
  forward_advance.bind fun _ => (forward_typeParams h).bind fun _ =>
    (forward_params h).bind fun _ => (forward_result? h).bind fun _ =>
      forward_endMember.bind fun _ => .pure _

omit h in
theorem forward_atSignature : Forward Parser.atSignature :=
  .peek fun _ => .pure _

theorem forward_namedMember {readonly : Bool} : Forward (Parser.namedMember n ty readonly) := by
  refine forward_memberName?.bind fun name => ?_
  split
  · exact .pure _
  · refine (forward_accept _).bind fun _ => forward_atSignature.bind fun b => ?_
    split
    · exact (forward_signature h).bind fun _ => (forward_result? h).bind fun _ =>
        forward_endMember.bind fun _ => .pure _
    · exact (forward_after? _ (h _ _)).bind fun _ => forward_endMember.bind fun _ => .pure _

omit h in
theorem forward_readonlyModifier : Forward Parser.readonlyModifier := by
  refine .peek fun k₀ => .peekAt 1 fun k₁ => ?_
  split
  · exact forward_advance.bind fun _ => .pure _
  · exact .pure _

theorem forward_memberShape : Forward (Parser.memberShape n ty) := by
  have hindex : Forward Parser.atIndexSignature :=
    .peek fun _ => .peekAt 1 fun _ => .peekAt 2 fun _ => .pure _
  have haccessor : Forward Parser.atAccessor := .peek fun _ => .peekAt 1 fun _ => .pure _
  refine forward_readonlyModifier.bind fun readonly => hindex.bind fun b => ?_
  split
  · exact (forward_indexSignature h).bind fun _ => .pure _
  refine forward_atSignature.bind fun b => ?_
  split
  · exact (forward_callSignature h).map _
  refine .peek fun k₀ => .peekAt 1 fun k₁ => ?_
  split
  · exact (forward_constructSignature h).map _
  refine haccessor.bind fun b => ?_
  split
  · exact (forward_accessor h).bind fun _ => .pure _
  · exact forward_namedMember h

theorem forward_member : Forward (Parser.member n ty) := by
  refine .peekDoc fun doc => .peek fun k => ?_
  split
  · exact forward_advance.bind fun _ => .pure _
  · exact (forward_memberShape h).bind fun _ => .pure _

end

end Ambient
