import Ambient.Proofs.Parser.Query
import Ambient.Proofs.Parser.YieldsNames
import Ambient.Proofs.Tree.Fits

/-!
# Types within a source

Every type that is read of a regular source fits where it was read: it is legible if it is settled,
and it is read back there. There is one lemma for each part of the grammar, in the order of the
grammar, over a reader for the types inside of it of which this is known (`TyReader.Fitting`). The
bound on nesting ties the knot (`fitting_readTy`).
-/

namespace Ambient

variable {source : String} {c : Cursor} {n : Nat} {ty : TyReader} {i : Bool}

/-- Every type that the reader gives within the source fits where it was read. An operand that
starts with the word `symbol` is that type, possibly in front of brackets. -/
structure TyReader.Fitting (source : String) (ty : TyReader) : Prop where
  full : ∀ c i, Yields source c (ty .full i) fun t _ => t.Fits 3 i
  operand : ∀ c i, Yields source c (ty .operand i) fun t _ =>
    t.Fits 0 i ∧ (c.kindAt 0 = .keyword .symbolKw → t.startsSymbol = true)

/-! ## Signatures -/

/-- Behind the modifiers of a type parameter, a word that could be one has no word behind it. -/
theorem isWord_typeParamModifiers {ts : List Token} {m : TypeParamModifier} {t u : Token}
    {us : List Token} (h : (typeParamModifiers ts).2 = t :: u :: us)
    (hm : TypeParamModifier.ofKind? t.kind = some m) : u.kind.isWord = false := by
  fun_induction typeParamModifiers ts with
  | case1 t' u' ts m' hm' hu r ih => exact ih h
  | case2 t' u' ts m' hm' hu =>
    cases h
    simpa using hu
  | case3 t' u' ts hm' =>
    cases h
    rw [hm] at hm'
    cases hm'
  | case4 ts hts => exact absurd h (hts t u us)

theorem yields_typeParamModifiers : Yields source c (fun c => .ok ((typeParamModifiers c.rest).1,
    { c with rest := (typeParamModifiers c.rest).2 })) fun _ c' =>
      (TypeParamModifier.ofKind? (c'.kindAt 0)).isSome = true → (c'.kindAt 1).isWord = false := by
  refine .within fun hc => .scan (F := typeParamModifiers) (typeParamModifiers_suffix c.rest) ?_
  intro hm
  obtain ⟨m, hm⟩ := Option.isSome_iff_exists.1 hm
  unfold Cursor.kindAt at hm ⊢
  dsimp only at hm ⊢
  rcases hrest : (typeParamModifiers c.rest).2 with _ | ⟨t, _ | ⟨u, us⟩⟩
  · rw [hrest, List.getD_nil, hc.eof] at hm
    cases hm
  · show c.eof.kind.isWord = false
    rw [hc.eof]
    rfl
  · rw [hrest] at hm
    exact isWord_typeParamModifiers hrest hm

section

variable (hs : Regular source) (h : ty.Fitting source)
include hs h

theorem yields_typeParam : Yields source c (Parser.typeParam ty i) fun p _ =>
    Fits i (fun s => p.clear s) p.Settled p.Legible := by
  refine yields_typeParamModifiers.bind fun modifiers c' hmodifiers => ?_
  refine (yields_identifier hs).bind fun name c'' hname => ?_
  obtain ⟨hbinder, hspelled, hword, rfl⟩ := hname
  refine (Yields.after? fun _ => h.full _ i).bind fun constraint c'' hconstraint => ?_
  refine (Yields.after? fun _ => h.full _ i).bind fun default c'' hdefault => .pure ?_
  have hopt :=
    (fits_opt fun t ht => (hconstraint t ht).2).and (fits_opt fun t ht => (hdefault t ht).2)
  refine hopt.imp id fun hl => ⟨hbinder, fun hsome => ?_, hl⟩
  obtain ⟨t, ht⟩ := Option.isSome_iff_exists.1 hsome
  -- behind the name stands a word, so the name is none that is taken for a modifier
  obtain ⟨hextends, -⟩ := hconstraint t ht
  rw [Cursor.kindAt_advance] at hextends
  rw [hextends] at hmodifiers
  have hne (w : Keyword) (hw : (TypeParamModifier.ofKind? (.keyword w)).isSome = true) :
      name ≠ w.text := by
    rintro rfl
    rw [hspelled.unique (spelled_keyword w)] at hmodifiers
    exact Bool.noConfusion (hmodifiers hw)
  exact ⟨hne .inKw rfl, hne .outKw rfl⟩

theorem yields_typeParams : Yields source c (Parser.typeParams n ty i) fun ps _ =>
    Fits i (fun s => clearTypeParams s ps) (settledTypeParams ps) (legibleTypeParams ps) := by
  refine .accept (fun _ => ?_) fun _ => .pure (fits_typeParams (by simp))
  refine (yields_commaList (fun _ => yields_typeParam hs h) n).bind fun ps c' hps => ?_
  exact .expect fun _ => .pure (fits_typeParams hps)

theorem yields_plainParam : Yields source c (Parser.plainParam ty i) fun p _ =>
    Fits i (fun s => p.clear s) p.Settled p.Legible := by
  refine .pass (forward_skip skipParamModifiers_suffix) fun _ c' => ?_
  refine .pass (forward_accept _) fun rest c' => .peek fun k hk => ?_
  have hbehind (name : String) (hname : ParamName name) (c : Cursor) : Yields source c (do
      let optional ← Parser.accept .question
      let type ← Parser.after? .colon (ty .full i)
      let _ ← Parser.after? .eq Parser.expression
      pure { name, ty := type, optional, rest : Param }) fun p _ =>
        Fits i (fun s => p.clear s) p.Settled p.Legible := by
    refine .pass (forward_accept _) fun optional c' => ?_
    refine (Yields.after? fun _ => h.full _ i).bind fun type c' htype => ?_
    refine .pass (forward_after? _ forward_expression) fun _ c' => .pure ?_
    have hopt := fits_opt fun t ht => (htype t ht).2
    exact ⟨hopt.clear, fun hsettled => ⟨hname, hsettled.1, hopt.legible hsettled.2⟩⟩
  dsimp only
  split
  · next hopen =>
    refine (yields_pattern hs (hk ▸ hopen)).bind fun name c' hname => ?_
    exact hbehind name (.inr (.inr (.inr hname))) c'
  · next hopen =>
    refine (yields_propertyName hs).bind fun name c' hname => hbehind name (hname.paramName ?_) c'
    rw [hk]
    exact fun h => hopen (.inr h)

theorem yields_param : Yields source c (Parser.param ty i) fun x _ =>
    (∀ t ∈ x.getLeft?, t.Fits 3 i) ∧
      ∀ p ∈ x.getRight?, Fits i (fun s => p.clear s) p.Settled p.Legible := by
  refine .peek fun k₀ _ => .peekAt 1 fun k₁ _ => ?_
  split
  · refine .advance (.advance (.map ((h.full _ i).mono fun t _ ht => ?_)))
    exact ⟨by simpa using ht, by simp⟩
  · refine .map ((yields_plainParam hs h).mono fun p _ hp => ?_)
    exact ⟨by simp, by simpa using hp⟩

theorem yields_params : Yields source c (Parser.params n ty i) fun r _ =>
    Fits i (fun s => clearOpt s r.1) (settledOpt r.1) (legibleOpt r.1) ∧
      Fits i (fun s => clearParams s r.2) (settledParams r.2) (legibleParams r.2) := by
  refine .expect fun _ => ?_
  refine (yields_commaList (fun _ => yields_param hs h) n).bind fun xs c' hxs => ?_
  refine .expect fun _ => .pure ⟨fits_opt fun t ht => ?_, fits_params fun p hp => ?_⟩
  · obtain ⟨x, hx, ht⟩ := List.mem_filterMap.1 (List.mem_of_getLast? ht)
    exact (hxs x hx).1 t ht
  · obtain ⟨x, hx, hp⟩ := List.mem_filterMap.1 hp
    exact (hxs x hx).2 p hp

theorem yields_signature : Yields source c (Parser.signature n ty i) fun sig _ =>
    Fits i (fun s => sig.clear s) sig.Settled sig.Legible := by
  refine (yields_typeParams hs h).bind fun typeParams c' htypeParams => ?_
  exact (yields_params hs h).bind fun r c' hr => .pure (htypeParams.and (hr.1.and hr.2))

omit h in
theorem yields_predicateSubject
    (hk : (c.kindAt 0).isIdent = true ∨ c.kindAt 0 = .keyword .thisKw) :
    Yields source c Parser.predicateSubject fun s _ => Subject s := by
  refine .accept (fun _ => .pure (.inr rfl)) fun hthis => ?_
  refine (yields_identifier hs).mono fun name _ hname => .inl ?_
  obtain ⟨-, hspelled, hword, -⟩ := hname
  replace hk := hk.resolve_right hthis
  cases hkind : c.kindAt 0 <;> rw [hkind] at hk hword hspelled <;> try simp [Kind.isIdent] at hk
  cases hword
  exact hspelled

theorem yields_result : Yields source c (Parser.result ty i) fun t _ => t.Fits 4 i := by
  refine .peek fun k₀ hk₀ => .peekAt 1 fun k₁ hk₁ => ?_
  split
  · next hasserts =>
    refine .advance ((yields_predicateSubject hs ?_).bind fun subject c' hsubject => ?_)
    · rw [Cursor.kindAt_advance, hk₁]
      exact hasserts.2
    · refine (Yields.after? fun _ => h.full _ i).bind fun type c' htype => .pure ?_
      exact .predicate hsubject (by simp) fun t ht => (htype t ht).2
  split
  · next _ his =>
    refine (yields_predicateSubject hs ?_).bind fun subject c' hsubject => .expect fun _ => ?_
    · rw [hk₀]
      exact his.1
    · refine (h.full _ i).bind fun t c' ht => .pure ?_
      exact .predicate hsubject (fun _ => rfl) (by simpa using ht)
  · exact (h.full c i).mono fun t _ ht => ht.mono (by decide)

theorem yields_result? : Yields source c (Parser.result? ty i) fun o _ =>
    Fits i (fun s => clearOpt s o) (settledOpt o) (legibleResult o) :=
  (Yields.after? fun _ => yields_result hs h).mono fun _ _ ho => fits_result fun t ht => (ho t ht).2

/-! ## Members of interfaces and object types -/

omit hs h in
/-- A tidy text is legible unless it is one line that starts with a star. -/
theorem TidyDoc.legible {d : String} (hd : TidyDoc d) (hstar : starless d) : LegibleDoc d :=
  ⟨hd.joined, hd.closed, hd.ne_nil, hd.first, hd.last, hd.trimmed, hstar⟩

/-- What is known of a member without its documentation. -/
def MemberShape.Fits (m : MemberShape) : Prop :=
  Ambient.Fits false (fun _ => m.clear) m.Settled m.Legible

theorem yields_indexSignature (hat : Parser.atIndexSignature c = .ok (true, c))
    (readonly isStatic : Bool) :
    Yields source c (Parser.indexSignature ty readonly isStatic) fun sig _ =>
      sig.isStatic = isStatic ∧ Fits false (fun _ => sig.clear) sig.Settled sig.Legible := by
  have hat : ((c.kindAt 0 == .lbracket && (c.kindAt 1).isWord) && c.kindAt 2 == .colon) = true :=
    congrArg Prod.fst (Except.ok.inj hat)
  simp only [Bool.and_eq_true] at hat
  refine .expect fun _ => (yields_propertyName hs).bind fun key c' hkey => .expect fun _ => ?_
  refine (h.full _ false).bind fun keyType c' hkeyType => .expect fun _ => .expect fun _ => ?_
  refine (h.full _ false).bind fun valueType c' hvalueType => ?_
  refine .pass forward_endMember fun _ c' => .pure ⟨rfl, ?_⟩
  exact (hkeyType.plain.and hvalueType.plain).inside.imp id fun hl =>
    ⟨hkey.word (by simpa using hat.1.2), hl⟩

theorem yields_accessor (modifiers : MemberModifiers) :
    Yields source c (Parser.accessor n ty modifiers) fun a _ =>
      a.modifiers = modifiers ∧ Fits false (fun _ => a.clear) a.Settled a.Legible := by
  refine .peek fun k _ => .advance ((yields_propertyName hs).bind fun name c' hname => ?_)
  refine (yields_params hs h).bind fun r c' hr => (yields_result? hs h).bind fun result c' ho => ?_
  refine .pass forward_endMember fun _ c' => .pure ⟨rfl, ?_⟩
  exact (hr.2.and ho).inside.imp id fun hl => ⟨hname.memberName, hl⟩

theorem yields_callSignature :
    Yields source c (Parser.callSignature n ty) fun m _ => m.Fits := by
  refine (yields_signature hs h).bind fun sig _ hsig => ?_
  refine (yields_result? hs h).bind fun _ _ ho => ?_
  exact .pass forward_endMember fun _ _ => .pure (hsig.and ho).inside

theorem yields_constructSignature :
    Yields source c (Parser.constructSignature n ty) fun m _ => m.Fits := by
  refine .advance ((yields_typeParams hs h).bind fun typeParams c' htypeParams => ?_)
  refine (yields_params hs h).bind fun r c' hr => (yields_result? hs h).bind fun result c' ho => ?_
  refine .pass forward_endMember fun _ c' => .pure ?_
  exact ((htypeParams.and hr.2).and ho).inside.imp (fun hs => ⟨⟨hs.1, hs.2.1⟩, hs.2.2⟩)
    fun hl => ⟨hl.1.1, hl.1.2, hl.2⟩

/-- A member with a name. A method with the name `new` has a question mark behind it, or it would be
a construct signature. -/
theorem yields_namedMember (hat : Parser.atIndexSignature c = .ok (false, c))
    (hnew : ¬(c.kindAt 0 = .keyword .newKw ∧ (c.kindAt 1 = .lparen ∨ c.kindAt 1 = .langle)))
    (readonly : Bool) :
    Yields source c (Parser.namedMember n ty readonly) fun o _ => ∀ m ∈ o, m.Fits := by
  refine (yields_memberName? hs).bind fun o c' ho => ?_
  cases o with
  | none => exact .pure_none
  | some name =>
  have hname := ho name rfl
  have hproperty : PropertyName name := ⟨hname.memberName, hname.isIndexLike_eq_false hat⟩
  have hbehind (optional : Bool) (c'' : Cursor) (hc : optional = false → c'' = c') :
      Yields source c'' (do
        if ← Parser.atSignature then
          let sig ← Parser.signature n ty false
          let result ← Parser.result? ty false
          Parser.endMember
          pure (some (MemberShape.method name optional sig result))
        else
          let type ← Parser.after? .colon (ty .full false)
          Parser.endMember
          pure (some (.property name type optional readonly))) fun o _ => ∀ m ∈ o, m.Fits := by
    refine .ask (show Parser.atSignature c'' = .ok (_, c'') from rfl) ?_
    split
    · next hsignature =>
      refine (yields_signature hs h).bind fun sig _ hsig => ?_
      refine (yields_result? hs h).bind fun result _ ho => ?_
      refine .pass forward_endMember fun _ _ => .pure_some ?_
      refine (hsig.and ho).inside.imp id fun hl => ⟨hproperty, fun heq => ?_, hl⟩
      -- without a question mark, the parameters would stand right behind the word
      by_contra hoptional
      obtain ⟨hk, rfl⟩ := hname.keyword (w := .newKw) heq
      rw [hc (Bool.eq_false_iff.2 hoptional), Cursor.kindAt_advance] at hsignature
      exact hnew ⟨hk, by simpa using hsignature⟩
    · refine (Yields.after? fun _ => h.full _ false).bind fun type _ htype => ?_
      refine .pass forward_endMember fun _ _ => .pure_some ?_
      exact (fits_opt fun t ht => (htype t ht).2).inside.imp id fun hl => ⟨hproperty, hl⟩
  exact .accept (fun _ => hbehind true _ (by simp)) fun _ => hbehind false _ fun _ => rfl

theorem yields_memberShape :
    Yields source c (Parser.memberShape n ty) fun o _ => ∀ m ∈ o, m.Fits := by
  refine .pass forward_readonlyModifier fun readonly c => ?_
  obtain ⟨b, hat⟩ : ∃ b, Parser.atIndexSignature c = .ok (b, c) := ⟨_, rfl⟩
  refine .ask hat ?_
  split
  · next hb =>
    subst hb
    refine (yields_indexSignature hs h hat readonly false).bind fun sig _ hsig => .pure_some ?_
    exact hsig.2.imp id fun hl => ⟨hsig.1, hl⟩
  · next hb =>
    obtain rfl : b = false := Bool.eq_false_iff.2 hb
    refine .ask (show Parser.atSignature c = .ok (_, c) from rfl) ?_
    split
    · exact .map_some (yields_callSignature hs h)
    refine .peek fun k₀ hk₀ => .peekAt 1 fun k₁ hk₁ => ?_
    split
    · exact .map_some (yields_constructSignature hs h)
    next hnew =>
    refine .ask (show Parser.atAccessor c = .ok (_, c) from rfl) ?_
    split
    · refine (yields_accessor hs h {}).bind fun a _ ha => .pure_some ?_
      exact ha.2.imp id fun hl => ⟨ha.1, hl⟩
    · rw [← hk₀, ← hk₁] at hnew
      exact yields_namedMember hs h hat hnew readonly

theorem yields_member : Yields source c (Parser.member n ty) fun o _ =>
    ∀ m ∈ o, Fits false (fun _ => m.clear) m.Settled m.Legible := by
  refine .peekDoc fun doc hdoc => .peek fun k _ => ?_
  split
  · exact .advance .pure_none
  · refine (yields_memberShape hs h).bind fun o _ ho => .pure ?_
    simp only [Option.mem_map, forall_exists_index, and_imp, forall_apply_eq_imp_iff₂]
    intro shape hshape
    have hfits := ho shape hshape
    exact ⟨hfits.clear, fun hsettled =>
      ⟨fun d hd => (hdoc d hd).legible (hsettled.1 d hd), hfits.legible hsettled.2⟩⟩

theorem yields_members : Yields source c (Parser.members n ty) fun ms _ =>
    Fits i (fun _ => clearMembers ms) (settledMembers ms) (legibleMembers ms) := by
  refine .expect fun _ => ?_
  refine (yields_itemsUntil (fun _ => yields_member hs h) n).bind fun ms _ hms => ?_
  exact .expect fun _ => .pure (fits_members hms)

/-! ## Primary types -/

omit hs in
theorem yields_typeArgs : Yields source c (Parser.typeArgs n ty) fun args _ =>
    Fits i (fun _ => clearTys args) (settledTys args) (legibleTys args) := by
  refine .accept (fun _ => ?_) fun _ => .pure (fits_tys (by simp))
  refine (yields_commaList (fun c => h.full c false) n).bind fun args _ hargs => ?_
  exact .expect fun _ => .pure (fits_tys hargs)

/-- A type that another module exports. -/
theorem yields_imported : Yields source c (Parser.imported n ty) fun t _ =>
    t.Fits 0 i ∧ ∃ module qualifier args, t = .imported module qualifier args ∧
      ∀ q ∈ qualifier, DottedPath q := by
  refine .expect fun _ => .expect fun _ => .peek fun k _ => ?_
  split
  · next module _ =>
    refine .advance (.expect fun _ => ?_)
    refine (Yields.after? fun _ => yields_dottedName hs).bind fun qualifier _ hqualifier => ?_
    refine (yields_typeArgs (i := i) h).bind fun args _ hargs => .pure ?_
    have hpaths : ∀ q ∈ qualifier, DottedPath q := fun q hq => (hqualifier q hq).2.1
    have hfits : (Ty.imported module qualifier args).Fits 0 i :=
      ⟨Nat.le_refl 0, hargs.imp id fun hl => ⟨hpaths, hl⟩⟩
    exact ⟨hfits, module, qualifier, args, rfl, hpaths⟩
  · exact .fail

omit hs h in
theorem getLast?_print_imported (module : String) (qualifier : Option String) {args : List Ty}
    (hargs : args ≠ []) :
    ((Ty.imported module qualifier args).print 0).toList.getLast? = some '>' := by
  obtain ⟨t, ts, rfl⟩ := List.exists_cons_of_ne_nil hargs
  simp [Ty.print, printTys, angled, List.getLast?_append, List.getLast?_cons]

/-- The type of a value. Of an import with type arguments only the text is left, so that they are
legible is part of what is settled. -/
theorem yields_typeQuery : Yields source c (Parser.typeQuery n ty) fun t _ => t.Fits 0 i := by
  refine .advance (.peek fun k _ => ?_)
  split
  · refine (yields_imported (i := false) hs h).bind fun t _ ht =>
      .pure (.leaf rfl (fun _ => rfl) fun hsettled => ?_)
    obtain ⟨-, module, qualifier, args, rfl, hqualifier⟩ := ht
    by_cases hargs : args = []
    · subst hargs
      exact query_imported ⟨hqualifier, trivial⟩ rfl
    · exact hsettled (getLast?_print_imported module qualifier hargs)
  · exact (yields_dottedName hs).bind fun name _ hname =>
      .pure (.leaf rfl (fun _ => rfl) fun _ => .inl hname.1)

theorem yields_namedType (hk : (c.kindAt 0).isIdent = true) :
    Yields source c (Parser.namedType n ty) fun t _ => t.Fits 0 i := by
  refine (yields_dottedName hs).bind fun name _ hname => ?_
  refine (yields_typeArgs (i := i) h).bind fun args _ hargs => .pure ⟨Nat.le_refl 0, ?_⟩
  exact hargs.imp id fun hl => ⟨hname.2 hk, hl⟩

omit hs h in
theorem yields_mappedModifier {target : Kind} :
    Yields source c (Parser.mappedModifier target) fun m c' => Signed target c c' m := by
  refine .accept (fun hplus => .expect fun ht => .pure ?_) fun hplus => ?_
  · exact ⟨hplus, by simpa using ht, rfl⟩
  refine .accept (fun hminus => .expect fun ht => .pure ?_) fun hminus => ?_
  · exact ⟨hminus, by simpa using ht, rfl⟩
  exact .accept (fun ht => .pure ⟨ht, rfl⟩) fun ht => .pure ⟨hplus, hminus, ht, rfl⟩

theorem yields_mapped (hat : Parser.atMapped c = .ok (true, c)) :
    Yields source c (Parser.mapped ty) fun t _ => t.Fits 0 i := by
  refine .expect fun _ => yields_mappedModifier.bind fun readonly c' hsigned => .expect fun _ => ?_
  refine (yields_propertyName hs).bind fun key _ hkey => .expect fun _ => ?_
  refine (h.full _ false).bind fun constraint _ hconstraint => ?_
  refine (Yields.after? fun _ => h.full _ false).bind fun name _ hname => .expect fun _ => ?_
  refine yields_mappedModifier.bind fun optional _ _ => .expect fun _ => ?_
  refine (h.full _ false).bind fun value _ hvalue => ?_
  refine .pass (forward_accept _) fun _ _ => .expect fun _ => .pure ?_
  refine .mapped (hkey.word ?_) hconstraint (fun t ht => (hname t ht).2) hvalue
  rw [Cursor.kindAt_advance]
  exact hsigned.isWord hat

theorem yields_mappedOrObject :
    Yields source c (Parser.mappedOrObject n ty) fun t _ => t.Fits 0 i := by
  obtain ⟨b, hb⟩ : ∃ b, Parser.atMapped c = .ok (b, c) := ⟨_, rfl⟩
  refine .ask hb ?_
  cases b with
  | true => exact yields_mapped hs h hb
  | false =>
    refine .map ((yields_members hs h).mono fun ms _ hms => ⟨Nat.le_refl 0, hms.clear, ?_⟩)
    exact fun hsettled => ⟨hsettled.1, hms.legible hsettled.2⟩

theorem yields_tupleElement : Yields source c (Parser.tupleElement ty) fun e _ =>
    Fits false (fun _ => e.clear) e.Settled e.Legible := by
  refine .pass (forward_accept _) fun rest c' => ?_
  obtain ⟨b, hb⟩ : ∃ b, Parser.atNamedElement c' = .ok (b, c') := ⟨_, rfl⟩
  refine .ask hb ?_
  cases b with
  | true =>
    have hword : (c'.kindAt 0).isWord = true := by
      simp only [Parser.atNamedElement, Except.ok.injEq, Prod.mk.injEq, Bool.and_eq_true] at hb
      exact hb.1.1
    refine (yields_propertyName hs).bind fun name _ hname => ?_
    refine .pass (forward_accept _) fun optional _ => .expect fun _ => ?_
    refine (h.full _ false).bind fun t _ ht => .pure (ht.plain.inside.imp id fun hl => ⟨?_, hl⟩)
    simpa using hname.word hword
  | false =>
    refine (h.full _ false).bind fun t _ ht => ?_
    refine .pass (forward_accept _) fun optional _ => .pure ?_
    exact ht.plain.inside.imp id fun hl => ⟨by simp, hl⟩

theorem yields_tuple : Yields source c (Parser.tuple n ty) fun t _ => t.Fits 0 i := by
  refine .expect fun _ => ?_
  refine (yields_commaList (fun _ => yields_tupleElement hs h) n).bind fun es _ hes => ?_
  exact .expect fun _ => .pure ⟨Nat.le_refl 0, fits_elements hes⟩

theorem yields_arrowType : Yields source c (Parser.arrowType n ty i) fun r _ =>
    Fits i (fun s => r.1.clear s) r.1.Settled r.1.Legible ∧ r.2.Fits 4 i := by
  refine (yields_signature hs h).bind fun sig _ hsig => .expect fun _ => ?_
  exact (yields_result hs h).bind fun result _ hresult => .pure ⟨hsig, hresult⟩

theorem yields_functionOrParens :
    Yields source c (Parser.functionOrParens n ty i) fun t _ => t.Fits 0 i := by
  obtain ⟨b, hb⟩ : ∃ b, Parser.atFunction c = .ok (b, c) := ⟨_, rfl⟩
  refine .ask hb ?_
  cases b with
  | true => exact (yields_arrowType hs h).bind fun r _ hr => .pure (.function hr.1 hr.2)
  | false =>
    refine .expect fun _ => (h.full _ false).bind fun t _ ht => .expect fun _ => .pure ?_
    exact ⟨Nat.le_refl 0, ht.plain.inside⟩

omit h in
/-- A type that is one token. -/
theorem yields_single (t : Ty) (hrank : t.rank = 0) (hclear : ∀ s, t.clear s = true)
    (ht : (c.kindAt 0).Alone → t.Legible) :
    Yields source c (Parser.advance >>= fun _ => pure t) fun t _ => t.Fits 0 i :=
  .within fun hc => .advance (.pure (.leaf hrank hclear fun _ => ht (hc.alone hs)))

theorem yields_keywordType (k : Keyword) : Yields source c (Parser.keywordType n ty i k) fun t _ =>
    t.Fits 0 i ∧ (k = .symbolKw → t.startsSymbol = true) := by
  unfold Parser.keywordType
  split
  · exact (yields_single hs (.booleanLiteral true) rfl (fun _ => rfl) fun _ => trivial).mono
      fun _ _ ht => ⟨ht, by simp⟩
  · exact (yields_single hs (.booleanLiteral false) rfl (fun _ => rfl) fun _ => trivial).mono
      fun _ _ ht => ⟨ht, by simp⟩
  · exact (yields_single hs .this rfl (fun _ => rfl) fun _ => trivial).mono
      fun _ _ ht => ⟨ht, by simp⟩
  · exact (yields_typeQuery hs h).mono fun t _ ht => ⟨ht, by simp⟩
  · exact .advance (.map ((h.operand _ i).mono fun t _ ht => ⟨ht.1.keyOf, by simp⟩))
  · refine .advance (.map ((h.operand _ i).mono fun t _ ht => ?_))
    exact ⟨ht.1.operator .readonly (by simp), by simp⟩
  · refine .advance (.map ((yields_identifier hs).mono fun name _ hname => ?_))
    exact ⟨.leaf rfl (fun _ => rfl) fun _ => hname.1, by simp⟩
  · exact (yields_imported hs h).mono fun t _ ht => ⟨ht.1, by simp⟩
  · refine .advance ((yields_arrowType hs h).bind fun r _ hr => .pure ?_)
    exact ⟨.constructor hr.1 hr.2 false, by simp⟩
  · refine .peekAt 1 fun next _ => ?_
    split
    · refine .advance (.advance ((yields_arrowType hs h).bind fun r _ hr => .pure ?_))
      exact ⟨.constructor hr.1 hr.2 true, by simp⟩
    · exact .fail
  · split
    · next p hp =>
      have hkey : p.keyword = k := TyReader.Faithful.keyword_of_ofKeyword? hp
      refine .advance (.pure ⟨.leaf rfl (fun _ => rfl) fun _ => trivial, ?_⟩)
      rintro rfl
      cases p <;> first | rfl | cases hkey
    · exact .fail

omit h in
theorem yields_negativeNumber : Yields source c Parser.negativeNumber fun t _ => t.Fits 0 i := by
  refine .advance (.peek fun k hk => ?_)
  split
  · next text =>
    refine yields_single hs _ rfl (fun _ => rfl) fun ha => .inr ⟨text, ?_, rfl⟩
    rwa [hk] at ha
  · exact .fail

theorem yields_symbolType (s : Symbol) :
    Yields source c (Parser.symbolType n ty i s) fun t _ => t.Fits 0 i := by
  unfold Parser.symbolType
  split
  · exact yields_negativeNumber hs
  · exact yields_functionOrParens hs h
  · exact yields_mappedOrObject hs h
  · exact yields_tuple hs h
  · exact (yields_arrowType hs h).bind fun r _ hr => .pure (.function hr.1 hr.2)
  · exact .fail

theorem yields_primary : Yields source c (Parser.primary n ty i) fun t _ =>
    t.Fits 0 i ∧ (c.kindAt 0 = .keyword .symbolKw → t.startsSymbol = true) := by
  refine .peek fun k hk => ?_
  rw [hk]
  split
  · next name =>
    refine .peekAt 1 fun next hnext => ?_
    split
    · next hunique =>
      refine .advance (.map ((h.operand _ i).mono fun t _ ht => ⟨?_, by simp⟩))
      refine ht.1.operator .unique fun _ => ht.2 ?_
      rw [Cursor.kindAt_advance, hnext]
      exact hunique.2
    · exact (yields_namedType hs h (by rw [hk]; rfl)).mono fun t _ ht => ⟨ht, by simp⟩
  · next s =>
    exact (yields_single hs (.stringLiteral s) rfl (fun _ => rfl) fun _ => trivial).mono
      fun _ _ ht => ⟨ht, by simp⟩
  · next text =>
    refine (yields_single hs (.numberLiteral text) rfl (fun _ => rfl) fun ha => .inl ?_).mono
      fun _ _ ht => ⟨ht, by simp⟩
    rwa [hk] at ha
  · next text =>
    refine (yields_single hs (.template text) rfl (fun _ => rfl) fun ha => ?_).mono
      fun _ _ ht => ⟨ht, by simp⟩
    rwa [hk] at ha
  · next k =>
    exact (yields_keywordType hs h k).mono fun t _ ht => ⟨ht.1, fun hs => ht.2 (by simpa using hs)⟩
  · next s => exact (yields_symbolType hs h s).mono fun t _ ht => ⟨ht, by simp⟩
  · exact .fail

/-! ## Operators -/

omit hs in
/-- The brackets behind a type. -/
theorem yields_brackets (k : Nat) {t : Ty} (ht : t.Fits 0 i) :
    Yields source c (Parser.brackets ty k t) fun t' _ =>
      t'.Fits 0 i ∧ (t.startsSymbol = true → t'.startsSymbol = true) := by
  have hsymbol {t : Ty} (ht : t.startsSymbol = true) :
      (!t.looserThanPostfix && t.startsSymbol) = true := by
    rw [Ty.startsSymbol_looser ht, ht]
    rfl
  induction k generalizing c t with
  | zero => exact .fail
  | succ k ih =>
    refine .accept (fun _ => .accept (fun _ => ?_) fun _ => ?_) fun _ => .pure ⟨ht, id⟩
    · exact (ih ht.array).mono fun t' _ ht' => ⟨ht'.1, fun ht => ht'.2 (hsymbol ht)⟩
    · refine (h.full _ false).bind fun index _ hindex => .expect fun _ => ?_
      exact (ih (ht.indexAccess hindex)).mono fun t' _ ht' => ⟨ht'.1, fun ht => ht'.2 (hsymbol ht)⟩

theorem yields_postfixed : Yields source c (Parser.postfixed n ty i) fun t _ =>
    t.Fits 0 i ∧ (c.kindAt 0 = .keyword .symbolKw → t.startsSymbol = true) :=
  (yields_primary hs h).bind fun _ _ ht => (yields_brackets h n ht.1).mono fun _ _ ht' =>
    ⟨ht'.1, fun hk => ht'.2 (ht.2 hk)⟩

theorem yields_intersected : Yields source c (Parser.intersected n ty i) fun t _ => t.Fits 1 i := by
  refine .pass (forward_accept _) fun _ _ => ?_
  refine (yields_sepBy1_all (fun _ => (yields_postfixed hs h).mono fun _ _ ht => ht.1) n).bind ?_
  refine fun ts _ hts => .pure ?_
  refine .combined (fun t => t.looserThanUnion || t.isUnion) hts.1 hts.2
    (fun _ => rfl) (fun ts hlen hall => ?_) (fun _ _ => rfl) fun _ => id
  rw [Ty.Legible, legibleTys_iff]
  exact ⟨hlen, fun t ht => Ty.isIntersection_of_rank (hall t ht).1,
    fun t ht => ⟨Ty.isPredicate_of_rank (by have := (hall t ht).1; omega), (hall t ht).2⟩⟩

theorem yields_united : Yields source c (Parser.united n ty i) fun t _ => t.Fits 2 i := by
  refine .pass (forward_accept _) fun _ _ => ?_
  refine (yields_sepBy1_all (fun _ => yields_intersected hs h) n).bind fun ts _ hts => .pure ?_
  refine .combined Ty.looserThanUnion hts.1 hts.2 (fun _ => rfl)
    (fun ts hlen hall => ?_) (fun _ _ => rfl) fun _ => id
  rw [Ty.Legible, legibleTys_iff]
  exact ⟨hlen, fun t ht => Ty.isUnion_of_rank (hall t ht).1,
    fun t ht => ⟨Ty.isPredicate_of_rank (by have := (hall t ht).1; omega), (hall t ht).2⟩⟩

theorem yields_conditional {check : Ty} (hcheck : check.Fits 2 false) :
    Yields source c (Parser.conditional n ty check) fun t _ => t.Fits 3 false := by
  refine (yields_united hs h).bind fun super _ hsuper => .expect fun _ => ?_
  refine (h.full _ false).bind fun yes _ hyes => .expect fun _ => ?_
  exact (h.full _ false).bind fun no _ hno => .pure (hcheck.conditional hsuper hyes hno)

theorem yields_full : Yields source c (Parser.full n ty i) fun t _ => t.Fits 3 i := by
  refine (yields_united hs h).bind fun t _ ht => ?_
  cases i with
  | true => exact .pure (ht.mono (by decide))
  | false =>
    refine .accept (fun _ => yields_conditional hs h ht) fun _ => .pure (ht.mono (by decide))

end

/-- **Every type of a regular source fits where it was read.** -/
theorem fitting_readTy (hs : Regular source) (n : Nat) : (Parser.readTy n).Fitting source := by
  induction n with
  | zero => exact ⟨fun _ _ => .fail, fun _ _ => .fail⟩
  | succ n ih => exact ⟨fun _ _ => yields_full hs ih, fun _ _ => yields_postfixed hs ih⟩

end Ambient
