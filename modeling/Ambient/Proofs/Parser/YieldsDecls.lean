import Ambient.Proofs.Parser.ForwardDecls
import Ambient.Proofs.Parser.YieldsTypes
import Ambient.Proofs.Tree.RereadDecl

/-!
# Declarations within a source

What is read of a regular source is legible if it is settled, and it is read back: no conditional
type is ever read where one would not be taken up when it is printed. There is one lemma for each
part of the grammar, over the readers for the types and the bodies inside of it, and the bound on
nesting ties the knot (`yields_readBlock`, `yields_file`).
-/

namespace Ambient

variable {source : String} {c : Cursor} {n : Nat} {ty : TyReader} {doc : Option String}

/-- What is known of a member of a class without its documentation. -/
def ClassMemberShape.Fits (m : ClassMemberShape) : Prop :=
  Ambient.Fits false (fun _ => m.clear) m.Settled m.Legible

/-- What is known of an item. -/
def Item.Fits (i : Item) : Prop :=
  Ambient.Fits false (fun _ => i.clear) i.Settled i.Legible

theorem fits_items {is : List Item} (h : ∀ i ∈ is, i.Fits) :
    Fits false (fun _ => clearItems is) (settledItems is) (legibleItems is) := by
  simpa only [clearItems_eq_all, settledItems_iff, legibleItems_iff] using
    Fits.all (f := fun _ => Item.clear) h

theorem fits_doc (h : ∀ d ∈ doc, TidyDoc d) :
    Fits false (fun _ => true) (settledDoc doc) (legibleDoc? doc) where
  clear _ _ := rfl
  legible hs d hd := (h d hd).legible (hs d hd)

theorem yields_initializer (hs : Regular source) :
    Yields source c (Parser.after? .eq Parser.expression) fun e _ =>
      Fits false (fun _ => true) (settledInitializer e) (legibleInitializer e) := by
  refine (Yields.after? fun _ => yields_expression hs).mono fun e _ he => ⟨fun _ _ => rfl, ?_⟩
  intro hsettled s hs
  obtain rfl : e = some s := hs
  exact (he s rfl).2 hsettled

section

variable (hs : Regular source) (h : ty.Fitting source) (hdoc : ∀ d ∈ doc, TidyDoc d)
include hs

/-! ## Functions, interfaces and type aliases -/

include h hdoc in
theorem yields_function : Yields source c (Parser.function n ty doc) fun f _ =>
    Fits false (fun _ => f.clear) f.Settled f.Legible := by
  refine .expect fun _ => (yields_identifier hs).bind fun name _ hname => ?_
  refine (yields_signature hs h).bind fun sig _ hsig => (yields_result? hs h).bind fun o _ ho => ?_
  refine .pass (forward_accept _) fun _ _ => .pure ?_
  exact ((fits_doc hdoc).and (hsig.and ho)).inside.imp (fun hs => ⟨hs.doc, hs.sig, hs.result⟩)
    fun hl => ⟨hname.1, hl.1, hl.2.1, hl.2.2⟩

omit hs in
include h in
theorem yields_tyListAfter (k : Keyword) : Yields source c (Parser.tyListAfter n ty k) fun ts _ =>
    Fits false (fun _ => clearTys ts) (settledTys ts) (legibleTys ts) := by
  refine (Yields.after? fun _ => yields_sepBy1_all (fun c => h.full c false) n).bind ?_
  refine fun o _ ho => .pure (fits_tys fun t ht => ?_)
  cases o with
  | none => simp at ht
  | some ts =>
    obtain ⟨-, -, hts⟩ := ho ts rfl
    exact hts t ht

include h hdoc in
theorem yields_interface : Yields source c (Parser.interface n ty doc) fun i _ =>
    Fits false (fun _ => i.clear) i.Settled i.Legible := by
  refine .expect fun _ => (yields_identifier hs).bind fun name _ hname => ?_
  refine (yields_typeParams hs h).bind fun typeParams _ htypeParams => ?_
  refine (yields_tyListAfter h .extendsKw).bind fun supers _ hsupers => ?_
  refine (yields_members (i := false) hs h).bind fun members _ hmembers => .pure ?_
  exact ((fits_doc hdoc).and (htypeParams.and (hsupers.and hmembers))).inside.imp
    (fun hs => ⟨hs.doc, hs.typeParams, hs.supers, hs.members⟩)
    fun hl => ⟨hname.1, hl.1, hl.2.1, hl.2.2.1, hl.2.2.2⟩

include h hdoc in
theorem yields_typeAlias : Yields source c (Parser.typeAlias n ty doc) fun t _ =>
    Fits false (fun _ => t.clear) t.Settled t.Legible := by
  refine .expect fun _ => (yields_identifier hs).bind fun name _ hname => ?_
  refine (yields_typeParams hs h).bind fun typeParams _ htypeParams => .expect fun _ => ?_
  refine (h.full _ false).bind fun t _ ht => ?_
  refine .pass (forward_accept _) fun _ _ => .pure ?_
  exact ((fits_doc hdoc).and (htypeParams.and ht.plain)).inside.imp
    (fun hs => ⟨hs.doc, hs.typeParams, hs.ty⟩)
    fun hl => ⟨hname.1, hl.1, hl.2.1, hl.2.2.1, hl.2.2.2⟩

/-! ## Classes -/

include h

theorem yields_classConstructor (v : Visibility) :
    Yields source c (Parser.classConstructor n ty v) fun m _ => m.Fits := by
  refine .advance ((yields_params hs h).bind fun r _ hr => ?_)
  exact .pass forward_endMember fun _ _ => .pure hr.2.inside

/-- A property or method. A method with the name of the constructor is the corner. -/
theorem yields_namedClassMember (hat : Parser.atIndexSignature c = .ok (false, c))
    (w : ClassMemberWords) :
    Yields source c (Parser.namedClassMember n ty w) fun o _ => ∀ m ∈ o, m.Fits := by
  refine (yields_memberName? hs).bind fun o c' ho => ?_
  cases o with
  | none => exact .pure_none
  | some name =>
  have hname := ho name rfl
  have hproperty : PropertyName name := ⟨hname.memberName, hname.isIndexLike_eq_false hat⟩
  refine .pass (forward_accept _) fun optional _ => ?_
  refine .pass (forward_accept _) fun _ c'' => ?_
  refine .ask (show Parser.atSignature c'' = .ok (_, c'') from rfl) ?_
  split
  · refine (yields_signature hs h).bind fun sig _ hsig => ?_
    refine (yields_result? hs h).bind fun result _ ho => ?_
    refine .pass forward_endMember fun _ _ => .pure_some ?_
    have hfits := hsig.and ho
    exact ⟨fun _ _ => hfits.clear false id,
      fun hsettled => ⟨hproperty, hsettled.1, hfits.legible hsettled.2⟩⟩
  · refine (Yields.after? fun _ => h.full _ false).bind fun type _ htype => ?_
    refine .pass (forward_after? _ forward_expression) fun _ _ => ?_
    refine .pass forward_endMember fun _ _ => .pure_some ?_
    exact (fits_opt fun t ht => (htype t ht).2).inside.imp id fun hl => ⟨hproperty, hl⟩

theorem yields_classMemberShape :
    Yields source c (Parser.classMemberShape n ty) fun o _ => ∀ m ∈ o, m.Fits := by
  have hwords : Yields source c (fun c => .ok ((classMemberWords {} c.rest).1,
      { c with rest := (classMemberWords {} c.rest).2 })) fun _ _ => True :=
    .scan (F := classMemberWords {}) (classMemberWords_suffix {} c.rest) trivial
  refine hwords.bind fun w c _ => .peek fun k₀ _ => .peekAt 1 fun k₁ _ => ?_
  split
  · exact .map_some (yields_classConstructor hs h _)
  obtain ⟨b, hat⟩ : ∃ b, Parser.atIndexSignature c = .ok (b, c) := ⟨_, rfl⟩
  refine .ask hat ?_
  cases b with
  | true =>
    exact (yields_indexSignature hs h hat _ _).bind fun sig _ hsig => .pure_some hsig.2
  | false =>
    refine .ask (show Parser.atAccessor c = .ok (_, c) from rfl) ?_
    split
    · exact (yields_accessor hs h _).bind fun a _ ha => .pure_some ha.2
    · exact yields_namedClassMember hs h hat w

theorem yields_classMember : Yields source c (Parser.classMember n ty) fun o _ =>
    ∀ m ∈ o, Fits false (fun _ => m.clear) m.Settled m.Legible := by
  refine .peekDoc fun doc hdoc => .accept (fun _ => .pure_none) fun _ => ?_
  refine (yields_classMemberShape hs h).bind fun o _ ho => .pure ?_
  simp only [Option.mem_map, forall_exists_index, and_imp, forall_apply_eq_imp_iff₂]
  intro shape hshape
  exact ((fits_doc hdoc).and (ho shape hshape)).imp (fun hs => ⟨hs.doc, hs.shape⟩)
    fun hl => ⟨hl.1, hl.2⟩

include hdoc in
theorem yields_classDecl (isAbstract : Bool) :
    Yields source c (Parser.classDecl n ty doc isAbstract) fun x _ =>
      Fits false (fun _ => x.clear) x.Settled x.Legible := by
  refine .expect fun _ => (yields_identifier hs).bind fun name _ hname => ?_
  refine (yields_typeParams hs h).bind fun typeParams _ htypeParams => ?_
  refine (Yields.after? fun _ => h.full _ false).bind fun super _ hsuper => ?_
  refine (yields_tyListAfter h .implementsKw).bind fun interfaces _ hinterfaces => ?_
  refine .expect fun _ => ?_
  refine (yields_itemsUntil (fun _ => yields_classMember hs h) n).bind fun members _ hmembers => ?_
  refine .expect fun _ => .pure ?_
  have hsuper := fits_opt fun t ht => (hsuper t ht).2
  have hall := Fits.all (f := fun _ => ClassMember.clear) hmembers
  exact ((fits_doc hdoc).and (htypeParams.and (hsuper.and (hinterfaces.and hall)))).inside.imp
    (fun hs => ⟨hs.doc, hs.typeParams, hs.super, hs.interfaces, hs.members⟩)
    fun hl => ⟨hname.1, hl.1, hl.2.1, hl.2.2.1, hl.2.2.2.1, hl.2.2.2.2⟩

/-! ## Enumerations and variables -/

omit h in
theorem yields_enumMember : Yields source c Parser.enumMember fun m _ =>
    Fits false (fun _ => true) m.Settled m.Legible := by
  refine .peekDoc fun doc hdoc => (yields_propertyName hs).bind fun name _ hname => ?_
  refine (yields_initializer hs).bind fun e _ he => .pure ?_
  exact ((fits_doc hdoc).and he).imp (fun hs => ⟨hs.doc, hs.initializer⟩)
    fun hl => ⟨hname.memberName, hl.1, hl.2⟩

omit h in
include hdoc in
theorem yields_enum (isConst : Bool) : Yields source c (Parser.enum n doc isConst) fun e _ =>
    Fits false (fun _ => true) e.Settled e.Legible := by
  refine .expect fun _ => (yields_identifier hs).bind fun name _ hname => .expect fun _ => ?_
  refine (yields_commaList (fun _ => yields_enumMember hs) n).bind fun members _ hmembers => ?_
  refine .expect fun _ => .pure ⟨fun _ _ => rfl, fun hs => ⟨hname.1, ?_, fun m hm => ?_⟩⟩
  · exact (fits_doc hdoc).legible hs.doc
  · exact (hmembers m hm).legible (hs.members m hm)

theorem yields_declarator : Yields source c (Parser.declarator ty) fun d _ =>
    (∃ c', NameBetween c d.name c') ∧ Fits false (fun _ => d.clear) d.Settled d.Legible := by
  refine (yields_propertyName hs).bind fun name c' hname => ?_
  refine (Yields.after? fun _ => h.full _ false).bind fun type _ htype => ?_
  refine (yields_initializer hs).bind fun e _ he => .pure ⟨⟨c', hname⟩, ?_⟩
  have hty := fits_opt fun t ht => (htype t ht).2
  exact ⟨fun _ _ => hty.clear false id, fun hs =>
    ⟨hname.memberName, hty.legible hs.ty, he.legible hs.initializer⟩⟩

include hdoc in
/-- Variables. The first name behind the word `const` is not `enum`, or that would be looked for
first. -/
theorem yields_variableStatement {kind : VariableKind}
    (hconst : kind = .const → c.kindAt 1 ≠ .keyword .enumKw) :
    Yields source c (Parser.variableStatement n ty doc kind) fun v _ =>
      Fits false (fun _ => v.declarators.all Declarator.clear) v.Settled v.Legible := by
  refine .advance ((yields_sepBy1 (fun _ => yields_declarator hs h) n).bind fun ds _ hds => ?_)
  refine .pass (forward_accept _) fun _ _ => .pure ?_
  obtain ⟨⟨d, hhead, ⟨c', hname⟩, -⟩, hds⟩ := hds
  have hall : ∀ d ∈ ds, Fits false (fun _ => d.clear) d.Settled d.Legible :=
    fun d hd => (hds d hd).elim fun _ h => h.2
  refine ⟨(Fits.all (f := fun _ => Declarator.clear) hall).clear, fun hs => ⟨?_, ?_, ?_, ?_⟩⟩
  · exact (fits_doc hdoc).legible hs.doc
  · exact fun d hd => (hall d hd).legible (hs.declarators d hd)
  · rintro rfl
    cases hhead
  · intro hkind d' hd' henum
    obtain rfl : d' = d := Option.some.inj (hd'.symm.trans hhead)
    obtain ⟨hk, -⟩ := hname.keyword (w := .enumKw) henum
    rw [Cursor.kindAt_advance] at hk
    exact hconst hkind hk

/-! ## Export statements -/

omit h in
theorem yields_exportedName : Yields source c Parser.exportedName fun r _ =>
    MemberName r.1 ∧ ∀ o ∈ r.2, MemberName o := by
  refine .pass (forward_accept _) fun _ _ => ?_
  refine (yields_propertyName hs).bind fun name _ hname => ?_
  refine (Yields.after? fun _ => (yields_propertyName hs).mono fun _ _ h => h.memberName).bind ?_
  exact fun outside _ ho => .pure ⟨hname.memberName, fun o hm => (ho o hm).2⟩

omit h in
/-- A list of names. The name `type` is the corner. -/
theorem yields_exportedNames : Yields source c (Parser.exportedNames n) fun e _ =>
    (Item.exportStatement e).Fits := by
  refine .expect fun _ => ?_
  refine (yields_commaList (fun _ => yields_exportedName hs) n).bind fun names _ hnames => ?_
  have hnamed : (Item.exportStatement (.named names)).Fits :=
    ⟨fun _ _ => rfl, fun hs x hx => ⟨⟨(hnames x hx).1, hs x hx⟩, (hnames x hx).2⟩⟩
  have hbehind (c : Cursor) : Yields source c (do
      let _ ← Parser.accept .semicolon
      pure (Export.named names)) fun e _ => (Item.exportStatement e).Fits :=
    .pass (forward_accept _) fun _ _ => .pure hnamed
  exact .expect fun _ => .accept (fun _ => .advance (hbehind _)) fun _ => hbehind _

/-! ## Items -/

variable {block : Parser (List Item)} (hblock : ∀ c, Yields source c block fun is _ =>
  Fits false (fun _ => clearItems is) (settledItems is) (legibleItems is))

omit h in
include hdoc hblock in
theorem yields_namespaceBody :
    Yields source c (Parser.namespaceBody block doc) fun i _ => i.Fits := by
  refine (yields_dottedName hs).bind fun name _ hname => (hblock _).bind fun is _ his => .pure ?_
  exact ((fits_doc hdoc).and his).imp id fun hl => ⟨hname.1, hl⟩

omit hs h in
include hblock in
theorem yields_ambientModule : Yields source c (Parser.ambientModule block) fun i _ => i.Fits := by
  refine .expect fun _ => .peek fun k _ => ?_
  split
  · refine .advance (.accept (fun _ => .pure ⟨fun _ _ => rfl, fun _ => trivial⟩) fun _ => ?_)
    exact (hblock _).bind fun is _ his => .pure his
  · exact .fail

include hdoc hblock

theorem yields_keywordItem (k : Keyword) :
    Yields source c (Parser.keywordItem n ty block doc k (c.kindAt 1)) fun o _ =>
      ∀ i ∈ o, i.Fits := by
  unfold Parser.keywordItem
  split
  · exact (yields_function hs h hdoc).bind fun f _ hf => .pure_some hf
  · exact (yields_interface hs h hdoc).bind fun i _ hi => .pure_some hi
  · exact (yields_classDecl hs h hdoc false).bind fun x _ hx => .pure_some hx
  · refine .advance ?_
    split
    · exact (yields_classDecl hs h hdoc true).bind fun x _ hx => .pure_some hx
    · exact .pure_none
  · exact (yields_enum hs hdoc false).bind fun e _ he => .pure_some he
  · split
    · exact .advance ((yields_enum hs hdoc true).bind fun e _ he => .pure_some he)
    · next hnext =>
      exact (yields_variableStatement hs h hdoc fun _ => hnext).bind fun v _ hv => .pure_some hv
  · exact (yields_variableStatement hs h hdoc (by simp)).bind fun v _ hv => .pure_some hv
  · exact (yields_variableStatement hs h hdoc (by simp)).bind fun v _ hv => .pure_some hv
  · split
    · exact (yields_typeAlias hs h hdoc).bind fun t _ ht => .pure_some ht
    · exact .advance .pure_none
  · refine .advance ?_
    exact (yields_namespaceBody hs hdoc hblock).bind fun i _ hi => .pure_some hi
  · split
    · exact (yields_ambientModule hblock).bind fun i _ hi => .pure_some hi
    · refine .advance ?_
      exact (yields_namespaceBody hs hdoc hblock).bind fun i _ hi => .pure_some hi
  · exact .pass forward_statement fun _ _ => .pure_none
  · exact .advance .pure_none

theorem yields_plainItem (exported : Bool) :
    Yields source c (Parser.plainItem n ty block doc exported) fun o _ => ∀ i ∈ o, i.Fits := by
  refine .peekAt 1 fun next hnext => .peek fun k _ => ?_
  subst hnext
  split
  · exact yields_keywordItem hs h hdoc hblock _
  · refine .advance ?_
    split
    · exact (hblock _).bind fun is _ his => .pure_some his
    · exact .pure_none
  · split
    · exact (yields_exportedNames hs).bind fun e _ he => .pure_some he
    · exact .advance .pure_none
  · exact .advance .pure_none

theorem yields_exportedItem :
    Yields source c (Parser.exportedItem n ty block doc) fun o _ => ∀ i ∈ o, i.Fits := by
  refine .accept (fun _ => ?_) fun _ => ?_
  · refine (yields_dottedName hs).bind fun name _ hname => ?_
    exact .pass (forward_accept _) fun _ _ => .pure_some ⟨fun _ _ => rfl, fun _ => hname.1⟩
  refine .peek fun k _ => .peekAt 1 fun next _ => .peekAt 2 fun _ _ => ?_
  split
  · refine .advance ((yields_identifier hs).bind fun name _ hname => ?_)
    exact .pass (forward_accept _) fun _ _ => .pure_some ⟨fun _ _ => rfl, fun _ => hname.1⟩
  · refine .pass (forward_accept _) fun _ _ => .peek fun k _ => ?_
    split
    · exact .pass forward_statement fun _ _ => .pure_none
    · exact yields_plainItem hs h hdoc hblock true

omit hdoc in
theorem yields_item : Yields source c (Parser.item n ty block) fun o _ => ∀ i ∈ o, i.Fits := by
  refine .peekDoc fun doc hdoc => ?_
  have hmodifiers : Yields source c (fun c => .ok ((itemModifiers c.rest).1,
      { c with rest := (itemModifiers c.rest).2 })) fun _ _ => True :=
    .scan (F := itemModifiers) (itemModifiers_suffix c.rest) trivial
  refine hmodifiers.bind fun exported _ _ => ?_
  split
  · exact yields_exportedItem hs h hdoc hblock
  · exact yields_plainItem hs h hdoc hblock false

end

/-! ## Bodies and files -/

variable (hs : Regular source)
include hs

theorem yields_readBlock (n : Nat) (c : Cursor) : Yields source c (Parser.readBlock n) fun is _ =>
    Fits false (fun _ => clearItems is) (settledItems is) (legibleItems is) := by
  induction n generalizing c with
  | zero => exact .fail
  | succ n ih =>
    refine .expect fun _ => ?_
    refine (yields_itemsUntil (fun _ => yields_item hs (fitting_readTy hs _) ih) _).bind ?_
    exact fun is _ his => .expect fun _ => .pure (fits_items his)

theorem yields_file (n : Nat) : Yields source c (Parser.file n) fun f _ =>
    f.clear = true ∧ (f.Settled → f.Legible) := by
  have hblock := yields_readBlock hs n
  refine (yields_itemsUntil (fun _ => yields_item hs (fitting_readTy hs n) hblock) n).bind ?_
  refine fun is _ his => .pure ⟨?_, fun hsettled i hi => ?_⟩
  · exact List.all_eq_true.2 fun i hi => (his i hi).clear false id
  · exact (his i hi).legible (settledItems_iff.1 hsettled i hi)

/-- **What is read of a regular source is read back as it is printed**, and it is legible if it is
settled. -/
theorem Regular.legible {f : File} (h : parse source = .ok f) :
    f.clear = true ∧ (f.Settled → f.Legible) := by
  obtain ⟨⟨g, c⟩, hrun, rfl⟩ : ∃ r, Parser.file ((lex source).tokens.length + 1)
      (lex source).cursor = .ok r ∧ r.1 = f := by
    unfold parse Lexed.parse at h
    cases hrun : Parser.file ((lex source).tokens.length + 1) (lex source).cursor with
    | error e =>
      rw [hrun] at h
      cases h
    | ok r =>
      rw [hrun] at h
      exact ⟨r, rfl, Except.ok.inj h⟩
  exact (yields_file hs _ ⟨rfl, List.suffix_refl _⟩ g c hrun).2

end Ambient
