import Ambient.Proofs.Tree.LegibleDecl
import Ambient.Proofs.Tree.Spelling

/-!
# Printed declarations spell their lexemes

The text that `Item.print` writes for a legible item is cut into the lexemes of the item, at
whatever place and level it stands (`Item.spells`).
-/

namespace Ambient

/-! ## Parts -/

section Parts

variable {next : List Char}

theorem Place.spells_words (p : Place) (runtime : Bool) :
    Spells (p.words runtime) (p.lexemes runtime) next :=
  (Spells.when _ (.fixed rfl)).append (.when _ (.fixed rfl))

theorem Place.undocumented_append (p : Place) (runtime : Bool) {ls : List Lexeme}
    (h : Undocumented ls) : Undocumented (p.lexemes runtime ++ ls) := by
  rw [lexemes, List.append_assoc]
  exact .if_append _ (undocumented_kw _) (.if_append _ (undocumented_kw _) h)

/-- A declaration behind its documentation and the words before it. -/
theorem Spells.placed {s : String} {ls : List Lexeme} {doc : Option String}
    (hs : Spells s ls next) (h : Undocumented ls) (hd : legibleDoc? doc) (p : Place)
    (level : Nat) (runtime : Bool) :
    Spells (printDoc? level doc ++ (Ambient.indent level ++ p.words runtime ++ s))
      (Ambient.documented (doc.map rereadDoc) (p.lexemes runtime ++ ls)) next := by
  have hfront : Spells (Ambient.indent level ++ p.words runtime ++ s)
      ([] ++ p.lexemes runtime ++ ls) next :=
    ((Spells.indent level).append (p.spells_words runtime)).append hs
  rw [List.nil_append] at hfront
  exact (p.undocumented_append runtime h).spells_doc? hfront level hd

/-- A list behind a word. -/
theorem SpellsAll.listAfter {s : String} {l : Lexeme} {ss : List String}
    {lss : List (List Lexeme)} (h : SpellsAll ss lss) (hn : Delimited next)
    (hs : ∀ {next}, Spells s [l] next) :
    Spells (listAfter s ss) (lexemesAfter l lss) next := by
  cases h with
  | nil => exact .nil
  | cons ha h =>
    rw [Ambient.listAfter, lexemesAfter]
    · exact hs.append (SpellsAll.intercalate (.cons ha h) hn ⟨',', rfl, by decide⟩ rfl)
    · simp
    · simp

theorem Delimited.listAfter (hn : Delimited next) {s : String}
    (hs : ∃ d ∈ s.toList.head?, d ∈ delimiters) (ss : List String) :
    Delimited ((Ambient.listAfter s ss).toList ++ next) := by
  cases ss with
  | nil => exact hn
  | cons t ss =>
    rw [Ambient.listAfter, String.toList_append, List.append_assoc]
    · exact .fixed hs
    · simp

/-- What can stand behind an initializer is no part of a longer symbol. -/
theorem Initializer.spells {s : String} (h : Initializer s) (hn : Delimited next)
    (he : next.head? ≠ some '>') : Spells s (lexemesOf s) next := by
  obtain ⟨ps, hkept, -, -⟩ := h
  exact hkept.spells_delimited hn fun _ _ _ => he

theorem spells_initializer {e : Option String} (h : legibleInitializer e) (hn : Delimited next)
    (he : next.head? ≠ some '>') :
    Spells (e.elim "" (" = " ++ ·)) (initializerLexemes e) next := by
  cases e with
  | none => exact .nil
  | some s => exact (Spells.fixed rfl).append ((h s rfl).spells hn he)

theorem Delimited.initializer (hn : Delimited next) (e : Option String) :
    Delimited ((e.elim "" (" = " ++ ·)).toList ++ next) := by
  cases e with
  | none => exact hn
  | some s =>
    rw [Option.elim_some, String.toList_append, List.append_assoc]
    exact .fixed ⟨' ', rfl, by decide⟩

end Parts

/-! ## Members of classes -/

theorem ClassMemberShape.undocumented {m : ClassMemberShape} (h : m.Legible) :
    Undocumented m.lexemes := by
  cases m with
  | property name ty optional readonly modifiers =>
    simp only [lexemes, List.append_assoc]
    exact .modifiers_append _ (.if_append _ (undocumented_kw _) h.1.1.undocumented_append)
  | method name optional sig result modifiers =>
    simp only [lexemes, List.append_assoc]
    exact .modifiers_append _ h.1.1.undocumented_append
  | constructor visibility params => cases visibility <;> exact ⟨_, _, rfl, rfl⟩
  | index sig => exact sig.undocumented
  | accessor a => exact a.undocumented

theorem ClassMemberShape.spells (level : Nat) {next : List Char} (hn : Delimited next)
    (m : ClassMemberShape) (h : m.Legible) : Spells (m.print level) m.lexemes next := by
  cases m with
  | property name ty optional readonly modifiers =>
    have ht := hn.printOpt (s := ": ") ⟨':', rfl, by decide⟩ level ty
    exact ((((Spells.modifiers _).append (.when _ (.fixed rfl))).append
      (h.1.1.atom.spells _ (ht.when ⟨'?', rfl, by decide⟩ optional))).append
      (.when _ (.fixed rfl))).append (printOpt_spells level hn (.fixed rfl) ty h.2)
  | method name optional sig result modifiers =>
    have hs : Delimited (sig.print.toList ++ ((printOpt 0 ": " result).toList ++ next)) :=
      sig.delimited_print
    exact ((((Spells.modifiers _).append
      (h.1.1.atom.spells _ (hs.when ⟨'?', rfl, by decide⟩ optional))).append
      (.when _ (.fixed rfl))).append (sig.spells h.2.2.1)).append
      (printResult_spells hn result h.2.2.2)
  | constructor visibility params =>
    refine (((Spells.visibility _).append (.fixed rfl)).append ?_).append (.fixed rfl)
    exact (printParams_spells params h).intercalate (.fixed ⟨')', rfl, by decide⟩)
      ⟨',', rfl, by decide⟩ rfl
  | index sig => exact sig.spells hn h
  | accessor a => exact a.spells hn h

theorem ClassMember.spells (level : Nat) {next : List Char} (m : ClassMember) (h : m.Legible) :
    Spells (m.print level) m.lexemes next := by
  rw [print, lexemes, @String.append_assoc (printDoc? level m.doc)]
  refine Spells.append ?_ (.fixed rfl)
  exact (ClassMemberShape.undocumented h.shape).spells_doc? ((Spells.indent level).append
    (m.shape.spells level (.fixed ⟨';', rfl, by decide⟩) h.shape)) level h.doc

theorem spells_classMembers (level : Nat) {next : List Char} {ms : List ClassMember}
    (h : ∀ m ∈ ms, m.Legible) :
    Spells (String.join (ms.map (·.print level))) (ms.flatMap ClassMember.lexemes) next := by
  induction ms with
  | nil => exact .nil
  | cons m ms ih =>
    rw [List.map_cons, String.join_cons, List.flatMap_cons]
    exact (m.spells level (h m List.mem_cons_self)).append
      (ih fun m hm => h m (List.mem_cons_of_mem _ hm))

/-! ## Declarations -/

theorem Function.spells (p : Place) (level : Nat) {next : List Char} (f : Function)
    (h : f.Legible) :
    Spells (f.print p level) (documented (f.doc.map rereadDoc) (p.lexemes true ++ f.lexemes))
      next := by
  have heq : f.print p level = printDoc? level f.doc ++ (indent level ++ p.words true ++
      ("function " ++ f.name ++ f.sig.print ++ printOpt 0 ": " f.result ++ ";\n")) := by
    simp only [Function.print, String.append_assoc]
  have hfirst : Undocumented f.lexemes := ⟨_, _, rfl, rfl⟩
  rw [heq]
  refine Spells.placed ?_ hfirst h.doc p level true
  exact ((((Spells.fixed rfl).append (h.name.atom.spells _ f.sig.delimited_print)).append
    (f.sig.spells h.sig)).append
    (printResult_spells (.fixed ⟨';', rfl, by decide⟩) f.result h.result)).append (.fixed rfl)

theorem Interface.spells (p : Place) (level : Nat) {next : List Char} (i : Interface)
    (h : i.Legible) :
    Spells (i.print p level) (documented (i.doc.map rereadDoc) (p.lexemes false ++ i.lexemes))
      next := by
  have heq : i.print p level = printDoc? level i.doc ++ (indent level ++ p.words false ++
      ("interface " ++ i.name ++ angled (printTypeParams i.typeParams) ++
        listAfter " extends " (printTys 0 i.supers) ++ " \x7b\n" ++
        String.join (printMemberLines (level + 1) i.members) ++ indent level ++ "\x7d\n")) := by
    simp only [Interface.print, String.append_assoc]
  have hfirst : Undocumented i.lexemes := ⟨_, _, rfl, rfl⟩
  rw [heq]
  refine Spells.placed ?_ hfirst h.doc p level false
  have hbrace {next : List Char} : Delimited (" \x7b\n".toList ++ next) :=
    .fixed ⟨' ', rfl, by decide⟩
  have hsupers {next : List Char} : Delimited ((listAfter " extends " (printTys 0 i.supers)).toList ++
      (" \x7b\n".toList ++ next)) := hbrace.listAfter ⟨' ', rfl, by decide⟩ _
  refine Spells.append (Spells.append_indent level (Spells.append (Spells.append (Spells.append
    (Spells.append (Spells.append (.fixed rfl) ?_) ?_) ?_) (.fixed rfl)) ?_)) (.fixed rfl)
  · exact h.name.atom.spells _ (hsupers.angled _)
  · exact (printTypeParams_spells i.typeParams h.typeParams).angled
  · exact (printTys_spells 0 i.supers h.supers).listAfter hbrace (.fixed rfl)
  · exact printMemberLines_spells (level + 1) i.members h.members

theorem TypeAlias.spells (p : Place) (level : Nat) {next : List Char} (t : TypeAlias)
    (h : t.Legible) :
    Spells (t.print p level) (documented (t.doc.map rereadDoc) (p.lexemes false ++ t.lexemes))
      next := by
  have heq : t.print p level = printDoc? level t.doc ++ (indent level ++ p.words false ++
      ("type " ++ t.name ++ angled (printTypeParams t.typeParams) ++ " = " ++ t.ty.print level ++
        ";\n")) := by
    simp only [TypeAlias.print, String.append_assoc]
  have hfirst : Undocumented t.lexemes := ⟨_, _, rfl, rfl⟩
  rw [heq]
  refine Spells.placed ?_ hfirst h.doc p level false
  have heq {next : List Char} : Delimited (" = ".toList ++ next) := .fixed ⟨' ', rfl, by decide⟩
  exact (((((Spells.fixed rfl).append (h.name.atom.spells _ (heq.angled _))).append
    (printTypeParams_spells t.typeParams h.typeParams).angled).append (.fixed rfl)).append
    (t.ty.spells level (.fixed ⟨';', rfl, by decide⟩) h.ty)).append (.fixed rfl)

theorem Class.spells (p : Place) (level : Nat) {next : List Char} (c : Class) (h : c.Legible) :
    Spells (c.print p level) (documented (c.doc.map rereadDoc) (p.lexemes true ++ c.lexemes))
      next := by
  have heq : c.print p level = printDoc? level c.doc ++ (indent level ++ p.words true ++
      (when c.isAbstract "abstract " ++ "class " ++ c.name ++
        angled (printTypeParams c.typeParams) ++ printOpt 0 " extends " c.super ++
        listAfter " implements " (printTys 0 c.interfaces) ++ " \x7b\n" ++
        String.join (c.members.map (·.print (level + 1))) ++ indent level ++ "\x7d\n")) := by
    simp only [Class.print, String.append_assoc]
  have hfirst : Undocumented c.lexemes := by
    simp only [Class.lexemes, List.append_assoc]
    exact .if_append _ (undocumented_kw _) ⟨_, _, rfl, rfl⟩
  rw [heq]
  refine Spells.placed ?_ hfirst h.doc p level true
  · have hbrace {next : List Char} : Delimited (" \x7b\n".toList ++ next) :=
      .fixed ⟨' ', rfl, by decide⟩
    have hinterfaces {next : List Char} :
        Delimited ((listAfter " implements " (printTys 0 c.interfaces)).toList ++
          (" \x7b\n".toList ++ next)) := hbrace.listAfter ⟨' ', rfl, by decide⟩ _
    refine Spells.append (Spells.append_indent level (Spells.append (Spells.append (Spells.append
      (Spells.append (Spells.append (Spells.append (Spells.append (.when _ (.fixed rfl))
      (.fixed rfl)) ?_) ?_) ?_) ?_) (.fixed rfl)) ?_)) (.fixed rfl)
    · exact h.name.atom.spells _
        ((hinterfaces.printOpt ⟨' ', rfl, by decide⟩ 0 c.super).angled _)
    · exact (printTypeParams_spells c.typeParams h.typeParams).angled
    · exact printOpt_spells 0 hinterfaces (.fixed rfl) c.super h.super
    · exact (printTys_spells 0 c.interfaces h.interfaces).listAfter hbrace (.fixed rfl)
    · exact spells_classMembers (level + 1) h.members

/-! ## Enumerations and variables -/

/-- A member of an enumeration up to the comma behind it. -/
theorem EnumMember.spells (level : Nat) {next : List Char} (hn : Delimited next)
    (he : next.head? ≠ some '>') (m : EnumMember) (h : m.Legible) :
    Spells (printDoc? level m.doc ++ indent level ++ m.name ++
      m.initializer.elim "" (" = " ++ ·)) m.lexemes next := by
  rw [lexemes, @String.append_assoc (printDoc? level m.doc)]
  refine Spells.append ?_ (spells_initializer h.initializer hn he)
  exact h.name.atom.undocumented.spells_doc? ((Spells.indent level).append
    (h.name.atom.spells _ (hn.initializer _))) level h.doc

/-- A member of an enumeration as a line, with a comma unless it is the last one. -/
theorem EnumMember.spells_line (level : Nat) {next : List Char} (comma : Bool) (m : EnumMember)
    (h : m.Legible) :
    Spells (printDoc? level m.doc ++ indent level ++ m.name ++
      m.initializer.elim "" (" = " ++ ·) ++ when comma "," ++ "\n")
      (m.lexemes ++ lexemesIf comma [.sym .comma]) next := by
  have hend : Spells (when comma "," ++ "\n") (lexemesIf comma [.sym .comma] ++ []) next :=
    (Spells.when _ (.fixed rfl)).append (.fixed rfl)
  rw [List.append_nil] at hend
  rw [@String.append_assoc _ (when comma ",")]
  refine (m.spells level ?_ ?_ h).append hend
  · cases comma
    · exact .fixed ⟨'\n', rfl, by decide⟩
    · exact .fixed ⟨',', rfl, by decide⟩
  · cases comma <;> simp [when]

theorem spells_enumMembers (level : Nat) {next : List Char} {ms : List EnumMember}
    (h : ∀ m ∈ ms, m.Legible) :
    Spells (String.join (printEnumMembers level ms)) (separated .comma (ms.map EnumMember.lexemes))
      next := by
  induction ms with
  | nil => exact .nil
  | cons m ms ih =>
    have hm := h m List.mem_cons_self
    have ih' := ih fun m hm => h m (List.mem_cons_of_mem _ hm)
    rw [printEnumMembers, String.join_cons]
    cases ms with
    | nil => simpa [separated, lexemesIf] using (m.spells_line level false hm).append ih'
    | cons m' ms =>
      rw [List.map_cons, List.map_cons, separated, ← List.map_cons]
      exact (m.spells_line level true hm).append ih'

theorem Enum.spells (p : Place) (level : Nat) {next : List Char} (e : Enum) (h : e.Legible) :
    Spells (e.print p level) (documented (e.doc.map rereadDoc) (p.lexemes true ++ e.lexemes))
      next := by
  have heq : e.print p level = printDoc? level e.doc ++ (indent level ++ p.words true ++
      (when e.isConst "const " ++ "enum " ++ e.name ++ " \x7b\n" ++
        String.join (printEnumMembers (level + 1) e.members) ++ indent level ++ "\x7d\n")) := by
    simp only [Enum.print, String.append_assoc]
  have hfirst : Undocumented e.lexemes := by
    simp only [Enum.lexemes, List.append_assoc]
    exact .if_append _ (undocumented_kw _) ⟨_, _, rfl, rfl⟩
  rw [heq]
  refine Spells.placed ?_ hfirst h.doc p level true
  · exact (Spells.append_indent level (((((Spells.when _ (.fixed rfl)).append (.fixed rfl)).append
      (h.name.atom.spells _ (.fixed ⟨' ', rfl, by decide⟩))).append (.fixed rfl)).append
      (spells_enumMembers (level + 1) h.members))).append (.fixed rfl)

theorem Declarator.spells (level : Nat) {next : List Char} (hn : Delimited next)
    (he : next.head? ≠ some '>') (d : Declarator) (h : d.Legible) :
    Spells (d.print level) d.lexemes next := by
  have hi := hn.initializer d.initializer
  exact ((h.name.atom.spells _ (hi.printOpt ⟨':', rfl, by decide⟩ level d.ty)).append
    (printOpt_spells level hi (.fixed rfl) d.ty h.ty)).append
    (spells_initializer h.initializer hn he)

theorem spells_declarators (level : Nat) {next : List Char} (hn : Delimited next)
    (he : next.head? ≠ some '>') {ds : List Declarator} (h : ∀ d ∈ ds, d.Legible) :
    Spells (String.intercalate ", " (ds.map (·.print level)))
      (separated .comma (ds.map Declarator.lexemes)) next := by
  induction ds with
  | nil => exact .nil
  | cons d ds ih =>
    have hd := h d List.mem_cons_self
    cases ds with
    | nil => simpa [separated] using d.spells level hn he hd
    | cons d' ds =>
      have ih' := ih fun d hd => h d (List.mem_cons_of_mem _ hd)
      rw [List.map_cons, List.map_cons, List.map_cons, List.map_cons, separated,
        String.intercalate_cons_cons, ← List.map_cons, ← List.map_cons]
      exact ((d.spells level (.fixed ⟨',', rfl, by decide⟩) (by simp) hd).append
        (.fixed rfl)).append ih'

theorem VariableKind.spells (k : VariableKind) {next : List Char} :
    Spells (k.text ++ " ") [.kw k.keyword] next := by
  cases k <;> exact .fixed rfl

theorem Variables.spells (p : Place) (level : Nat) {next : List Char} (v : Variables)
    (h : v.Legible) :
    Spells (v.print p level) (documented (v.doc.map rereadDoc) (p.lexemes true ++ v.lexemes))
      next := by
  have heq : v.print p level = printDoc? level v.doc ++ (indent level ++ p.words true ++
      (v.kind.text ++ " " ++ String.intercalate ", " (v.declarators.map (·.print level)) ++
        ";\n")) := by
    simp only [Variables.print, String.append_assoc]
  have hfirst : Undocumented v.lexemes := ⟨_, _, rfl, rfl⟩
  rw [heq]
  refine Spells.placed ?_ hfirst h.doc p level true
  exact (v.kind.spells.append (spells_declarators level (.fixed ⟨';', rfl, by decide⟩) (by simp)
    h.declarators)).append (.fixed rfl)

/-! ## Items -/

theorem spells_exportedNames {names : List (String × Option String)}
    (h : (Export.named names).Legible) :
    SpellsAll (names.map fun n => n.1 ++ n.2.elim "" (" as " ++ ·))
      (names.map exportedNameLexemes) := by
  refine List.forall₂_map_left_iff.2 (List.forall₂_map_right_iff.2
    (List.forall₂_same.2 fun n hn next hd => ?_))
  obtain ⟨name, outside⟩ := n
  have hname := (h _ hn).1.1
  cases outside with
  | none => simpa [exportedNameLexemes] using hname.atom.spells _ hd
  | some o =>
    have ho : MemberName o := (h _ hn).2 o rfl
    refine (hname.atom.spells _ ?_).append ((Spells.fixed rfl).append (ho.atom.spells _ hd))
    show Delimited ((" as " ++ o).toList ++ next)
    rw [String.toList_append, List.append_assoc]
    exact .fixed ⟨' ', rfl, by decide⟩

theorem Export.spells {next : List Char} (e : Export) (h : e.Legible) :
    Spells e.print e.lexemes next := by
  have hend {next : List Char} : Delimited (";\n".toList ++ next) := .fixed ⟨';', rfl, by decide⟩
  cases e with
  | assign name =>
    exact ((Spells.fixed rfl).append (DottedPath.atom h |>.spells _ hend)).append (.fixed rfl)
  | default name =>
    exact ((Spells.fixed rfl).append (Binder.atom h |>.spells _ hend)).append (.fixed rfl)
  | named names =>
    cases names with
    | nil => exact .fixed rfl
    | cons n ns =>
      have hnames := spells_exportedNames h
      have heq : print (.named (n :: ns)) = "export \x7b " ++ String.intercalate ", "
          ((n :: ns).map fun n => n.1 ++ n.2.elim "" (" as " ++ ·)) ++ " \x7d;\n" := by
        simp only [print, List.map_cons, listAfter, List.isEmpty_cons, Bool.false_eq_true, if_false,
          String.append_assoc]
        rfl
      rw [heq]
      refine Spells.append (Spells.append (.fixed rfl) ?_) (.fixed rfl)
      exact hnames.intercalate (.fixed ⟨' ', rfl, by decide⟩) ⟨',', rfl, by decide⟩ rfl

theorem spells_moduleHead (name : String) {next : List Char} :
    Spells (moduleHead name) (moduleLexemes name ++ [.sym .lbrace]) next := by
  unfold moduleHead moduleLexemes
  split
  · exact .fixed rfl
  · exact ((Spells.fixed rfl).append (.quote name)).append (.fixed rfl)

mutual

theorem Namespace.spells (p : Place) (level : Nat) {next : List Char} : (n : Namespace) →
    n.Legible → Spells (n.print p level)
      (documented (n.doc.map rereadDoc) (p.lexemes true ++ n.lexemes)) next
  | ⟨name, doc, items⟩, h => by
    rw [Namespace.Legible] at h
    have heq : Namespace.print p level ⟨name, doc, items⟩ = printDoc? level doc ++
        (indent level ++ p.words true ++ ("namespace " ++ name ++ " \x7b\n" ++
          String.join (printBody (level + 1) items) ++ indent level ++ "\x7d\n")) := by
      simp only [Namespace.print, String.append_assoc]
    have hfirst : Undocumented (Namespace.lexemes ⟨name, doc, items⟩) := by
      rw [Namespace.lexemes]
      exact ⟨_, _, rfl, rfl⟩
    rw [heq]
    refine Spells.placed ?_ hfirst h.2.1 p level true
    rw [Namespace.lexemes]
    exact (Spells.append_indent level ((((Spells.fixed rfl).append
      (h.1.atom.spells _ (.fixed ⟨' ', rfl, by decide⟩))).append (.fixed rfl)).append
      (printBody_spells (level + 1) items h.2.2))).append (.fixed rfl)

theorem Decl.spells (p : Place) (level : Nat) {next : List Char} : (d : Decl) → d.Legible →
    Spells (d.print p level)
      (documented (d.doc.map rereadDoc) (p.lexemes d.isRuntime ++ d.lexemes)) next
  | .ns n, h => by
    rw [Decl.Legible] at h
    rw [Decl.print, Decl.lexemes]
    exact n.spells p level h
  | .interface i, h => by
    rw [Decl.Legible] at h
    rw [Decl.print, Decl.lexemes]
    exact i.spells p level h
  | .enum e, h => by
    rw [Decl.Legible] at h
    rw [Decl.print, Decl.lexemes]
    exact e.spells p level h
  | .typeAlias t, h => by
    rw [Decl.Legible] at h
    rw [Decl.print, Decl.lexemes]
    exact t.spells p level h
  | .cls c, h => by
    rw [Decl.Legible] at h
    rw [Decl.print, Decl.lexemes]
    exact c.spells p level h
  | .function f, h => by
    rw [Decl.Legible] at h
    rw [Decl.print, Decl.lexemes]
    exact f.spells p level h
  | .vars v, h => by
    rw [Decl.Legible] at h
    rw [Decl.print, Decl.lexemes]
    exact v.spells p level h

/-- **A printed item spells its lexemes.** -/
theorem Item.spells (p : Place) (level : Nat) {next : List Char} : (i : Item) → i.Legible →
    Spells (i.print p level) (i.lexemes p) next
  | .decl d, h => by
    rw [Item.Legible] at h
    rw [Item.print, Item.lexemes]
    exact d.spells p level h
  | .ambientModule name items, h => by
    rw [Item.Legible] at h
    rw [Item.print, Item.lexemes, ← List.append_assoc, ← List.append_assoc]
    refine Spells.append (Spells.append_indent level (Spells.append ?_
      (printBody_spells (level + 1) items h))) (.fixed rfl)
    exact ((Spells.indent level).append (p.spells_words true)).append (spells_moduleHead name)
  | .exportStatement e, h => by
    rw [Item.Legible] at h
    rw [Item.print, Item.lexemes]
    exact (Spells.indent level).append (e.spells h)

theorem printBody_spells (level : Nat) {next : List Char} : (is : List Item) → legibleItems is →
    Spells (String.join (printBody level is)) (lexemesBody is).flatten next
  | [], _ => .nil
  | i :: is, h => by
    rw [legibleItems] at h
    rw [printBody, lexemesBody, String.join_cons, List.flatten_cons]
    exact (i.spells .body level h.1).append (printBody_spells level is h.2)

end

/-- Items one after the other. -/
theorem spells_items (p : Place) (level : Nat) {next : List Char} {is : List Item}
    (h : ∀ i ∈ is, i.Legible) :
    Spells (printItems p level is) (is.flatMap (Item.lexemes p)) next := by
  rw [printItems]
  induction is with
  | nil => exact .nil
  | cons i is ih =>
    rw [List.map_cons, String.join_cons, List.flatMap_cons]
    exact (i.spells p level (h i List.mem_cons_self)).append
      (ih fun i hi => h i (List.mem_cons_of_mem _ hi))

end Ambient
