import Ambient.Proofs.Tree.Legible

/-!
# Printed types spell their lexemes

The text that `Ty.print` writes for a legible type is cut into the lexemes of the type, on whatever
level it starts (`Ty.spells`).
-/

namespace Ambient

open Text (isSpace)

/-! ## Parts -/

section Parts

variable {s t : String} {ls : List Lexeme} {next : List Char} {ss : List String}
variable {lss : List (List Lexeme)}

/-- Texts that spell their lexemes in front of delimiters. -/
def SpellsAll (ss : List String) (lss : List (List Lexeme)) : Prop :=
  List.Forall₂ (fun s ls => ∀ next, Delimited next → Spells s ls next) ss lss

theorem Delimited.blank : Delimited (' ' :: next) := fun d hd => by
  rw [← Option.mem_some.1 hd]
  decide

theorem Delimited.when (hn : Delimited next) (hs : ∃ d ∈ s.toList.head?, d ∈ delimiters)
    (c : Bool) : Delimited ((when c s).toList ++ next) := by
  cases c
  · exact hn
  · exact .fixed hs

theorem Delimited.printOpt (hn : Delimited next) (hs : ∃ d ∈ s.toList.head?, d ∈ delimiters)
    (level : Nat) (t : Option Ty) : Delimited ((Ambient.printOpt level s t).toList ++ next) := by
  cases t with
  | none => exact hn
  | some t =>
    rw [Ambient.printOpt, String.toList_append, List.append_assoc]
    exact .fixed hs

theorem Delimited.angled (hn : Delimited next) (ss : List String) :
    Delimited ((Ambient.angled ss).toList ++ next) := by
  cases ss with
  | nil => exact hn
  | cons s ss =>
    rw [Ambient.angled, String.toList_append, String.toList_append, List.append_assoc,
      List.append_assoc]
    · exact .fixed ⟨'<', rfl, by decide⟩
    · simp

theorem Spells.when (c : Bool) (h : Spells s ls next) :
    Spells (when c s) (lexemesIf c ls) next := by
  cases c
  · exact .nil
  · exact h

theorem Spells.parens (c : Bool) (h : ∀ next, Delimited next → Spells s ls next)
    (hn : Delimited next) : Spells (parens c s) (enclosed c ls) next := by
  cases c
  · exact h next hn
  · exact ((Spells.fixed rfl).append (h _ (.fixed ⟨')', rfl, by decide⟩))).append (.fixed rfl)

/-- Texts with a separator between them. -/
theorem SpellsAll.intercalate {sym : Symbol} (h : SpellsAll ss lss) (hn : Delimited next)
    (ht : ∃ d ∈ t.toList.head?, d ∈ delimiters) (hs : fixedLexemes? (pieces t.toList) = some [.sym sym]) :
    Spells (String.intercalate t ss) (separated sym lss) next := by
  induction h with
  | nil => exact .nil
  | cons ha h ih =>
    cases h with
    | nil => simpa [separated] using ha next hn
    | cons hb h =>
      rw [String.intercalate_cons_cons, separated]
      refine Spells.append (Spells.append (ha _ ?_) (.fixed hs)) ih
      exact .fixed ht

theorem SpellsAll.angled (h : SpellsAll ss lss) : Spells (angled ss) (angledLexemes lss) next := by
  cases h with
  | nil => exact .nil
  | cons ha h =>
    rw [Ambient.angled, angledLexemes]
    · exact ((Spells.fixed rfl).append ((SpellsAll.intercalate (.cons ha h)
        (.fixed ⟨'>', rfl, by decide⟩) ⟨',', rfl, by decide⟩ rfl))).append (.fixed rfl)
    · simp
    · simp

theorem Spells.visibility (v : Visibility) : Spells v.print v.lexemes next := by
  cases v <;> exact .fixed rfl

theorem Spells.modifiers (m : MemberModifiers) : Spells m.print m.lexemes next :=
  ((Spells.visibility m.visibility).append (.when _ (.fixed rfl))).append (.when _ (.fixed rfl))

theorem Spells.typeParamModifiers (ms : List TypeParamModifier) :
    Spells (String.join (ms.map fun m => m.text ++ " ")) (ms.map fun m => .kw m.keyword) next := by
  induction ms with
  | nil => exact .nil
  | cons m ms ih =>
    rw [List.map_cons, List.map_cons, String.join_cons]
    show Spells _ ([.kw m.keyword] ++ _) next
    refine .append ?_ ih
    cases m <;> exact .fixed rfl

theorem Spells.indent (level : Nat) : Spells (indent level) [] next :=
  .blank isSpace_of_mem_indent

theorem Spells.append_indent (level : Nat)
    (h : Spells s ls ((Ambient.indent level).toList ++ next)) :
    Spells (s ++ Ambient.indent level) ls next := by
  simpa using h.append (.indent level)

/-! ## Lexemes without documentation -/

/-- No documentation stands before the first lexeme, and there is one. -/
def Undocumented (ls : List Lexeme) : Prop :=
  ∃ l r, ls = l :: r ∧ l.doc = none

theorem Undocumented.append {ms : List Lexeme} (h : Undocumented ls) : Undocumented (ls ++ ms) := by
  obtain ⟨l, r, rfl, hl⟩ := h
  exact ⟨l, r ++ ms, rfl, hl⟩

theorem Undocumented.if_append {ms : List Lexeme} (c : Bool) (h : Undocumented ls)
    (hm : Undocumented ms) : Undocumented (lexemesIf c ls ++ ms) := by
  cases c
  · exact hm
  · exact h.append

theorem undocumented_kw (k : Keyword) : Undocumented [.kw k] := ⟨_, _, rfl, rfl⟩

theorem undocumented_sym (s : Symbol) : Undocumented [.sym s] := ⟨_, _, rfl, rfl⟩

theorem Atom.undocumented (h : Atom s) : Undocumented (lexemesOf s) := by
  obtain ⟨l, r, hl⟩ := List.exists_cons_of_ne_nil h.ne_nil
  exact ⟨l, r, hl, h.doc l (by rw [hl]; rfl)⟩

theorem Undocumented.angled_append {ms : List Lexeme} (lss : List (List Lexeme))
    (h : Undocumented ms) : Undocumented (angledLexemes lss ++ ms) := by
  cases lss with
  | nil => exact h
  | cons l lss => exact ⟨.sym .langle, _, rfl, rfl⟩

theorem Undocumented.modifiers_append {ms : List Lexeme} (m : MemberModifiers)
    (h : Undocumented ms) : Undocumented (m.lexemes ++ ms) := by
  obtain ⟨v, st, ab⟩ := m
  cases v <;> cases st <;> cases ab <;> first | exact ⟨_, _, rfl, rfl⟩ | exact h

theorem Undocumented.documented_none (h : Undocumented ls) : documented none ls = ls := by
  obtain ⟨⟨k, d, g, x⟩, r, rfl, hl⟩ := h
  obtain rfl : d = none := hl
  rfl

theorem Undocumented.spells_doc? (h : Undocumented ls) (hs : Spells s ls next) (level : Nat)
    {doc : Option String} (hd : ∀ d ∈ doc, LegibleDoc d) :
    Spells (printDoc? level doc ++ s) (documented (doc.map rereadDoc) ls) next := by
  cases doc with
  | none =>
    rw [Option.map_none, h.documented_none]
    simpa [printDoc?] using hs
  | some d =>
    obtain ⟨l, r, rfl, hl⟩ := h
    exact hs.documented (hd d rfl) level (by simp) (by simpa using hl)

theorem Signature.undocumented (sig : Signature) : Undocumented sig.lexemes := by
  obtain ⟨typeParams, receiver, params⟩ := sig
  rw [lexemes, List.append_assoc, List.append_assoc]
  exact .angled_append _ (undocumented_sym .lparen).append

/-- A signature starts with a bracket. -/
theorem Signature.delimited_print (sig : Signature) : Delimited (sig.print.toList ++ next) := by
  obtain ⟨typeParams, receiver, params⟩ := sig
  simp only [print, String.toList_append, List.append_assoc]
  exact Delimited.angled (.fixed ⟨'(', rfl, by decide⟩) _

theorem MemberName.undocumented_append {ms : List Lexeme} (h : MemberName s) :
    Undocumented (lexemesOf s ++ ms) :=
  h.atom.undocumented.append

end Parts

theorem IndexSignature.undocumented (sig : IndexSignature) : Undocumented sig.lexemes := by
  obtain ⟨key, keyType, valueType, readonly, isStatic⟩ := sig
  simp only [lexemes, List.append_assoc]
  exact .if_append _ (undocumented_kw _) (.if_append _ (undocumented_kw _) ⟨_, _, rfl, rfl⟩)

theorem Accessor.undocumented (a : Accessor) : Undocumented a.lexemes := by
  obtain ⟨name, kind, params, result, modifiers⟩ := a
  simp only [lexemes, List.append_assoc]
  exact .modifiers_append _ ⟨_, _, rfl, rfl⟩

theorem MemberShape.undocumented {m : MemberShape} (h : m.Legible) : Undocumented m.lexemes := by
  cases m with
  | property name ty optional readonly =>
    rw [Legible] at h
    simp only [lexemes, List.append_assoc]
    exact .if_append _ (undocumented_kw _) h.1.1.undocumented_append
  | method name optional sig result =>
    rw [Legible] at h
    simp only [lexemes, List.append_assoc]
    exact h.1.1.undocumented_append
  | call sig result => exact sig.undocumented.append
  | construct typeParams params result => exact ⟨.kw .newKw, _, rfl, rfl⟩
  | index sig => exact sig.undocumented
  | accessor a => exact a.undocumented

/-! ## Texts of names -/

theorem Query.atom {s : String} (h : Query s) : Atom s := by
  rcases h with h | ⟨h, -⟩
  · exact h.atom
  · exact h

/-- A dot in front of a word is a token of its own. -/
theorem DottedPath.spells_dot {s : String} {next : List Char} (h : DottedPath s) :
    Spells "." [.sym .dot] (s.toList ++ next) := by
  obtain ⟨a, ws, ha, -, rfl⟩ := h
  obtain ⟨k, hs, hk⟩ := ha.word.spelled
  obtain ⟨c, cs, hc, hdot⟩ := hs.ne_dot (Kind.isWord_of_wordText hk)
  refine .token (x := none) (k := .symbol .dot) ⟨'.', [], rfl, ?_⟩ (by simp)
  show Piece.dots ((a ++ trail ws).toList ++ next) = _
  rw [String.toList_append, hc]
  simp [Piece.dots, hdot, Piece.ofSymbol]

theorem Subject.atom {s : String} (h : Subject s) : Atom s := by
  rcases h with h | rfl
  · exact h.atom
  · exact Word.atom (.inr ⟨.thisKw, rfl⟩)

theorem Binder.atom {s : String} (h : Binder s) : Atom s :=
  h.word.atom

/-! ## Types -/

mutual

/-- **A printed type spells its lexemes.** -/
theorem Ty.spells (level : Nat) {next : List Char} (hn : Delimited next) :
    (t : Ty) → t.Legible → Spells (t.print level) t.lexemes next
  -- The parts are put together from left to right. Each is followed by a character that ends it,
  -- which is the first one of the next part.
  | .named name args, h => by
    rw [Ty.Legible] at h
    rw [Ty.print, Ty.lexemes]
    exact (h.1.atom.spells _ (hn.angled _)).append (printTys_spells level args h.2).angled
  | .primitive p, _ => by
    rw [Ty.print, Ty.lexemes, ← Primitive.text_keyword]
    exact .kw p.keyword hn
  | .stringLiteral s, _ => by
    rw [Ty.print, Ty.lexemes]
    exact .quote s
  | .numberLiteral text, h => by
    rw [Ty.Legible] at h
    rw [Ty.print, Ty.lexemes]
    exact h.atom.spells _ hn
  | .booleanLiteral b, _ => by
    rw [Ty.print, Ty.lexemes]
    cases b
    · exact .kw .falseKw hn
    · exact .kw .trueKw hn
  | .union ts, h => by
    rw [Ty.Legible] at h
    rw [Ty.print, Ty.lexemes]
    exact (printOperands_spells level _ ts h.2.2).intercalate hn ⟨' ', rfl, by decide⟩ rfl
  | .intersection ts, h => by
    rw [Ty.Legible] at h
    rw [Ty.print, Ty.lexemes]
    exact (printOperands_spells level _ ts h.2.2).intercalate hn ⟨' ', rfl, by decide⟩ rfl
  | .function sig result, h => by
    rw [Ty.Legible] at h
    rw [Ty.print, Ty.lexemes]
    exact ((sig.spells h.2.1).append (.fixed rfl)).append (result.spells level hn h.2.2)
  | .constructor isAbstract sig result, h => by
    rw [Ty.Legible] at h
    rw [Ty.print, Ty.lexemes]
    exact ((((Spells.when _ (.fixed rfl)).append (.fixed rfl)).append (sig.spells h.1)).append
      (.fixed rfl)).append (result.spells level hn h.2)
  | .object members, h => by
    rw [Ty.Legible] at h
    rw [Ty.print, Ty.lexemes]
    split
    · rename_i he
      rw [List.isEmpty_iff.1 he]
      exact .fixed rfl
    split
    · exact (((Spells.fixed rfl).append (printMemberLines_spells (level + 1) members
        h.2)).append_indent level).append (.fixed rfl)
    · rename_i hd
      exact ((Spells.fixed rfl).append (printMembers_spells level members h.2
        (by simpa using hd))).append (.fixed rfl)
  | .array t, h => by
    rw [Ty.Legible] at h
    rw [Ty.print, Ty.lexemes]
    exact (Spells.parens _ (fun _ hn => t.spells level hn h.2)
      (.fixed ⟨'[', rfl, by decide⟩)).append (.fixed rfl)
  | .tuple es, h => by
    rw [Ty.Legible] at h
    rw [Ty.print, Ty.lexemes]
    exact ((Spells.fixed rfl).append ((printElements_spells level es h).intercalate
      (.fixed ⟨']', rfl, by decide⟩) ⟨',', rfl, by decide⟩ rfl)).append (.fixed rfl)
  | .typeOf value, h => by
    rw [Ty.Legible] at h
    rw [Ty.print, Ty.lexemes]
    exact (Spells.fixed rfl).append (h.atom.spells _ hn)
  | .keyOf t, h => by
    rw [Ty.Legible] at h
    rw [Ty.print, Ty.lexemes]
    exact (Spells.fixed rfl).append (.parens _ (fun _ hn => t.spells level hn h.2) hn)
  | .operator op t, h => by
    rw [Ty.Legible] at h
    rw [Ty.print, Ty.lexemes]
    refine Spells.append ?_ (.parens _ (fun _ hn => t.spells level hn h.2.2) hn)
    cases op <;> exact .fixed rfl
  | .indexAccess object index, h => by
    rw [Ty.Legible] at h
    rw [Ty.print, Ty.lexemes]
    exact (((Spells.parens _ (fun _ hn => object.spells level hn h.1.2)
      (.fixed ⟨'[', rfl, by decide⟩)).append (.fixed rfl)).append
      (index.spells level (.fixed ⟨']', rfl, by decide⟩) h.2.2)).append (.fixed rfl)
  | .conditional check super yes no, h => by
    rw [Ty.Legible] at h
    rw [Ty.print, Ty.lexemes]
    exact ((((((Spells.parens _ (fun _ hn => check.spells level hn h.1.2)
      (.fixed ⟨' ', rfl, by decide⟩)).append (.fixed rfl)).append
      (.parens _ (fun _ hn => super.spells level hn h.2.1.2)
        (.fixed ⟨' ', rfl, by decide⟩))).append (.fixed rfl)).append
      (yes.spells level (.fixed ⟨' ', rfl, by decide⟩) h.2.2.1.2)).append (.fixed rfl)).append
      (no.spells level hn h.2.2.2.2)
  | .mapped key constraint name value readonly optional, h => by
    rw [Ty.Legible] at h
    rw [Ty.print, Ty.lexemes]
    have hsign (m : MappedModifier) {next : List Char} : Spells m.sign m.lexemes next := by
      cases m <;> exact .fixed rfl
    have hr {next : List Char} : Spells (readonly.elim "" (fun m => m.sign ++ "readonly "))
        (readonly.elim [] (fun m => m.lexemes ++ [.kw .readonlyKw])) next := by
      cases readonly with
      | none => exact .nil
      | some m => exact (hsign m).append (.fixed rfl)
    have ho {next : List Char} : Spells (optional.elim "" (fun m => m.sign ++ "?"))
        (optional.elim [] (fun m => m.lexemes ++ [.sym .question])) next := by
      cases optional with
      | none => exact .nil
      | some m => exact (hsign m).append (.fixed rfl)
    refine ((((((((((Spells.fixed rfl).append hr).append (.fixed rfl)).append ?hkey).append
      (.fixed rfl)).append ?hconstraint).append ?hname).append (.fixed rfl)).append ho).append
      (.fixed rfl)).append ?hvalue |>.append (.fixed rfl)
    case hkey => exact h.1.atom.spells _ (.fixed ⟨' ', rfl, by decide⟩)
    case hconstraint =>
      exact constraint.spells level (Delimited.printOpt (.fixed ⟨']', rfl, by decide⟩)
        ⟨' ', rfl, by decide⟩ level name) h.2.1.2
    case hname => exact printOpt_spells level (.fixed ⟨']', rfl, by decide⟩) (.fixed rfl) name h.2.2.1
    case hvalue => exact value.spells level (.fixed ⟨';', rfl, by decide⟩) h.2.2.2.2
  | .infer name, h => by
    rw [Ty.Legible] at h
    rw [Ty.print, Ty.lexemes]
    exact (Spells.fixed rfl).append (h.atom.spells _ hn)
  | .template text, h => by
    rw [Ty.Legible] at h
    rw [Ty.print, Ty.lexemes]
    exact (h.atom (by simp)).spells _ hn
  | .imported module qualifier args, h => by
    rw [Ty.Legible] at h
    rw [Ty.print, Ty.lexemes]
    refine Spells.append (Spells.append (Spells.append (Spells.append (.fixed rfl) (.quote module))
      (.fixed rfl)) ?_) (printTys_spells level args h.2).angled
    cases qualifier with
    | none => exact .nil
    | some q =>
      have hq : DottedPath q := h.1 q rfl
      exact hq.spells_dot.append (hq.atom.spells _ (hn.angled _))
  | .predicate asserts subject ty, h => by
    rw [Ty.Legible] at h
    rw [Ty.print, Ty.lexemes]
    exact ((Spells.when _ (.fixed rfl)).append (h.1.atom.spells _
      (hn.printOpt ⟨' ', rfl, by decide⟩ level ty))).append
      (printOpt_spells level hn (.fixed rfl) ty h.2.2)
  | .parenthesized t, h => by
    rw [Ty.Legible] at h
    rw [Ty.print, Ty.lexemes]
    exact ((Spells.fixed rfl).append (t.spells level (.fixed ⟨')', rfl, by decide⟩) h.2)).append
      (.fixed rfl)
  | .this, _ => by
    rw [Ty.print, Ty.lexemes]
    exact .kw .thisKw hn

theorem printTys_spells (level : Nat) : (ts : List Ty) → legibleTys ts →
    SpellsAll (printTys level ts) (lexemesTys ts)
  | [], _ => .nil
  | t :: ts, h => by
    rw [legibleTys] at h
    rw [printTys, lexemesTys]
    exact .cons (fun _ hn => t.spells level hn h.1.2) (printTys_spells level ts h.2)

theorem printOperands_spells (level : Nat) (loose : Ty → Bool) : (ts : List Ty) → legibleTys ts →
    SpellsAll (printOperands level loose ts) (lexemesOperands loose ts)
  | [], _ => .nil
  | t :: ts, h => by
    rw [legibleTys] at h
    rw [printOperands, lexemesOperands]
    exact .cons (fun _ hn => .parens _ (fun _ hn => t.spells level hn h.1.2) hn)
      (printOperands_spells level loose ts h.2)

theorem printOpt_spells (level : Nat) {next : List Char} (hn : Delimited next) {before : String}
    {l : Lexeme} (hl : ∀ {next}, Spells before [l] next) : (t : Option Ty) → legibleOpt t →
    Spells (printOpt level before t) (lexemesOpt l t) next
  | none, _ => .nil
  | some t, h => by
    rw [legibleOpt] at h
    rw [printOpt, lexemesOpt]
    exact hl.append (t.spells level hn h.2)

theorem Signature.spells {next : List Char} : (sig : Signature) → sig.Legible →
    Spells sig.print sig.lexemes next
  | ⟨typeParams, receiver, params⟩, h => by
    rw [Signature.Legible] at h
    rw [Signature.print, Signature.lexemes]
    refine Spells.append (Spells.append (Spells.append
      (printTypeParams_spells typeParams h.1).angled (.fixed rfl)) ?_) (.fixed rfl)
    exact SpellsAll.intercalate (List.rel_append (printReceiver_spells receiver h.2.1)
      (printParams_spells params h.2.2)) (.fixed ⟨')', rfl, by decide⟩) ⟨',', rfl, by decide⟩ rfl

theorem printReceiver_spells : (t : Option Ty) → legibleOpt t →
    SpellsAll (printReceiver t) (lexemesReceiver t)
  | none, _ => .nil
  | some t, h => by
    rw [legibleOpt] at h
    rw [printReceiver, lexemesReceiver]
    exact .cons (fun _ hn => (Spells.fixed rfl).append (t.spells 0 hn h.2)) .nil

theorem printTypeParams_spells : (ps : List TypeParam) → legibleTypeParams ps →
    SpellsAll (printTypeParams ps) (lexemesTypeParams ps)
  | [], _ => .nil
  | ⟨name, modifiers, constraint, default⟩ :: ps, h => by
    rw [legibleTypeParams, TypeParam.Legible] at h
    rw [printTypeParams, lexemesTypeParams, TypeParam.lexemes]
    refine .cons (fun _ hn => ?_) (printTypeParams_spells ps h.2)
    have hd := hn.printOpt (s := " = ") ⟨' ', rfl, by decide⟩ 0 default
    exact (((Spells.typeParamModifiers modifiers).append
      (h.1.1.atom.spells _ (hd.printOpt ⟨' ', rfl, by decide⟩ 0 constraint))).append
      (printOpt_spells 0 hd (.fixed rfl) constraint h.1.2.2.1)).append
      (printOpt_spells 0 hn (.fixed rfl) default h.1.2.2.2)

theorem printParams_spells : (ps : List Param) → legibleParams ps →
    SpellsAll (printParams ps) (lexemesParams ps)
  | [], _ => .nil
  | ⟨name, ty, optional, rest⟩ :: ps, h => by
    rw [legibleParams, Param.Legible] at h
    rw [printParams, lexemesParams, Param.lexemes]
    refine .cons (fun _ hn => ?_) (printParams_spells ps h.2)
    have ht := hn.printOpt (s := ": ") ⟨':', rfl, by decide⟩ 0 ty
    exact (((Spells.when _ (.fixed rfl)).append
      (h.1.1.atom.spells _ (ht.when ⟨'?', rfl, by decide⟩ optional))).append
      (.when _ (.fixed rfl))).append (printOpt_spells 0 hn (.fixed rfl) ty h.1.2.2)

theorem printElements_spells (level : Nat) : (es : List TupleElement) → legibleElements es →
    SpellsAll (printElements level es) (lexemesElements es)
  | [], _ => .nil
  | ⟨some name, ty, optional, rest⟩ :: es, h => by
    rw [legibleElements, TupleElement.Legible] at h
    rw [printElements, lexemesElements, TupleElement.lexemes]
    refine .cons (fun _ hn => ?_) (printElements_spells level es h.2)
    have hw : Word name := h.1.1 name rfl
    have hc {next : List Char} : Delimited (": ".toList ++ next) := .fixed ⟨':', rfl, by decide⟩
    exact (Spells.when _ (.fixed rfl)).append ((((hw.atom.spells _
      (hc.when ⟨'?', rfl, by decide⟩ optional)).append (.when _ (.fixed rfl))).append
      (.fixed rfl)).append (ty.spells level hn h.1.2.2))
  | ⟨none, ty, optional, rest⟩ :: es, h => by
    rw [legibleElements, TupleElement.Legible] at h
    rw [printElements, lexemesElements, TupleElement.lexemes]
    refine .cons (fun _ hn => ?_) (printElements_spells level es h.2)
    exact (Spells.when _ (.fixed rfl)).append ((ty.spells level
      (hn.when ⟨'?', rfl, by decide⟩ optional) h.1.2.2).append (.when _ (.fixed rfl)))

theorem printMembers_spells (level : Nat) {next : List Char} : (ms : List Member) →
    legibleMembers ms → (∀ m ∈ ms, m.doc = none) →
    Spells (String.join (printMembers level ms)) (lexemesMembers ms).flatten next
  | [], _, _ => .nil
  | ⟨doc, shape⟩ :: ms, h, hd => by
    rw [legibleMembers, Member.Legible] at h
    obtain rfl : doc = none := hd _ List.mem_cons_self
    rw [printMembers, lexemesMembers, String.join_cons, List.flatten_cons, Member.lexemes,
      Option.map_none, (MemberShape.undocumented h.1.2).documented_none]
    exact ((shape.spells level (.fixed ⟨';', rfl, by decide⟩) h.1.2).append (.fixed rfl)).append
      (printMembers_spells level ms h.2 fun m hm => hd m (List.mem_cons_of_mem _ hm))

theorem printMemberLines_spells (level : Nat) {next : List Char} : (ms : List Member) →
    legibleMembers ms →
    Spells (String.join (printMemberLines level ms)) (lexemesMembers ms).flatten next
  | [], _ => .nil
  | ⟨doc, shape⟩ :: ms, h => by
    rw [legibleMembers, Member.Legible] at h
    rw [printMemberLines, lexemesMembers, String.join_cons, List.flatten_cons, Member.lexemes,
      @String.append_assoc (printDoc? level doc)]
    refine Spells.append (Spells.append ?_ (.fixed rfl)) (printMemberLines_spells level ms h.2)
    exact (MemberShape.undocumented h.1.2).spells_doc? ((Spells.indent level).append
      (shape.spells level (.fixed ⟨';', rfl, by decide⟩) h.1.2)) level h.1.1

theorem printResult_spells {next : List Char} (hn : Delimited next) : (t : Option Ty) →
    legibleResult t → Spells (printOpt 0 ": " t) (lexemesOpt (.sym .colon) t) next
  | none, _ => .nil
  | some t, h => by
    rw [legibleResult] at h
    rw [printOpt, lexemesOpt]
    exact (Spells.fixed rfl).append (t.spells 0 hn h)

theorem MemberShape.spells (level : Nat) {next : List Char} (hn : Delimited next) :
    (m : MemberShape) → m.Legible → Spells (m.print level) m.lexemes next
  | .property name ty optional readonly, h => by
    rw [MemberShape.Legible] at h
    rw [MemberShape.print, MemberShape.lexemes]
    have ht := hn.printOpt (s := ": ") ⟨':', rfl, by decide⟩ level ty
    exact (((Spells.when _ (.fixed rfl)).append
      (h.1.1.atom.spells _ (ht.when ⟨'?', rfl, by decide⟩ optional))).append
      (.when _ (.fixed rfl))).append (printOpt_spells level hn (.fixed rfl) ty h.2)
  | .method name optional sig result, h => by
    rw [MemberShape.Legible] at h
    rw [MemberShape.print, MemberShape.lexemes]
    have hs : Delimited (sig.print.toList ++ ((printOpt 0 ": " result).toList ++ next)) :=
      sig.delimited_print
    exact (((h.1.1.atom.spells _ (hs.when ⟨'?', rfl, by decide⟩ optional)).append
      (.when _ (.fixed rfl))).append (sig.spells h.2.2.1)).append
      (printResult_spells hn result h.2.2.2)
  | .call sig result, h => by
    rw [MemberShape.Legible] at h
    rw [MemberShape.print, MemberShape.lexemes]
    exact (sig.spells h.1).append (printResult_spells hn result h.2)
  | .construct typeParams params result, h => by
    rw [MemberShape.Legible] at h
    rw [MemberShape.print, MemberShape.lexemes]
    refine Spells.append (Spells.append (Spells.append (Spells.append (Spells.append (.fixed rfl)
      (printTypeParams_spells typeParams h.1).angled) (.fixed rfl)) ?_) (.fixed rfl))
      (printResult_spells hn result h.2.2)
    exact (printParams_spells params h.2.1).intercalate (.fixed ⟨')', rfl, by decide⟩)
      ⟨',', rfl, by decide⟩ rfl
  | .index sig, h => by
    rw [MemberShape.Legible] at h
    rw [MemberShape.print, MemberShape.lexemes]
    exact sig.spells hn h.2
  | .accessor a, h => by
    rw [MemberShape.Legible] at h
    rw [MemberShape.print, MemberShape.lexemes]
    exact a.spells hn h.2

theorem IndexSignature.spells {next : List Char} (hn : Delimited next) :
    (sig : IndexSignature) → sig.Legible → Spells sig.print sig.lexemes next
  | ⟨key, keyType, valueType, readonly, isStatic⟩, h => by
    rw [IndexSignature.Legible] at h
    rw [IndexSignature.print, IndexSignature.lexemes]
    exact (((((((Spells.when _ (.fixed rfl)).append (.when _ (.fixed rfl))).append
      (.fixed rfl)).append (h.1.atom.spells _ (.fixed ⟨':', rfl, by decide⟩))).append
      (.fixed rfl)).append (keyType.spells 0 (.fixed ⟨']', rfl, by decide⟩) h.2.1.2)).append
      (.fixed rfl)).append (valueType.spells 0 hn h.2.2.2)

theorem Accessor.spells {next : List Char} (hn : Delimited next) :
    (a : Accessor) → a.Legible → Spells a.print a.lexemes next
  | ⟨name, kind, params, result, modifiers⟩, h => by
    rw [Accessor.Legible] at h
    rw [Accessor.print, Accessor.lexemes]
    have hk : Spells (modifiers.print ++ kind.text ++ " ") (modifiers.lexemes ++ [kind.lexeme])
        (name.toList ++ ("(".toList ++ ((String.intercalate ", " (printParams params)).toList ++
          (")".toList ++ ((printOpt 0 ": " result).toList ++ next))))) := by
      rw [String.append_assoc]
      refine Spells.append (.modifiers _) ?_
      cases kind <;> exact .fixed rfl
    exact ((((hk.append (h.1.atom.spells _ (.fixed ⟨'(', rfl, by decide⟩))).append
      (.fixed rfl)).append ((printParams_spells params h.2.1).intercalate
      (.fixed ⟨')', rfl, by decide⟩) ⟨',', rfl, by decide⟩ rfl)).append (.fixed rfl)).append
      (printResult_spells hn result h.2.2)

end

end Ambient
