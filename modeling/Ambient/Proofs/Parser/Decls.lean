import Ambient.Proofs.Parser.ClassMembers
import Ambient.Proofs.Parser.Types

/-!
# Reading declarations

Every declaration is read back from its lexemes, with or without the words `export` and `declare`
before it (`Reader.item`). The bodies inside an item are read by a reader for blocks (`Blocks`),
which is there for every bound on the nesting (`blocks_readBlock`).
-/

namespace Ambient

variable {m n : Nat} {ty : TyReader} {us : List Lexeme}

/-! ## Functions, interfaces and type aliases -/

theorem Reader.functionDecl (hr : Reader m ty) (hn : m < n) {f : Function} (h : f.Legible)
    (hm : f.lexemes.length ≤ m) (d : Option String) :
    Reads false f.clear (Parser.function n ty (f.doc.map rereadDoc))
      (documented d (f.lexemes ++ us)) (f.rewritten .reread) us := by
  simp only [Function.lexemes, List.length_append] at hm
  simp only [Function.lexemes, List.append_assoc]
  refine Takes.then (takes_expect rfl) (Takes.then (takes_identifier h.name) ?_)
  refine (hr.signature hn h.sig (by omega)).bind_false ?_
  rw [← Bool.and_true (clearOpt false f.result)]
  refine (hr.result?_end h.result (by omega)).bind_false ?_
  exact Takes.reads ((takes_accept rfl).bind .pure)

theorem kindAt_after {P : Kind → Prop} {l : Lexeme} (xs : List (List Lexeme)) (hl : P l.kind)
    (hu : P (kindAt us 0)) : P (kindAt (lexemesAfter l xs ++ us) 0) := by
  cases xs with
  | nil => exact hu
  | cons x xs => exact hl

/-- Types with commas between them behind a word. -/
theorem Reader.tyListAfter (hr : Reader m ty) (hn : m < n) {k : Keyword} {ts : List Ty}
    (h : legibleTys ts) (hm : (lexemesAfter (.kw k) (lexemesTys ts)).length ≤ m)
    (hu : (kindAt us 0).endsType = true) (hk : kindAt us 0 ≠ .keyword k)
    (hc : kindAt us 0 ≠ .comma) :
    Reads false (clearTys ts) (Parser.tyListAfter n ty k)
      (lexemesAfter (.kw k) (lexemesTys ts) ++ us) (rereadTys ts) us := by
  rw [lexemesTys_eq_map, clearTys_eq_all, rereadTys_eq_map] at *
  rw [legibleTys_iff] at h
  cases ts with
  | nil => exact Takes.then (takes_after?_none hk) Takes.pure.reads
  | cons t ts =>
    rw [List.map_cons, lexemesAfter, ← List.map_cons] at hm ⊢
    · rw [List.length_append, List.length_singleton] at hm
      have hcount : ((t :: ts).map Ty.lexemes).length ≤ _ := count_le_separated (s := .comma)
      rw [List.length_map] at hcount
      have hlist : Reads false ((t :: ts).all (Ty.clear false))
          (Parser.sepBy1 .comma (ty .full false) n)
          (separated .comma ((t :: ts).map Ty.lexemes) ++ us) ((t :: ts).map Ty.reread) us := by
        refine Reads.sepBy1 (F := fun k => k.endsType = true) rfl hu hc (by omega) (by simp)
          fun t ht us hus => ?_
        have hlen := length_le_separated (s := .comma)
          (List.mem_map_of_mem (f := Ty.lexemes) ht)
        exact hr.full (h t ht).2 (h t ht).1 (by omega) hus
      rw [List.append_assoc, List.singleton_append,
        ← Bool.and_true (List.all (t :: ts) (Ty.clear false))]
      exact (Reads.after?_some rfl hlist).bind_false Takes.pure.reads
    · simp
    · simp

theorem Reader.interface (hr : Reader m ty) (hn : m < n) {i : Interface} (h : i.Legible)
    (hm : i.lexemes.length ≤ m) (d : Option String) :
    Reads false i.clear (Parser.interface n ty (i.doc.map rereadDoc))
      (documented d (i.lexemes ++ us)) (i.rewritten .reread) us := by
  simp only [Interface.lexemes, List.length_append] at hm
  simp only [Interface.lexemes, List.append_assoc]
  refine Takes.then (takes_expect rfl) (Takes.then (takes_identifier h.name) ?_)
  refine (hr.typeParams hn h.typeParams (by omega)
    (kindAt_after (P := (· ≠ .langle)) _ (by simp) (by simp))).bind_false ?_
  refine (hr.tyListAfter hn h.supers (by omega) rfl (by simp) (by simp)).bind_false ?_
  rw [← Bool.and_true (clearMembers i.members)]
  exact (hr.members hn h.members (by omega) rfl).bind_false Takes.pure.reads

theorem Reader.typeAlias (hr : Reader m ty) (hn : m < n) {t : TypeAlias} (h : t.Legible)
    (hm : t.lexemes.length ≤ m) (d : Option String) :
    Reads false t.clear (Parser.typeAlias n ty (t.doc.map rereadDoc))
      (documented d (t.lexemes ++ us)) (t.rewritten .reread) us := by
  simp only [TypeAlias.lexemes, List.length_append] at hm
  simp only [TypeAlias.lexemes, List.append_assoc]
  refine Takes.then (takes_expect rfl) (Takes.then (takes_identifier h.name) ?_)
  refine (hr.typeParams hn h.typeParams (by omega) (by simp)).bind_false ?_
  refine Takes.then (takes_expect rfl) ?_
  rw [← Bool.and_true (t.ty.clear false)]
  refine (hr.full h.ty h.notPredicate (by omega) rfl).bind_false ?_
  exact Takes.reads ((takes_accept rfl).bind .pure)

/-! ## Classes -/

theorem length_le_flatMap {α : Type} {f : α → List Lexeme} {xs : List α} {x : α} (h : x ∈ xs) :
    (f x).length ≤ (xs.flatMap f).length := by
  rw [List.flatMap_def]
  exact length_le_flatten (List.mem_map_of_mem h)

theorem count_le_flatMap {α : Type} {f : α → List Lexeme} {xs : List α}
    (h : ∀ x ∈ xs, f x ≠ []) : xs.length ≤ (xs.flatMap f).length := by
  rw [List.flatMap_def, ← List.length_map (f := f)]
  refine count_le_flatten fun y hy => ?_
  obtain ⟨x, hx, rfl⟩ := List.mem_map.1 hy
  exact h x hx

theorem Reader.classDecl (hr : Reader m ty) (hn : m < n) {c : Class} (h : c.Legible)
    (hm : c.lexemes.length ≤ m) {l : Lexeme} (hl : l.kind = .keyword .classKw) :
    Reads false c.clear (Parser.classDecl n ty (c.doc.map rereadDoc) c.isAbstract)
      (l :: (lexemesOf c.name ++ (angledLexemes (lexemesTypeParams c.typeParams) ++
        (lexemesOpt (.kw .extendsKw) c.super ++
          (lexemesAfter (.kw .implementsKw) (lexemesTys c.interfaces) ++ ([.sym .lbrace] ++
            (c.members.flatMap ClassMember.lexemes ++ ([.sym .rbrace] ++ us))))))))
      (c.rewritten .reread) us := by
  simp only [Class.lexemes, List.length_append] at hm
  refine Takes.then (takes_expect hl) (Takes.then (takes_identifier h.name) ?_)
  refine (hr.typeParams hn h.typeParams (by omega) (kindAt_opt (P := (· ≠ .langle)) c.super
    (by simp) (kindAt_after (P := (· ≠ .langle)) _ (by simp) (by simp)))).bind_false ?_
  refine (hr.opt h.super rfl (by omega) (kindAt_after (P := fun k => k.endsType = true) _ rfl rfl)
    (kindAt_after (P := (· ≠ .keyword .extendsKw)) _ (by simp) (by simp))).bind_false ?_
  refine (hr.tyListAfter hn h.interfaces (by omega) rfl (by simp) (by simp)).bind_false ?_
  refine Takes.then (takes_expect rfl) ?_
  have hstart (x : ClassMember) (hx : x ∈ c.members) :
      StartsWith (fun k => k ≠ .rbrace ∧ k ≠ .eof) x.lexemes :=
    (ClassMember.startsWith (h.members x hx)).imp fun _ hk => hk.2.2
  have hcount := count_le_flatMap fun x hx => (hstart x hx).ne_nil
  rw [← Bool.and_true (c.members.all ClassMember.clear)]
  refine Reads.bind_false (Reads.itemsUntil rfl (by omega) hstart fun x hx us =>
    hr.classMember hn (h.members x hx) ?_) (Takes.reads ((takes_expect rfl).bind .pure))
  exact Nat.le_trans (length_le_flatMap hx) (by omega)

/-! ## Enumerations and variables -/

/-- An initializer, or nothing. -/
theorem takes_initializer {e : Option String} (h : legibleInitializer e)
    (hu : EndsExpression (kindAt us 0)) :
    Takes (Parser.after? .eq Parser.expression) (initializerLexemes e ++ us) e us := by
  cases e with
  | none =>
    refine takes_after?_none ?_
    rintro he
    have hk : kindAt us 0 = .eq := he
    rw [hk] at hu
    simp [EndsExpression] at hu
  | some s =>
    have hs : Reads false true _ _ _ us := (takes_expression (h s rfl) hu).reads
    exact Reads.after?_some rfl hs

theorem takes_enumMember {x : EnumMember} (h : x.Legible)
    (hu : kindAt us 0 = .comma ∨ kindAt us 0 = .rbrace) :
    Takes Parser.enumMember (x.lexemes ++ us) (x.rewritten .reread) us := by
  obtain ⟨l, r, hl⟩ := List.exists_cons_of_ne_nil h.name.ne_nil
  have hends : EndsExpression (kindAt us 0) := hu.imp id .inr
  have hname : Takes _ _ _ (initializerLexemes x.initializer ++ us) :=
    takes_propertyName_documented h.name (x.doc.map rereadDoc)
  rw [EnumMember.lexemes, List.append_assoc]
  rw [hl, documented] at hname ⊢
  refine Takes.bind takes_peekDoc (hname.bind ?_)
  exact (takes_initializer h.initializer hends).bind .pure

theorem EnumMember.startsWith {x : EnumMember} (h : x.Legible) :
    StartsWith Kind.inMember x.lexemes := by
  have hname := h.name.startsWith []
  rw [List.append_nil] at hname
  exact (hname.documented _).append _

theorem takes_enum {e : Enum} (h : e.Legible) (hn : e.lexemes.length < n) {l : Lexeme}
    (hl : l.kind = .keyword .enumKw) :
    Takes (Parser.enum n (e.doc.map rereadDoc) e.isConst)
      (l :: (lexemesOf e.name ++ ([.sym .lbrace] ++
        (separated .comma (e.members.map EnumMember.lexemes) ++ ([.sym .rbrace] ++ us)))))
      (e.rewritten .reread) us := by
  simp only [Enum.lexemes, List.length_append, List.length_singleton] at hn
  refine Takes.bind (takes_expect hl) (Takes.bind (takes_identifier h.name)
    (Takes.bind (takes_expect rfl) ?_))
  have hcount : (e.members.map EnumMember.lexemes).length ≤ _ := count_le_separated (s := .comma)
  rw [List.length_map] at hcount
  have hmembers : Reads false (e.members.all fun _ => true) (Parser.commaList .rbrace Parser.enumMember n)
      (separated .comma (e.members.map EnumMember.lexemes) ++ ([.sym .rbrace] ++ us))
      (e.members.map (EnumMember.rewritten .reread)) ([.sym .rbrace] ++ us) :=
    Reads.commaList (F := fun k => k = .comma ∨ k = .rbrace) (.inl rfl) (.inr rfl) (by simp) rfl
      (by omega) (fun x hx => (EnumMember.startsWith (h.members x hx)).imp fun _ hk => hk.2.2)
      fun x hx us hus => (takes_enumMember (h.members x hx) hus).reads
  rw [List.all_eq_true.2 fun _ _ => rfl] at hmembers
  exact Takes.bind hmembers ((takes_expect rfl).bind .pure)

theorem Reader.declarator (hr : Reader m ty) {d : Declarator} (h : d.Legible)
    (hm : d.lexemes.length ≤ m) (hu : kindAt us 0 = .comma ∨ kindAt us 0 = .semicolon) :
    Reads false d.clear (Parser.declarator ty) (d.lexemes ++ us) (d.rewritten .reread) us := by
  have hends : EndsExpression (kindAt us 0) := hu.imp id .inl
  have hinit (P : Kind → Prop) (h₁ : P .eq) (h₂ : P .comma) (h₃ : P .semicolon) :
      P (kindAt (initializerLexemes d.initializer ++ us) 0) := by
    cases d.initializer with
    | none =>
      show P (kindAt us 0)
      rcases hu with hu | hu <;> rw [hu] <;> assumption
    | some e => exact h₁
  simp only [Declarator.lexemes, List.length_append] at hm
  simp only [Declarator.lexemes, List.append_assoc]
  refine Takes.then (takes_propertyName h.name) ?_
  rw [← Bool.and_true (Declarator.clear d)]
  refine (hr.opt h.ty rfl (by omega) (hinit (fun k => k.endsType = true) rfl rfl rfl)
    (hinit (· ≠ .colon) (by simp) (by simp) (by simp))).bind_false ?_
  exact Takes.reads ((takes_initializer h.initializer hends).bind .pure)

theorem Reader.variableStatement (hr : Reader m ty) (hn : m < n) {v : Variables} (h : v.Legible)
    (hm : v.lexemes.length ≤ m) (d : Option String) :
    Reads false (v.declarators.all Declarator.clear)
      (Parser.variableStatement n ty (v.doc.map rereadDoc) v.kind)
      (documented d (v.lexemes ++ us)) (v.rewritten .reread) us := by
  simp only [Variables.lexemes, List.length_append, List.length_singleton] at hm
  simp only [Variables.lexemes, List.append_assoc]
  have hcount : (v.declarators.map Declarator.lexemes).length ≤ _ :=
    count_le_separated (s := .comma)
  rw [List.length_map] at hcount
  refine Takes.then takes_advance ?_
  rw [← Bool.and_true (v.declarators.all Declarator.clear)]
  refine Reads.bind_false (Reads.sepBy1 (F := fun k => k = .comma ∨ k = .semicolon) (.inl rfl)
    (.inr rfl) (by simp) (by omega) h.ne_nil fun x hx us hus =>
      hr.declarator (h.declarators x hx) ?_ hus) (Takes.reads ((takes_accept rfl).bind .pure))
  have hlen := length_le_separated (s := .comma)
    (List.mem_map_of_mem (f := Declarator.lexemes) hx)
  omega

end Ambient
