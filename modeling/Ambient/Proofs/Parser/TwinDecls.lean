import Ambient.Parser.Decl
import Ambient.Proofs.Parser.TwinTypes
import Ambient.Proofs.Tree.LikeDecl

/-!
# Declarations side by side

The readers of declarations agree on twins, and with them whole files (`Twin.agree_file`): with
every two bounds above the number of tokens, files are read that are alike, or both sources are
refused at the same token. An item that gives nothing passes a token all the same, unless the source
is at its end.
-/

namespace Ambient

variable {S : String → String → Prop} {l m : Lexed}

theorem Twin.agree_enumMember (tw : Twin S l m) (i : Nat) :
    tw.Agree i (i + 1) Parser.enumMember Parser.enumMember (EnumMember.Like S) := by
  refine .peekDoc fun doc => (tw.agree_propertyName i).bind fun a b j hj hab => ?_
  refine (tw.agree_initializer j).bind fun t u j₁ hj₁ ht => ?_
  exact .pure ⟨hab, rfl, ht⟩ (by omega)

theorem Twin.agree_exportedName (tw : Twin S l m) (i : Nat) :
    tw.Agree i (i + 1) Parser.exportedName Parser.exportedName (ExportedName.Like S) := by
  refine .drop rfl fun j hj => (tw.agree_propertyName j).bind fun a b j₁ hj₁ hab => ?_
  refine (Twin.Agree.after? rfl fun k _ => (tw.agree_propertyName k).weaken (Nat.le_succ _)).bind
    fun c d j₂ hj₂ hc => ?_
  exact .pure ⟨hab, hc⟩ (by omega)

namespace Twin.Readers

variable {tw : Twin S l m} {i j n n' : Nat} {ty ty' : TyReader}

section

variable (h : tw.Readers i n n' ty ty') (doc : Option String)
include h

/-! ## Functions, interfaces and type aliases -/

theorem function :
    tw.Agree i (i + 1) (Parser.function n ty doc) (Parser.function n' ty' doc)
      (Function.Like S) := by
  refine .expect rfl fun j hj => (tw.agree_identifier j).bind fun a b j₁ hj₁ hab => ?_
  refine ((h.mono (by omega)).signature false).bind fun f g j₂ hj₂ hf => ?_
  refine ((h.mono (by omega)).result? false).bind fun t u j₃ hj₃ ht => ?_
  exact .drop rfl fun j₄ hj₄ => .pure ⟨hab, rfl, hf, ht⟩ (by omega)

omit doc in
theorem tyListAfter (k : Keyword) :
    tw.Agree i i (Parser.tyListAfter n ty k) (Parser.tyListAfter n' ty' k)
      (List.Forall₂ (Ty.Like S)) := by
  refine (Agree.after? (R := List.Forall₂ (Ty.Like S)) rfl fun j hj => ?_).bind
    fun as bs j hj has => .pure ?_ hj
  · have hj' := h.mono (show i ≤ j by omega)
    exact (Agree.sepBy1 rfl (fun k hk => h.ty .full false (by omega)) hj'.rounds
      hj'.rounds').weaken (Nat.le_succ _)
  · cases has with
    | none => exact .nil
    | some has => exact has

theorem interface :
    tw.Agree i (i + 1) (Parser.interface n ty doc) (Parser.interface n' ty' doc)
      (Interface.Like S) := by
  refine .expect rfl fun j hj => (tw.agree_identifier j).bind fun a b j₁ hj₁ hab => ?_
  refine ((h.mono (by omega)).typeParams false).bind fun ps qs j₂ hj₂ hps => ?_
  refine ((h.mono (by omega)).tyListAfter _).bind fun ss ss' j₃ hj₃ hss => ?_
  refine ((h.mono (by omega)).members).bind fun ms ns j₄ hj₄ hms => ?_
  exact .pure ⟨hab, rfl, hps, hss, hms⟩ (by omega)

theorem typeAlias :
    tw.Agree i (i + 1) (Parser.typeAlias n ty doc) (Parser.typeAlias n' ty' doc)
      (TypeAlias.Like S) := by
  refine .expect rfl fun j hj => (tw.agree_identifier j).bind fun a b j₁ hj₁ hab => ?_
  refine ((h.mono (by omega)).typeParams false).bind fun ps qs j₂ hj₂ hps => ?_
  refine .expect rfl fun j₃ hj₃ => (h.ty .full false (by omega)).bind fun t u j₄ hj₄ ht => ?_
  exact .drop rfl fun j₅ hj₅ => .pure ⟨hab, rfl, hps, ht⟩ (by omega)

/-! ## Classes -/

omit doc in
theorem classConstructor (visibility : Visibility) :
    tw.Agree i (i + 1) (Parser.classConstructor n ty visibility)
      (Parser.classConstructor n' ty' visibility) (ClassMemberShape.Like S) := by
  refine .of_le fun hi => (tw.agree_advance i).then fun j hj => ?_
  refine ((h.mono (by omega)).params false).bind fun ps qs j₁ hj₁ hps => ?_
  exact (tw.agree_endMember j₁).then fun j₂ hj₂ => .pure (.constructor visibility hps.2) (by omega)

omit doc in
theorem namedClassMember (w : ClassMemberWords) :
    tw.Agree i (min (i + 1) l.tokens.length) (Parser.namedClassMember n ty w)
      (Parser.namedClassMember n' ty' w) (Option.Rel (ClassMemberShape.Like S)) := by
  refine .of_le fun hi => (tw.agree_memberName? i).bind fun a b j hj hab => ?_
  cases hab with
  | none => exact .pure .none hj
  | some hab =>
    refine (tw.agree_accept j rfl).bind fun optional _ j₁ hj₁ ho => .drop rfl fun j₂ hj₂ => ?_
    subst ho
    refine .look tw.sees_atSignature ?_ ?_
    · refine ((h.mono (by omega)).signature false).bind fun f g j₃ hj₃ hf => ?_
      refine ((h.mono (by omega)).result? false).bind fun t u j₄ hj₄ ht => ?_
      refine (tw.agree_endMember j₄).then fun j₅ hj₅ => ?_
      exact .pure (.some (.method optional w.modifiers hab hf ht)) (by omega)
    · refine ((h.mono (by omega)).after false rfl).bind fun t u j₃ hj₃ ht => ?_
      refine (tw.agree_initializer j₃).bind fun _ _ j₄ hj₄ _ => ?_
      refine (tw.agree_endMember j₄).then fun j₅ hj₅ => ?_
      exact .pure (.some (.property optional w.readonly w.modifiers hab ht)) (by omega)

omit doc in
theorem classMemberShape :
    tw.Agree i (min (i + 1) l.tokens.length) (Parser.classMemberShape n ty)
      (Parser.classMemberShape n' ty') (Option.Rel (ClassMemberShape.Like S)) := by
  refine .scan (classMemberWords_alike (tw.drop i) {}) fun w j hj => ?_
  have hj' := h.mono hj
  refine .peek (fun _ _ => by simp) fun k₀ _ => .peekAt 1 (fun _ _ => by simp) fun k₁ _ => ?_
  by_cases hnew : k₀ = .ident "constructor" ∧ k₁ = .lparen
  · rw [if_pos hnew, if_pos hnew]
    exact ((hj'.classConstructor _).map fun _ _ => .some).weaken (by omega)
  rw [if_neg hnew, if_neg hnew]
  refine .look tw.sees_atIndexSignature ?_ (.look tw.sees_atAccessor ?_ ?_)
  · refine (hj'.indexSignature _ _).bind fun s t k hk hs => ?_
    exact .pure (.some (.index hs)) (by omega)
  · refine (hj'.accessor _).bind fun a b k hk hab => ?_
    exact .pure (.some (.accessor hab)) (by omega)
  · exact (hj'.namedClassMember w).weaken (by omega)

omit doc in
theorem classMember :
    tw.Agree i (min (i + 1) l.tokens.length) (Parser.classMember n ty)
      (Parser.classMember n' ty') (Option.Rel (ClassMember.Like S)) := by
  refine .peekDoc fun doc => .choose rfl (fun j hj => .pure .none (by omega)) ?_
  refine h.classMemberShape.bind fun s t j hj hs => ?_
  cases hs with
  | none => exact .pure .none hj
  | some hs => exact .pure (.some ⟨rfl, hs⟩) hj

theorem classDecl (isAbstract : Bool) :
    tw.Agree i (i + 1) (Parser.classDecl n ty doc isAbstract)
      (Parser.classDecl n' ty' doc isAbstract) (Class.Like S) := by
  refine .expect rfl fun j hj => (tw.agree_identifier j).bind fun a b j₁ hj₁ hab => ?_
  refine ((h.mono (by omega)).typeParams false).bind fun ps qs j₂ hj₂ hps => ?_
  refine ((h.mono (by omega)).after false rfl).bind fun t u j₃ hj₃ ht => ?_
  refine ((h.mono (by omega)).tyListAfter _).bind fun ss ss' j₄ hj₄ hss => ?_
  refine .expect rfl fun j₅ hj₅ => ?_
  have hj' := h.mono (show i ≤ j₅ by omega)
  refine (Agree.itemsUntil (by simp) (fun k hk hlt => (hj'.mono hk).classMember.weaken (by omega))
    hj'.rounds hj'.rounds').bind fun ms ns k hk hms => ?_
  exact .expect rfl fun k' hk' => .pure ⟨hab, rfl, rfl, hps, ht, hss, hms⟩ (by omega)

/-! ## Enumerations and variables -/

theorem enum (isConst : Bool) :
    tw.Agree i (i + 1) (Parser.enum n doc isConst) (Parser.enum n' doc isConst)
      (Enum.Like S) := by
  refine .expect rfl fun j hj => (tw.agree_identifier j).bind fun a b j₁ hj₁ hab => ?_
  refine .expect rfl fun j₂ hj₂ => ?_
  have hj' := h.mono (show i ≤ j₂ by omega)
  refine (Agree.commaList (by simp)
    (fun k hk => (tw.agree_enumMember k).weaken (Nat.le_succ _)) hj'.rounds hj'.rounds').bind
    fun ms ns k hk hms => ?_
  exact .expect rfl fun k' hk' => .pure ⟨hab, rfl, rfl, hms⟩ (by omega)

omit doc in
theorem declarator :
    tw.Agree i (i + 1) (Parser.declarator ty) (Parser.declarator ty') (Declarator.Like S) := by
  refine (tw.agree_propertyName i).bind fun a b j hj hab => ?_
  refine ((h.mono (by omega)).after false rfl).bind fun t u j₁ hj₁ ht => ?_
  refine (tw.agree_initializer j₁).bind fun v w j₂ hj₂ hv => ?_
  exact .pure ⟨hab, ht, hv⟩ (by omega)

theorem variableStatement (kind : VariableKind) :
    tw.Agree i (i + 1) (Parser.variableStatement n ty doc kind)
      (Parser.variableStatement n' ty' doc kind) (Variables.Like S) := by
  refine .of_le fun hi => (tw.agree_advance i).then fun j hj => ?_
  have hj' := h.mono (show i ≤ j by omega)
  refine (Agree.sepBy1 rfl (fun k hk => (hj'.mono hk).declarator) hj'.rounds hj'.rounds').bind
    fun ds es k hk hds => ?_
  exact .drop rfl fun k' hk' => .pure ⟨rfl, rfl, hds⟩ (by omega)

/-! ## Export statements -/

omit doc in
theorem exportedNames :
    tw.Agree i (i + 1) (Parser.exportedNames n) (Parser.exportedNames n') (Export.Like S) := by
  refine .expect rfl fun j hj => ?_
  have hj' := h.mono (show i ≤ j by omega)
  refine (Agree.commaList (by simp)
    (fun k hk => (tw.agree_exportedName k).weaken (Nat.le_succ _)) hj'.rounds hj'.rounds').bind
    fun ns ms k hk hns => .expect rfl fun k₁ hk₁ => ?_
  have hend (k₂ : Nat) (hk₂ : i + 1 ≤ k₂) :
      tw.Agree k₂ (i + 1) (do let _ ← Parser.accept .semicolon; pure (.named ns))
        (do let _ ← Parser.accept .semicolon; pure (.named ms)) (Export.Like S) :=
    .drop rfl fun k₃ hk₃ => .pure (.named hns) (by omega)
  refine .choose rfl (fun k₂ hk₂ => .of_le fun hle => (tw.agree_advance k₂).then fun k₃ hk₃ => ?_)
    (hend _ (by omega))
  exact hend _ (by omega)

end

end Twin.Readers

/-! ## Items -/

section Items

variable {tw : Twin S l m} {i n n' : Nat} {ty ty' : TyReader} {block block' : Parser (List Item)}
  (h : tw.Readers i n n' ty ty')
  (hblock : ∀ j, i < j → tw.Agree j (j + 1) block block' (List.Forall₂ (Item.Like S)))
  (doc : Option String)
include hblock

/-- The word before the name stands in front of the position. -/
theorem Twin.agree_namespaceBody {j : Nat} (hj : i ≤ j) :
    tw.Agree j (j + 1) (Parser.namespaceBody block doc) (Parser.namespaceBody block' doc)
      (Item.Like S) := by
  refine (tw.agree_dottedName j).bind fun a b j₁ hj₁ hab => ?_
  subst hab
  refine (hblock j₁ (by omega)).bind fun is js j₂ hj₂ his => ?_
  exact .pure (.decl (.ns (.mk a doc his))) (by omega)

theorem Twin.agree_ambientModule :
    tw.Agree i (i + 1) (Parser.ambientModule block) (Parser.ambientModule block')
      (Item.Like S) := by
  refine .expect rfl fun j hj => .peek_like fun k k' _ hk hlt => ?_
  cases hk with
  | template hs => exact .fail (.same _) (by simp) (by simp)
  | same k =>
    cases k with
    | string name =>
      refine .advance (hlt (by simp)) fun j₁ hj₁ => .choose rfl (fun j₂ hj₂ => ?_) ?_
      · exact .pure (.ambientModule name .nil) (by omega)
      · refine (hblock j₁ (by omega)).bind fun is js j₂ hj₂ his => ?_
        exact .pure (.ambientModule name his) (by omega)
    | _ => exact .fail (.same _) (by simp) (by simp)

include h

theorem Twin.agree_keywordItem (k : Keyword) {next next' : Kind} (hnext : next.Like (l.Templates m) next')
    (hi : i < l.tokens.length) :
    tw.Agree i (i + 1) (Parser.keywordItem n ty block doc k next)
      (Parser.keywordItem n' ty' block' doc k next') (Option.Rel (Item.Like S)) := by
  have hskip : tw.Agree i (i + 1) (Parser.advance >>= fun _ => (pure none : Parser (Option Item)))
      (Parser.advance >>= fun _ => (pure none : Parser (Option Item)))
      (Option.Rel (Item.Like S)) :=
    .advance hi fun j hj => .pure .none hj
  have hclass (isAbstract : Bool) {j : Nat} (hj : i ≤ j) :
      tw.Agree j (i + 1)
        (Parser.classDecl n ty doc isAbstract >>= fun c => pure (some (Item.decl (.cls c))))
        (Parser.classDecl n' ty' doc isAbstract >>= fun c => pure (some (Item.decl (.cls c))))
        (Option.Rel (Item.Like S)) :=
    ((h.mono hj).classDecl doc isAbstract).bind fun _ _ _ hk hc =>
      .pure (.some (.decl (.cls hc))) (by omega)
  have henum (isConst : Bool) {j : Nat} (hj : i ≤ j) :
      tw.Agree j (i + 1)
        (Parser.enum n doc isConst >>= fun e => pure (some (Item.decl (.enum e))))
        (Parser.enum n' doc isConst >>= fun e => pure (some (Item.decl (.enum e))))
        (Option.Rel (Item.Like S)) :=
    ((h.mono hj).enum doc isConst).bind fun _ _ _ hk he =>
      .pure (.some (.decl (.enum he))) (by omega)
  have hvars (kind : VariableKind) :
      tw.Agree i (i + 1)
        (Parser.variableStatement n ty doc kind >>= fun v => pure (some (Item.decl (.vars v))))
        (Parser.variableStatement n' ty' doc kind >>= fun v => pure (some (Item.decl (.vars v))))
        (Option.Rel (Item.Like S)) :=
    (h.variableStatement doc kind).bind fun _ _ _ hk hv => .pure (.some (.decl (.vars hv))) hk
  have hns : tw.Agree i (i + 1)
      (Parser.advance >>= fun _ => Parser.namespaceBody block doc >>= fun x => pure (some x))
      (Parser.advance >>= fun _ => Parser.namespaceBody block' doc >>= fun x => pure (some x))
      (Option.Rel (Item.Like S)) :=
    .advance hi fun j hj => (tw.agree_namespaceBody hblock doc (by omega)).bind
      fun _ _ _ hk hx => .pure (.some hx) (by omega)
  rw [Parser.keywordItem.eq_def, Parser.keywordItem.eq_def]
  split
  · exact (h.function doc).bind fun _ _ _ hk hf => .pure (.some (.decl (.function hf))) hk
  · exact (h.interface doc).bind fun _ _ _ hk hx => .pure (.some (.decl (.interface hx))) hk
  · exact hclass false (Nat.le_refl _)
  · have hiff := hnext.eq_iff (x := .keyword .classKw) (by simp)
    refine .advance hi fun j hj => ?_
    by_cases hc : next = .keyword .classKw
    · rw [if_pos hc, if_pos (hiff.1 hc)]
      exact hclass true (by omega)
    · rw [if_neg hc, if_neg (mt hiff.2 hc)]
      exact .pure .none hj
  · exact henum false (Nat.le_refl _)
  · have hiff := hnext.eq_iff (x := .keyword .enumKw) (by simp)
    by_cases hc : next = .keyword .enumKw
    · rw [if_pos hc, if_pos (hiff.1 hc)]
      exact .advance hi fun j hj => henum true (by omega)
    · rw [if_neg hc, if_neg (mt hiff.2 hc)]
      exact hvars .const
  · exact hvars .letBound
  · exact hvars .var
  · rw [isWord_eq hnext]
    by_cases hw : next'.isWord = true
    · rw [if_pos hw, if_pos hw]
      exact (h.typeAlias doc).bind fun _ _ _ hk hx => .pure (.some (.decl (.typeAlias hx))) hk
    · rw [if_neg hw, if_neg hw]
      exact hskip
  · exact hns
  · cases hnext with
    | template _ => exact hns
    | same next =>
      cases next with
      | string s =>
        exact (tw.agree_ambientModule hblock).bind fun _ _ _ hk hx => .pure (.some hx) hk
      | _ => exact hns
  · exact (tw.agree_statement i).then fun j hj => .pure .none (by omega)
  · exact hskip

theorem Twin.agree_plainItem (exported : Bool) :
    tw.Agree i (min (i + 1) l.tokens.length) (Parser.plainItem n ty block doc exported)
      (Parser.plainItem n' ty' block' doc exported) (Option.Rel (Item.Like S)) := by
  have hskip : tw.Agree i (min (i + 1) l.tokens.length)
      (Parser.advance >>= fun _ => (pure none : Parser (Option Item)))
      (Parser.advance >>= fun _ => (pure none : Parser (Option Item)))
      (Option.Rel (Item.Like S)) :=
    (tw.agree_advance i).then fun j hj => .pure .none hj
  refine .peekAt_like 1 fun next next' hnext => .peek_like fun k k' _ hk hlt => ?_
  cases hk with
  | template _ => exact hskip
  | same k =>
    split
    · exact (tw.agree_keywordItem h hblock doc _ hnext (hlt (by simp))).weaken (by omega)
    · have hiff := hnext.eq_iff (x := .lbrace) (by simp)
      refine .advance (hlt (by simp)) fun j hj => ?_
      by_cases hb : next = .lbrace
      · rw [if_pos hb, if_pos (hiff.1 hb)]
        refine (hblock j (by omega)).bind fun is js j₁ hj₁ his => ?_
        exact .pure (.some (.ambientModule _ his)) (by omega)
      · rw [if_neg hb, if_neg (mt hiff.2 hb)]
        exact .pure .none (by omega)
    · cases exported with
      | true =>
        refine Twin.Agree.weaken ?_ (Nat.min_le_left _ _)
        exact h.exportedNames.bind fun _ _ _ hj he => .pure (.some (.exportStatement he)) hj
      | false => exact hskip
    · exact hskip

theorem Twin.agree_exportedItem :
    tw.Agree i (min (i + 1) l.tokens.length) (Parser.exportedItem n ty block doc)
      (Parser.exportedItem n' ty' block' doc) (Option.Rel (Item.Like S)) := by
  refine .choose rfl (fun j hj => ?_) ?_
  · refine (tw.agree_dottedName j).bind fun a b j₁ hj₁ hab => .drop rfl fun j₂ hj₂ => ?_
    subst hab
    exact .pure (.some (.exportStatement (.assign a))) (by omega)
  refine .peek (fun _ _ => by simp) fun k _ => .peekAt 1 (fun _ _ => ?_) fun next _ => ?_
  · rfl
  refine .peekAt 2 (fun _ _ => by simp) fun afterNext _ => ?_
  by_cases hdefault : k = .keyword .defaultKw ∧ next.isWord = true ∧
      (afterNext = .semicolon ∨ afterNext = .eof)
  · rw [if_pos hdefault, if_pos hdefault]
    refine .of_le fun hi => (tw.agree_advance i).then fun j hj => ?_
    refine (tw.agree_identifier j).bind fun a b j₁ hj₁ hab => .drop rfl fun j₂ hj₂ => ?_
    subst hab
    exact .pure (.some (.exportStatement (.default a))) (by omega)
  rw [if_neg hdefault, if_neg hdefault]
  refine .drop rfl fun j hj => .peek (fun _ _ => by simp) fun k _ => ?_
  by_cases hlist : k = .keyword .asKw ∨ k = .symbol .star
  · rw [if_pos hlist, if_pos hlist]
    exact (tw.agree_statement j).then fun j₁ hj₁ => .pure .none (by omega)
  · rw [if_neg hlist, if_neg hlist]
    exact (tw.agree_plainItem (h.mono hj) (fun k hk => hblock k (by omega)) doc true).weaken
      (by omega)

theorem Twin.agree_item :
    tw.Agree i (min (i + 1) l.tokens.length) (Parser.item n ty block)
      (Parser.item n' ty' block') (Option.Rel (Item.Like S)) := by
  refine .peekDoc fun doc => .scan (itemModifiers_alike (tw.drop i)) fun exported j hj => ?_
  have hj' := h.mono hj
  have hblock' (k : Nat) (hk : j < k) := hblock k (by omega)
  cases exported with
  | true => exact (tw.agree_exportedItem hj' hblock' doc).weaken (by omega)
  | false => exact (tw.agree_plainItem hj' hblock' doc false).weaken (by omega)

end Items

/-! ## Files -/

/-- Items in braces are read in the same way under every two bounds above the number of tokens
left. -/
theorem Twin.agree_readBlock (tw : Twin S l m) {i b b' : Nat} (hb : l.tokens.length < b + i)
    (hb' : l.tokens.length < b' + i) :
    tw.Agree i (i + 1) (Parser.readBlock b) (Parser.readBlock b')
      (List.Forall₂ (Item.Like S)) := by
  -- a block inside a block starts behind at least one more token
  induction b generalizing i b' with
  | zero => exact fun hi => absurd hb (by omega)
  | succ b ih =>
    cases b' with
    | zero => exact fun hi => absurd hb' (by omega)
    | succ b' =>
      refine .expect rfl fun j hj => ?_
      have hb₁ : l.tokens.length < b + 1 + j := by omega
      have hb₂ : l.tokens.length < b' + 1 + j := by omega
      have h := tw.readers_readTy hb₁ hb₂ hb₁ hb₂
      refine (Twin.Agree.itemsUntil (by simp) (fun k hk hlt => ?_) h.rounds h.rounds').bind
        fun is js k hk his => .expect rfl fun k₁ hk₁ => .pure his (by omega)
      exact (tw.agree_item (h.mono hk) fun j' hj' => ih (by omega) (by omega)).weaken (by omega)

/-- Files are read in the same way under every two bounds above the number of tokens. -/
theorem Twin.agree_file (tw : Twin S l m) {b b' : Nat} (hb : l.tokens.length < b)
    (hb' : l.tokens.length < b') :
    tw.Agree 0 0 (Parser.file b) (Parser.file b') (File.Like S) := by
  have h := tw.readers_readTy (i := 0) hb hb' hb hb'
  refine (Twin.Agree.itemsUntil (by simp) (fun k hk hlt => ?_) h.rounds h.rounds').bind
    fun is js k hk his => .pure ⟨his⟩ hk
  exact (tw.agree_item (h.mono hk) fun j hj => tw.agree_readBlock (by omega) (by omega)).weaken
    (by omega)

/-- **Twins are both read, to files that are alike, or both refused at the same token.** -/
theorem Twin.parse (tw : Twin S l m) :
    (∃ f g, l.parse = .ok f ∧ m.parse = .ok g ∧ f.Like S g) ∨
      ∃ c d k, k ≤ l.tokens.length ∧ l.parse = .error ⟨c, (l.cursorAt k).current.start⟩ ∧
        m.parse = .error ⟨d, (m.cursorAt k).current.start⟩ ∧ c ≠ .exhausted ∧ d ≠ .exhausted ∧
        c.Like (l.Templates m) d := by
  have hlen : l.tokens.length < m.tokens.length + 1 := by
    rw [tw.length_eq]
    exact Nat.lt_succ_self _
  have h := tw.agree_file (Nat.lt_succ_self l.tokens.length) hlen (Nat.zero_le _)
  rw [Lexed.parse, Lexed.parse, ← l.cursorAt_zero, ← m.cursorAt_zero]
  generalize Parser.file (l.tokens.length + 1) (l.cursorAt 0) = x at h ⊢
  generalize Parser.file (m.tokens.length + 1) (m.cursorAt 0) = y at h ⊢
  cases h with
  | ok _ _ hfg => exact .inl ⟨_, _, rfl, rfl, hfg⟩
  | error hk h hc hd => exact .inr ⟨_, _, _, hk, rfl, rfl, hc, hd, h⟩

end Ambient
