import Ambient.Proofs.Parser.Passes
import Ambient.Proofs.Tree.Front
import Ambient.Proofs.Tree.Reread
import Ambient.Proofs.Tree.Tidied

/-!
# Types and the tokens that they were read from

`Ty.From n inSuper ks t` says what is known of a type `t` that was read from tokens of the kinds
`ks` where a type may bind as loosely as `n`: it is legible, it is read back where it was read, and
it is written with the tokens `ks` but for what `Tidied` lists. The lemmas are about the parts of
the grammar: operands, conditional and mapped types, lists, and members with signs between them.
-/

namespace Ambient

/-- How loosely a type binds. What tells about an argument binds looser than any type. -/
def Ty.looseness : Ty → Nat
  | .intersection _ => 1
  | .union _ => 2
  | .function .. | .constructor .. | .conditional .. => 3
  | .predicate .. => 4
  | _ => 0

/-- A type that was read from tokens of the given kinds, possibly in the `extends` operand of a
conditional type. -/
structure Ty.From (n : Nat) (inSuper : Bool) (ks : List Kind) (t : Ty) : Prop where
  looseness : t.looseness ≤ n
  legible : t.Legible
  clear : ∀ s, (s = true → inSuper = true) → t.clear s = true
  tidied : Tidied n ks (t.lexemes.map Lexeme.kind)

namespace Ty

variable {n m : Nat} {inSuper : Bool} {ks ls vs : List Kind} {t : Ty} {ts : List Ty}

theorem isPredicate_of_looseness (h : t.looseness ≤ 3) : t.isPredicate = false := by
  cases t <;> first | rfl | simp [looseness] at h

theorem looserThanUnion_of_looseness (h : t.looseness ≤ 2) : t.looserThanUnion = false := by
  cases t <;> first | rfl | simp [looseness] at h

theorem isConditional_of_looseness (h : t.looseness ≤ 2) : t.isConditional = false := by
  cases t <;> first | rfl | simp [looseness] at h

theorem isUnion_of_looseness (h : t.looseness ≤ 1) : t.isUnion = false := by
  cases t <;> first | rfl | simp [looseness] at h

theorem isIntersection_of_looseness (h : t.looseness = 0) : t.isIntersection = false := by
  cases t <;> first | rfl | simp [looseness] at h

/-- An operand in parentheses starts with a word like `keyof`. -/
theorem isPrefix_of_looserThanPostfix (h : t.looseness = 0) (hl : t.looserThanPostfix = true) :
    ∃ k ∈ (t.lexemes.map Lexeme.kind).head?, k.isPrefix = true := by
  cases t with
  | keyOf t => exact ⟨_, rfl, rfl⟩
  | operator op t =>
    cases op with
    | readonly => exact ⟨_, rfl, rfl⟩
    | unique => exact ⟨_, rfl, rfl⟩
  | infer name => exact ⟨_, rfl, rfl⟩
  | _ => first | (simp [looserThanPostfix] at hl; done) | simp [looseness] at h

namespace From

theorem mono (h : t.From n inSuper ks) (hnm : n ≤ m) : t.From m inSuper ks where
  looseness := Nat.le_trans h.looseness hnm
  legible := h.legible
  clear := h.clear
  tidied := h.tidied.mono hnm

/-- A type that tells nothing about an argument. -/
theorem plain (h : t.From n inSuper ks) (hn : n ≤ 3) : t.isPredicate = false ∧ t.Legible :=
  ⟨isPredicate_of_looseness (Nat.le_trans h.looseness hn), h.legible⟩

/-! ## Operands -/

/-- An operand in front of brackets, or behind a word. -/
theorem enclosed (h : t.From 0 inSuper ks) (hls : Tidied 0 ls vs) :
    Tidied 0 (ks ++ ls)
      ((enclosed t.looserThanPostfix t.lexemes).map Lexeme.kind ++ vs) := by
  cases hl : t.looserThanPostfix with
  | false => exact h.tidied.append hls
  | true =>
    have hus := isPrefix_of_looserThanPostfix (Nat.le_zero.1 h.looseness) hl
    simpa [Ambient.enclosed] using Tidied.parens hus h.tidied hls

theorem enclosed_alone (h : t.From 0 inSuper ks) :
    Tidied n ks ((Ambient.enclosed t.looserThanPostfix t.lexemes).map Lexeme.kind) := by
  have h' := (h.enclosed (.nil 0)).mono (Nat.zero_le n)
  rwa [List.append_nil, List.append_nil] at h'

theorem clear_enclosed (h : t.From n inSuper ks) (c : Bool) (s : Bool)
    (hs : s = true → inSuper = true) : t.clear (s && !c) = true :=
  h.clear _ fun hsc => hs (Bool.and_eq_true_iff.1 hsc).1

theorem array (h : t.From 0 inSuper ks) :
    (array t).From 0 inSuper (ks ++ [.lbracket, .rbracket]) where
  looseness := Nat.le_refl 0
  legible := by
    rw [Legible]
    exact h.plain (Nat.zero_le 3)
  clear s hs := h.clear_enclosed _ s hs
  tidied := by
    rw [lexemes, List.map_append]
    exact h.enclosed (.refl 0 _)

theorem indexAccess {index : Ty} (h : t.From 0 inSuper ks) (hi : index.From 3 false ls) :
    (indexAccess t index).From 0 inSuper (ks ++ .lbracket :: (ls ++ [.rbracket])) where
  looseness := Nat.le_refl 0
  legible := by
    rw [Legible]
    exact ⟨h.plain (Nat.zero_le 3), hi.plain (Nat.le_refl 3)⟩
  clear s hs := by
    rw [Ty.clear, h.clear_enclosed _ s hs, hi.clear false fun h => h]
    rfl
  tidied := by
    simp only [lexemes, List.append_assoc, List.map_append]
    exact h.enclosed (.keep .lbracket (hi.tidied.append_singleton .rbracket))

theorem keyOf (h : t.From 0 inSuper ks) : (keyOf t).From 0 inSuper (.keyword .keyofKw :: ks) where
  looseness := Nat.le_refl 0
  legible := by
    rw [Legible]
    exact h.plain (Nat.zero_le 3)
  clear s hs := h.clear_enclosed _ s hs
  tidied := .keep _ h.enclosed_alone

theorem operator (op : TypeOperator) (h : t.From 0 inSuper ks)
    (hop : op = .unique → t.startsSymbol = true) :
    (operator op t).From 0 inSuper (op.lexeme.kind :: ks) where
  looseness := Nat.le_refl 0
  legible := by
    rw [Legible]
    exact ⟨hop, h.plain (Nat.zero_le 3)⟩
  clear s hs := h.clear_enclosed _ s hs
  tidied := .keep _ h.enclosed_alone

/-! ## Conditional types -/

theorem conditional {super yes no : Ty} {us ws : List Kind} (h : t.From 2 false ks)
    (hsuper : super.From 2 true ls) (hyes : yes.From 3 false us) (hno : no.From 3 false ws) :
    (conditional t super yes no).From 3 false
      (ks ++ .keyword .extendsKw :: (ls ++ .question :: (us ++ .colon :: ws))) where
  looseness := Nat.le_refl 3
  legible := by
    rw [Legible]
    exact ⟨h.plain (Nat.le_succ 2), hsuper.plain (Nat.le_succ 2), hyes.plain (Nat.le_refl 3),
      hno.plain (Nat.le_refl 3)⟩
  clear s hs := by
    obtain rfl : s = false := by simpa using hs
    rw [Ty.clear, h.clear false id, isConditional_of_looseness hsuper.looseness, Bool.not_false,
      hsuper.clear true fun _ => rfl, hyes.clear false id, hno.clear false id]
    rfl
  tidied := by
    rw [lexemes, looserThanUnion_of_looseness h.looseness,
      isConditional_of_looseness hsuper.looseness]
    simp only [Ambient.enclosed, Bool.false_eq_true, if_false, List.map_append, List.append_assoc]
    refine (h.tidied.mono (by decide)).append (.keep _ ?_)
    refine (hsuper.tidied.mono (by decide)).append (.keep _ ?_)
    exact hyes.tidied.append (.keep _ hno.tidied)

end From

end Ty

/-! ## Mapped types -/

/-- The tokens of a modifier in a mapped type. -/
def signKinds (target : Kind) (m : Option MappedModifier) : List Kind :=
  m.elim [] fun m => m.lexemes.map Lexeme.kind ++ [target]

/-- A mapped type is written with a semicolon at its end. -/
theorem Ty.From.mapped {inSuper : Bool} {key : String} {constraint value : Ty} {name : Option Ty}
    {readonly optional : Option MappedModifier} {ks ls us vs : List Kind} (hkey : Word key)
    (hconstraint : constraint.From 3 false ks)
    (hname : ls = [] ∧ name = none ∨
      ∃ ks v, ls = .keyword .asKw :: ks ∧ name = some v ∧ Ty.From 3 false ks v)
    (hvalue : value.From 3 false us) (hvs : Tidied 0 vs [.semicolon, .rbrace]) :
    (Ty.mapped key constraint name value readonly optional).From 0 inSuper
      (.lbrace :: (signKinds (.keyword .readonlyKw) readonly ++ .lbracket ::
        ((lexemesOf key).map Lexeme.kind ++ .keyword .inKw :: (ks ++ (ls ++ .rbracket ::
          (signKinds .question optional ++ .colon :: (us ++ vs))))))) := by
  have hopt : legibleOpt name ∧ clearOpt false name = true ∧
      Tidied 0 ls ((lexemesOpt (.kw .asKw) name).map Lexeme.kind) := by
    rcases hname with ⟨rfl, rfl⟩ | ⟨ks, v, rfl, rfl, hv⟩
    · exact ⟨trivial, rfl, .nil 0⟩
    · exact ⟨hv.plain (Nat.le_refl 3), hv.clear false (by simp), .keep _ hv.tidied⟩
  refine ⟨Nat.le_refl 0, ?_, fun _ _ => ?_, ?_⟩
  · rw [Ty.Legible]
    exact ⟨hkey, hconstraint.plain (Nat.le_refl 3), hopt.1, hvalue.plain (Nat.le_refl 3)⟩
  · rw [Ty.clear, hconstraint.clear false (by simp), hvalue.clear false (by simp), hopt.2.1]
    rfl
  · have hreadonly : (readonly.elim [] fun m => m.lexemes ++ [Lexeme.kw .readonlyKw]).map
        Lexeme.kind = signKinds (.keyword .readonlyKw) readonly := by
      cases readonly <;> simp [signKinds]
    have hoptional : (optional.elim [] fun m => m.lexemes ++ [Lexeme.sym .question]).map
        Lexeme.kind = signKinds .question optional := by
      cases optional <;> simp [signKinds]
    simp only [Ty.lexemes, List.map_append, hreadonly, hoptional, List.append_assoc]
    refine .keep _ ((Tidied.refl _ _).append (.keep _ ((Tidied.refl _ _).append (.keep _ ?_))))
    refine hconstraint.tidied.append (hopt.2.2.append (.keep _ ((Tidied.refl _ _).append ?_)))
    exact .keep _ (hvalue.tidied.append hvs)

/-! ## Lists -/

section

variable {α : Type} {Q : List Kind → α → Prop} {P : α → Prop} {ks ls us : List Kind} {x : List α}

theorem Listed.forall (h : Listed Q ks x) (hP : ∀ ks v, Q ks v → P v) : ∀ v ∈ x, P v := by
  induction h with
  | nil => simp
  | last h => simpa using hP _ _ h
  | cons h _ ih => simpa using ⟨hP _ _ h, ih⟩

theorem Chained.forall {sep : Kind} (h : Chained sep Q ks x) (hP : ∀ ks v, Q ks v → P v) :
    ∀ v ∈ x, P v := by
  induction h with
  | last h => simpa using hP _ _ h
  | cons h _ ih => simpa using ⟨hP _ _ h, ih⟩

theorem Chained.ne_nil {sep : Kind} (h : Chained sep Q ks x) : x ≠ [] := by
  cases h <;> simp

variable {f : α → List Lexeme}

/-- The comma behind the last element is left out. -/
theorem Listed.tidied (h : Listed Q ks x)
    (hf : ∀ ks v, Q ks v → Tidied 3 ks ((f v).map Lexeme.kind)) {s : Symbol} (hs : s = .rangle ∨ s = .rbracket) (hls : Tidied 0 ls us) :
    Tidied 3 (ks ++ .symbol s :: ls)
      ((separated .comma (x.map f)).map Lexeme.kind ++ .symbol s :: us) := by
  have hclose : Tidied 0 (.symbol s :: ls) (.symbol s :: us) := .keep _ (hls.mono (Nat.zero_le _))
  induction h with
  | nil => exact hclose.mono (Nat.zero_le 3)
  | last h => exact (hf _ _ h).append hclose
  | @cons ks' ks v vs h hvs ih =>
    rw [List.append_assoc, List.cons_append]
    cases hvs with
    | nil => exact (hf _ _ h).append (.comma hs hclose)
    | last _ | cons _ _ =>
      simp only [List.map_cons, separated, List.map_append, List.append_assoc] at ih ⊢
      exact (hf _ _ h).append (.keep _ ih)

/-- Separators stay, and so do the elements between them. -/
theorem Chained.tidied {s : Symbol} (h : Chained (.symbol s) Q ks x)
    (hf : ∀ ks v, Q ks v → Tidied (Kind.symbol s).admits ks ((f v).map Lexeme.kind)) :
    Tidied (Kind.symbol s).admits ks ((separated s (x.map f)).map Lexeme.kind) := by
  induction h with
  | last h => exact hf _ _ h
  | cons h hvs ih =>
    cases hvs with
    | last _ | cons _ _ =>
      simp only [List.map_cons, separated, List.map_append, List.append_assoc] at ih ⊢
      exact (hf _ _ h).append (.keep _ ih)

end

/-! ## Unions and intersections -/

/-- Members with signs between them. The sign in front of the first one may be left out. -/
theorem Ty.From.combined {operator : List Ty → Ty} {sep : Symbol} (loose : Ty → Bool) {m : Nat}
    {inSuper : Bool} {ks ks' : List Kind} {ts : List Ty}
    (h : Chained (.symbol sep) (fun ks t => Ty.From m inSuper ks t) ks ts)
    (hadmits : (Kind.symbol sep).admits = m)
    (hloose : ∀ t : Ty, t.looseness ≤ m → loose t = false)
    (hlooseness : ∀ ts, (operator ts).looseness = m + 1)
    (hlegible : ∀ ts, 2 ≤ ts.length → (∀ t ∈ ts, t.looseness ≤ m ∧ t.Legible) →
      (operator ts).Legible)
    (hclear : ∀ s ts, (operator ts).clear s = clearOperands s loose ts)
    (hlexemes : ∀ ts, (operator ts).lexemes = separated sep (lexemesOperands loose ts))
    (hsign : ∀ us, Tidied m ks us → Tidied (m + 1) ks' us) :
    (Parser.combined operator ts).From (m + 1) inSuper ks' := by
  cases h with
  | last h => exact ⟨Nat.le_succ_of_le h.looseness, h.legible, h.clear, hsign _ h.tidied⟩
  | @cons ks₁ ls t ts h hts =>
    have hall := Chained.cons h hts
    obtain ⟨u, us, rfl⟩ := List.exists_cons_of_ne_nil hts.ne_nil
    have heach : ∀ t' ∈ t :: u :: us, Ambient.enclosed (loose t') t'.lexemes = t'.lexemes := by
      refine hall.forall fun _ t' h' => ?_
      rw [hloose t' h'.looseness]
      rfl
    refine ⟨Nat.le_of_eq (hlooseness _), hlegible _ (by simp) ?_, fun s hs => ?_, hsign _ ?_⟩
    · exact hall.forall fun _ t' h' => ⟨h'.looseness, h'.legible⟩
    · show (operator _).clear s = true
      rw [hclear, clearOperands_eq_all, List.all_eq_true]
      exact hall.forall fun _ t' h' => h'.clear_enclosed _ s hs
    · show Tidied m _ ((operator _).lexemes.map Lexeme.kind)
      rw [hlexemes, lexemesOperands_eq_map, List.map_congr_left heach]
      rw [← hadmits]
      exact hall.tidied fun _ t' h' => hadmits ▸ h'.tidied

end Ambient
