import Ambient.Parser.Ty
import Ambient.Proofs.Parser.TwinNames

/-!
# Counters of open brackets

The scans of the parser count open brackets on natural numbers, where one less than zero would be
zero. They never get there by counting down: the same counters on integers, which go on below zero,
stop at the same tokens and take no negative value on the way (`countersStay`). A closing parenthesis
or square bracket in an expression is the exception. It leaves a counter that is zero as it is, on
purpose, for expressions may have such brackets without a partner.
-/

namespace Ambient

/-- The values that a counter takes before each token that it looks at. -/
def depths {δ : Type} (step : δ → Kind → Option δ) : δ → List Token → List δ
  | d, [] => [d]
  | d, t :: ts =>
    d :: match step d t.kind with
      | none => []
      | some d => depths step d ts

section

variable {δ ε : Type} {step : δ → Kind → Option δ} {step' : ε → Kind → Option ε} {f : δ → ε}
  {P : δ → Prop} (hP : ∀ d k d', P d → step d k = some d' → P d')
  (h : ∀ d k, P d → step' (f d) k = (step d k).map f)
include hP h

/-- Counters that go in step stop at the same token. -/
theorem counted_map {d : δ} (hd : P d) (ts : List Token) :
    counted step' (f d) ts = counted step d ts := by
  induction ts generalizing d with
  | nil => rfl
  | cons t ts ih =>
    rw [counted, counted, h d t.kind hd]
    cases hs : step d t.kind with
    | none => rfl
    | some d' =>
      simp only [Option.map_some]
      rw [ih (hP d _ d' hd hs)]

/-- Counters that go in step take values that correspond. -/
theorem of_mem_depths {d : δ} (hd : P d) {ts : List Token} {e : ε}
    (he : e ∈ depths step' (f d) ts) : ∃ d', P d' ∧ e = f d' := by
  induction ts generalizing d with
  | nil => exact ⟨d, hd, List.mem_singleton.1 he⟩
  | cons t ts ih =>
    rw [depths, h d t.kind hd] at he
    rcases List.mem_cons.1 he with rfl | he
    · exact ⟨d, hd, rfl⟩
    · cases hs : step d t.kind with
      | none =>
        rw [hs] at he
        cases he
      | some d' =>
        rw [hs] at he
        exact ih (hP d _ d' hd hs) he

end

/-! ## Integer counters -/

/-- The brackets that are open behind a token of an expression. Nothing at the end of the
expression. -/
def expressionCount (depth : Int) : Kind → Option Int
  | .symbol .lparen | .symbol .lbracket | .symbol .lbrace => some (depth + 1)
  | .symbol .rparen | .symbol .rbracket => some (max (depth - 1) 0)
  | .symbol .rbrace => if depth = 0 then none else some (depth - 1)
  | .symbol .comma | .symbol .semicolon => if depth = 0 then none else some depth
  | _ => some depth

/-- The square brackets that are open behind a token of a computed name, from one on. Nothing at its
last bracket. -/
def computedCount (depth : Int) : Kind → Option Int
  | .symbol .lbracket => some (depth + 1)
  | .symbol .rbracket => if depth - 1 = 0 then none else some (depth - 1)
  | _ => some depth

/-- The brackets and braces that are open behind a token of a pattern, from one on. Nothing at its
last one. -/
def patternCount (depth : Int) : Kind → Option Int
  | .symbol .lbrace | .symbol .lbracket => some (depth + 1)
  | .symbol .rbrace | .symbol .rbracket => if depth - 1 = 0 then none else some (depth - 1)
  | _ => some depth

/-- The parentheses that are open behind a token, from one on. Nothing at the one that closes the
first. -/
def arrowCount (depth : Int) : Kind → Option Int
  | .symbol .lparen => some (depth + 1)
  | .symbol .rparen => if depth - 1 = 0 then none else some (depth - 1)
  | _ => some depth

/-- The parentheses that are open behind a token, the first one apart. Nothing at the one that
closes the first. -/
def arrowDepth (depth : Nat) : Kind → Option Nat
  | .symbol .lparen => some (depth + 1)
  | .symbol .rparen => if depth = 0 then none else some (depth - 1)
  | _ => some depth

/-- One round of the scan. -/
theorem arrowFollows_cons (depth : Nat) (t : Token) (ts : List Token) :
    arrowFollows depth (t :: ts) =
      match arrowDepth depth t.kind with
      | none => ts.head?.map Token.kind == some .arrow
      | some d => arrowFollows d ts := by
  rw [arrowFollows.eq_def]
  dsimp only
  generalize t.kind = k
  rcases k with _ | _ | _ | _ | _ | s | _ <;> try rfl
  cases s <;> first | rfl | (cases depth <;> rfl)

theorem arrowFollows_eq_counted (depth : Nat) (ts : List Token) :
    arrowFollows depth ts =
      ((ts.drop (counted arrowDepth depth ts + 1)).head?.map Token.kind == some .arrow) := by
  induction ts generalizing depth with
  | nil => rfl
  | cons t ts ih =>
    rw [arrowFollows_cons, counted]
    cases arrowDepth depth t.kind with
    | none => rfl
    | some d => exact ih d

/-! ## Integers and natural numbers -/

theorem expressionCount_natCast (d : Nat) (k : Kind) :
    expressionCount d k = (expressionDepth d k).map Nat.cast := by
  rcases k with _ | _ | _ | _ | _ | s | _ <;> try rfl
  cases s <;> first
    | rfl
    | (simp only [expressionCount, expressionDepth]
       split <;> split <;> first | rfl | omega | (simp; omega))
    | (simp only [expressionCount, expressionDepth, Option.map_some]
       congr 1
       omega)

theorem computedCount_natCast {d : Nat} (hd : 1 ≤ d) (k : Kind) :
    computedCount d k = (computedDepth d k).map Nat.cast := by
  rcases k with _ | _ | _ | _ | _ | s | _ <;> try rfl
  cases s <;> first
    | rfl
    | (simp only [computedCount, computedDepth]
       split <;> split <;> first | rfl | omega | (simp; omega))

theorem patternCount_natCast {d : Nat} (hd : 1 ≤ d) (k : Kind) :
    patternCount d k = (patternDepth d k).map Nat.cast := by
  rcases k with _ | _ | _ | _ | _ | s | _ <;> try rfl
  cases s <;> first
    | rfl
    | (simp only [patternCount, patternDepth]
       split <;> split <;> first | rfl | omega | (simp; omega))

theorem arrowCount_natCast (d : Nat) (k : Kind) :
    arrowCount (d + 1) k = (arrowDepth d k).map fun d : Nat => (d : Int) + 1 := by
  rcases k with _ | _ | _ | _ | _ | s | _ <;> try rfl
  cases s <;> first
    | rfl
    | (simp only [arrowCount, arrowDepth]
       split <;> split <;> first | rfl | omega | (simp; omega))

theorem one_le_computedDepth (d : Nat) (k : Kind) (d' : Nat) (hd : 1 ≤ d)
    (h : computedDepth d k = some d') : 1 ≤ d' := by
  rw [computedDepth.eq_def] at h
  repeat' split at h
  all_goals simp at h
  all_goals omega

theorem one_le_patternDepth (d : Nat) (k : Kind) (d' : Nat) (hd : 1 ≤ d)
    (h : patternDepth d k = some d') : 1 ≤ d' := by
  rw [patternDepth.eq_def] at h
  repeat' split at h
  all_goals simp at h
  all_goals omega

/-- What the scans count, told with integers. No counter is negative in front of a token, and those
of names, patterns and parameter lists are positive, so that one more can be taken away. -/
structure CountersStay : Prop where
  expression (ts : List Token) :
    passExpression 0 [] ts = passing (counted expressionCount 0 ts) [] ts ∧
      ∀ d ∈ depths expressionCount 0 ts, 0 ≤ d
  /-- The first bracket of the name is `t`. -/
  computedName (t : Token) (ts : List Token) (ht : t.kind = .lbracket) :
    passComputedName? 0 [] (t :: ts) =
        (if counted computedCount 1 ts < ts.length then
          some (passing (counted computedCount 1 ts + 1) [t] ts) else none) ∧
      ∀ d ∈ depths computedCount 1 ts, 1 ≤ d
  /-- The first bracket or brace of the pattern is `t`. -/
  pattern (t : Token) (ts : List Token) (ht : t.kind = .lbrace ∨ t.kind = .lbracket) :
    passPattern? 0 [] (t :: ts) =
        (if counted patternCount 1 ts < ts.length then
          some (passing (counted patternCount 1 ts + 1) [t] ts) else none) ∧
      ∀ d ∈ depths patternCount 1 ts, 1 ≤ d
  arrow (ts : List Token) :
    arrowFollows 0 ts =
        ((ts.drop (counted arrowCount 1 ts + 1)).head?.map Token.kind == some .arrow) ∧
      ∀ d ∈ depths arrowCount 1 ts, 1 ≤ d

theorem countersStay : CountersStay where
  expression ts := by
    have hP (d : Nat) (k : Kind) (d' : Nat) (_ : True) (_ : expressionDepth d k = some d') : True :=
      trivial
    have h (d : Nat) (k : Kind) (_ : True) := expressionCount_natCast d k
    refine ⟨?_, fun d hd => ?_⟩
    · rw [passExpression_eq]
      exact congrArg (passing · [] ts) (counted_map hP h trivial ts).symm
    · obtain ⟨d', -, rfl⟩ := of_mem_depths hP h (d := 0) trivial hd
      exact Int.natCast_nonneg d'
  computedName t ts ht := by
    have h (d : Nat) (k : Kind) (hd : 1 ≤ d) := computedCount_natCast hd k
    refine ⟨?_, fun d hd => ?_⟩
    · have hcount := counted_map one_le_computedDepth h (Nat.le_refl 1) ts
      rw [passComputedName?_cons, ht]
      show passComputedName? 1 [t] ts = _
      rw [passComputedName?_eq, ← hcount]
      rfl
    · obtain ⟨d', hd', rfl⟩ := of_mem_depths one_le_computedDepth h (Nat.le_refl 1) hd
      omega
  pattern t ts ht := by
    have h (d : Nat) (k : Kind) (hd : 1 ≤ d) := patternCount_natCast hd k
    refine ⟨?_, fun d hd => ?_⟩
    · have hcount := counted_map one_le_patternDepth h (Nat.le_refl 1) ts
      have hfirst : patternDepth 0 t.kind = some 1 := by
        rcases ht with ht | ht
        · rw [ht]
          rfl
        · rw [ht]
          rfl
      rw [passPattern?_cons, hfirst]
      show passPattern? 1 [t] ts = _
      rw [passPattern?_eq, ← hcount]
      rfl
    · obtain ⟨d', hd', rfl⟩ := of_mem_depths one_le_patternDepth h (Nat.le_refl 1) hd
      omega
  arrow ts := by
    have hP (d : Nat) (k : Kind) (d' : Nat) (_ : True) (_ : arrowDepth d k = some d') : True :=
      trivial
    have h (d : Nat) (k : Kind) (_ : True) := arrowCount_natCast d k
    refine ⟨?_, fun d hd => ?_⟩
    · have hcount := counted_map (f := fun d : Nat => (d : Int) + 1) hP h (d := 0) trivial ts
      rw [arrowFollows_eq_counted, ← hcount]
      rfl
    · obtain ⟨d', -, rfl⟩ :=
        of_mem_depths (f := fun d : Nat => (d : Int) + 1) hP h (d := 0) trivial hd
      omega

end Ambient
