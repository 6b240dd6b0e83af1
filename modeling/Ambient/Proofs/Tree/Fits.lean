import Ambient.Proofs.Tree.From
import Ambient.Proofs.Tree.Settled

/-!
# Parts of a tree where they were read

`Fits` says of a part of a tree what is known of it where it was read: it is read back there, and it
is legible if it is settled. Parts that fit are put together to parts that fit.
-/

namespace Ambient

/-- What is known of a part of a tree that was read, possibly in the `extends` operand of a
conditional type: whether it is read back there, and whether it is settled and legible. -/
structure Fits (inSuper : Bool) (clear : Bool → Bool) (settled legible : Prop) : Prop where
  clear : ∀ s, (s = true → inSuper = true) → clear s = true
  legible : settled → legible

/-- How loosely a type binds where it is read. A function is an operand like any other there, since
its result takes all that stands behind it. -/
def Ty.rank : Ty → Nat
  | .intersection _ => 1
  | .union _ => 2
  | .conditional .. => 3
  | .predicate .. => 4
  | _ => 0

namespace Ty

variable {t : Ty}

theorem isPredicate_of_rank (h : t.rank ≤ 3) : t.isPredicate = false := by
  cases t <;> first | rfl | simp [rank] at h

theorem isConditional_of_rank (h : t.rank ≤ 2) : t.isConditional = false := by
  cases t <;> first | rfl | simp [rank] at h

theorem isUnion_of_rank (h : t.rank ≤ 1) : t.isUnion = false := by
  cases t <;> first | rfl | simp [rank] at h

theorem isIntersection_of_rank (h : t.rank ≤ 0) : t.isIntersection = false := by
  cases t <;> first | rfl | simp [rank] at h

end Ty

/-- A type that was read where it may bind as loosely as `n`. -/
structure Ty.Fits (n : Nat) (inSuper : Bool) (t : Ty) : Prop where
  rank : t.rank ≤ n
  fits : Ambient.Fits inSuper (fun s => t.clear s) t.Settled t.Legible

namespace Fits

variable {i : Bool} {c c' : Bool → Bool} {s s' l l' : Prop}

theorem and (h : Fits i c s l) (h' : Fits i c' s' l') :
    Fits i (fun b => c b && c' b) (s ∧ s') (l ∧ l') where
  clear b hb := by rw [h.clear b hb, h'.clear b hb, Bool.and_self]
  legible hs := ⟨h.legible hs.1, h'.legible hs.2⟩

/-- Inside of brackets it does not matter whether an operand of a conditional type is read. -/
theorem inside (h : Fits false c s l) : Fits i (fun _ => c false) s l where
  clear _ _ := h.clear false id
  legible := h.legible

theorem imp (h : Fits i c s l) (hs : s' → s) (hl : l → l') : Fits i c s' l' where
  clear := h.clear
  legible hs' := hl (h.legible (hs hs'))

/-- Each part of a list. -/
theorem all {α : Type} {f : Bool → α → Bool} {P Q : α → Prop} {xs : List α}
    (h : ∀ x ∈ xs, Fits i (fun b => f b x) (P x) (Q x)) :
    Fits i (fun b => xs.all (f b)) (∀ x ∈ xs, P x) (∀ x ∈ xs, Q x) where
  clear b hb := List.all_eq_true.2 fun x hx => (h x hx).clear b hb
  legible hs x hx := (h x hx).legible (hs x hx)

end Fits

namespace Ty.Fits

variable {n m : Nat} {i : Bool} {t : Ty}

theorem mono (h : t.Fits n i) (hnm : n ≤ m) : t.Fits m i where
  rank := Nat.le_trans h.rank hnm
  fits := h.fits

theorem isPredicate (h : t.Fits 3 i) : t.isPredicate = false :=
  isPredicate_of_rank h.rank

/-- A type that tells nothing about an argument. -/
theorem plain (h : t.Fits 3 i) :
    Ambient.Fits i (fun s => t.clear s) t.Settled (t.isPredicate = false ∧ t.Legible) :=
  h.fits.imp id fun hl => ⟨h.isPredicate, hl⟩

/-- A type in parentheses where these are needed. -/
theorem enclosed (h : t.Fits 0 i) (loose : Bool) :
    Ambient.Fits i (fun s => t.clear (s && !loose)) t.Settled
      (t.isPredicate = false ∧ t.Legible) where
  clear _ hb := h.fits.clear _ fun hc => hb (Bool.and_eq_true_iff.1 hc).1
  legible := (h.mono (Nat.zero_le 3)).plain.legible

end Ty.Fits

/-! ## Lists and parts that may be missing -/

section

variable {i : Bool}

theorem fits_tys {ts : List Ty} (h : ∀ t ∈ ts, t.Fits 3 false) :
    Fits i (fun _ => clearTys ts) (settledTys ts) (legibleTys ts) := by
  simpa only [clearTys_eq_all, settledTys_iff, legibleTys_iff] using
    (Fits.all (f := Ty.clear) fun t ht => (h t ht).plain).inside

theorem fits_opt {o : Option Ty} (h : ∀ t ∈ o, t.Fits 3 i) :
    Fits i (fun s => clearOpt s o) (settledOpt o) (legibleOpt o) := by
  cases o with
  | none => exact ⟨fun _ _ => rfl, fun _ => trivial⟩
  | some t => exact (h t rfl).plain

theorem fits_result {o : Option Ty} (h : ∀ t ∈ o, t.Fits 4 i) :
    Fits i (fun s => clearOpt s o) (settledOpt o) (legibleResult o) := by
  cases o with
  | none => exact ⟨fun _ _ => rfl, fun _ => trivial⟩
  | some t => exact (h t rfl).fits

theorem fits_typeParams {ps : List TypeParam}
    (h : ∀ p ∈ ps, Fits i (fun s => p.clear s) p.Settled p.Legible) :
    Fits i (fun s => clearTypeParams s ps) (settledTypeParams ps) (legibleTypeParams ps) := by
  simpa only [clearTypeParams_eq_all, settledTypeParams_iff, legibleTypeParams_iff] using
    Fits.all (f := TypeParam.clear) h

theorem fits_params {ps : List Param}
    (h : ∀ p ∈ ps, Fits i (fun s => p.clear s) p.Settled p.Legible) :
    Fits i (fun s => clearParams s ps) (settledParams ps) (legibleParams ps) := by
  simpa only [clearParams_eq_all, settledParams_iff, legibleParams_iff] using
    Fits.all (f := Param.clear) h

theorem fits_elements {es : List TupleElement}
    (h : ∀ e ∈ es, Fits false (fun _ => e.clear) e.Settled e.Legible) :
    Fits i (fun _ => clearElements es) (settledElements es) (legibleElements es) := by
  simpa only [clearElements_eq_all, settledElements_iff, legibleElements_iff] using
    (Fits.all (f := fun _ => TupleElement.clear) h).inside

theorem fits_members {ms : List Member}
    (h : ∀ m ∈ ms, Fits false (fun _ => m.clear) m.Settled m.Legible) :
    Fits i (fun _ => clearMembers ms) (settledMembers ms) (legibleMembers ms) := by
  simpa only [clearMembers_eq_all, settledMembers_iff, legibleMembers_iff] using
    (Fits.all (f := fun _ => Member.clear) h).inside

end

/-! ## Types -/

namespace Ty.Fits

variable {i : Bool} {t : Ty} {ts : List Ty}

/-- A type without other types in it. -/
theorem leaf (hrank : t.rank = 0) (hclear : ∀ s, t.clear s = true) (hl : t.Settled → t.Legible) :
    t.Fits 0 i where
  rank := Nat.le_of_eq hrank
  fits := ⟨fun s _ => hclear s, hl⟩

theorem array (h : t.Fits 0 i) : (array t).Fits 0 i where
  rank := Nat.le_refl 0
  fits := h.enclosed t.looserThanPostfix

theorem keyOf (h : t.Fits 0 i) : (keyOf t).Fits 0 i where
  rank := Nat.le_refl 0
  fits := h.enclosed t.looserThanPostfix

theorem operator (op : TypeOperator) (h : t.Fits 0 i)
    (hop : op = .unique → t.startsSymbol = true) : (operator op t).Fits 0 i where
  rank := Nat.le_refl 0
  fits := (h.enclosed t.looserThanPostfix).imp id fun hl => ⟨hop, hl⟩

theorem indexAccess {index : Ty} (h : t.Fits 0 i) (hindex : index.Fits 3 false) :
    (indexAccess t index).Fits 0 i where
  rank := Nat.le_refl 0
  fits := (h.enclosed t.looserThanPostfix).and hindex.plain.inside

theorem conditional {super yes no : Ty} (h : t.Fits 2 false) (hsuper : super.Fits 2 true)
    (hyes : yes.Fits 3 false) (hno : no.Fits 3 false) :
    (conditional t super yes no).Fits 3 false where
  rank := Nat.le_refl 3
  fits.clear s hs := by
    -- the word `extends` was taken up, so no operand is being read
    obtain rfl : s = false := by simpa using hs
    rw [Ty.clear, h.fits.clear false id, isConditional_of_rank hsuper.rank, Bool.not_false,
      hsuper.fits.clear true fun _ => rfl, hyes.fits.clear false id, hno.fits.clear false id]
    rfl
  fits.legible hs :=
    ⟨(h.mono (Nat.le_succ 2)).plain.legible hs.1,
      (hsuper.mono (Nat.le_succ 2)).plain.legible hs.2.1,
      hyes.plain.legible hs.2.2.1, hno.plain.legible hs.2.2.2⟩

/-- One type, or several with signs between them. -/
theorem combined {operator : List Ty → Ty} (loose : Ty → Bool) {m : Nat}
    (hne : ts ≠ []) (h : ∀ t ∈ ts, t.Fits m i)
    (hrank : ∀ ts, (operator ts).rank = m + 1)
    (hlegible : ∀ ts, 2 ≤ ts.length → (∀ t ∈ ts, t.rank ≤ m ∧ t.Legible) →
      (operator ts).Legible)
    (hclear : ∀ s ts, (operator ts).clear s = clearOperands s loose ts)
    (hsettled : ∀ ts, (operator ts).Settled → settledTys ts) :
    (Parser.combined operator ts).Fits (m + 1) i := by
  rcases ts with _ | ⟨t, _ | ⟨u, ts⟩⟩
  · exact absurd rfl hne
  · exact (h t List.mem_cons_self).mono (Nat.le_succ m)
  · refine ⟨Nat.le_of_eq (hrank _), fun s hs => ?_, fun hs => ?_⟩
    · show (operator _).clear s = true
      rw [hclear, clearOperands_eq_all, List.all_eq_true]
      exact fun t ht => (h t ht).fits.clear _ fun hc => hs (Bool.and_eq_true_iff.1 hc).1
    · have hall := settledTys_iff.1 (hsettled _ hs)
      exact hlegible _ (by simp) fun t ht => ⟨(h t ht).rank, (h t ht).fits.legible (hall t ht)⟩

theorem predicate {asserts : Bool} {subject : String} {o : Option Ty} (hsubject : Subject subject)
    (hty : asserts = false → o.isSome = true) (h : ∀ t ∈ o, t.Fits 3 i) :
    (predicate asserts subject o).Fits 4 i where
  rank := Nat.le_refl 4
  fits := (fits_opt h).imp id fun hl => ⟨hsubject, hty, hl⟩

theorem mapped {key : String} {constraint value : Ty} {name : Option Ty}
    {readonly optional : Option MappedModifier} (hkey : Word key)
    (hconstraint : constraint.Fits 3 false) (hname : ∀ t ∈ name, t.Fits 3 false)
    (hvalue : value.Fits 3 false) :
    (mapped key constraint name value readonly optional).Fits 0 i where
  rank := Nat.le_refl 0
  fits := by
    have hopt : Ambient.Fits i (fun _ => clearOpt false name) _ _ := (fits_opt hname).inside
    exact ((hconstraint.plain.inside.and hopt).and hvalue.plain.inside).imp
      (fun hs => ⟨⟨hs.1, hs.2.1⟩, hs.2.2⟩) fun hl => ⟨hkey, hl.1.1, hl.1.2, hl.2⟩

section

variable {sig : Signature} {result : Ty}
  (hsig : Ambient.Fits i (fun s => sig.clear s) sig.Settled sig.Legible) (hresult : result.Fits 4 i)
include hsig hresult

theorem function : (function sig result).Fits 0 i where
  rank := Nat.le_refl 0
  fits.clear s hs := (hsig.and hresult.fits).clear s hs
  fits.legible hs := ⟨hs.1, hsig.legible hs.2.1, hresult.fits.legible hs.2.2⟩

theorem constructor (isAbstract : Bool) : (constructor isAbstract sig result).Fits 0 i where
  rank := Nat.le_refl 0
  fits := hsig.and hresult.fits

end

end Ty.Fits

end Ambient
