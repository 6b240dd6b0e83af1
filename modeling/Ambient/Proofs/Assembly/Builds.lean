import Ambient.Proofs.Assembly.Stages
import Mathlib.Data.List.TakeWhile

/-!
# Building containers step by step

A build fills three containers: the top level of a module, a wrapping namespace and a namespace. Each
step adds copies of declarations to one of them, and a step that meets a declaration which its
container cannot hold fails in front of it and leaves what it has added so far. Steps may follow a
step that failed.

Whatever the steps, each container holds the copies of the declarations that it accepted, in their
order, and nothing else of a build ever changes (`Build.run_holds`). What a single step does is told
by `Build.step_eq`: the container grows by the declarations in front of the first one that it cannot
hold, and that declaration decides what the step says (`verdict`).
-/

namespace Ambient

/-! ## One container -/

/-- What is said when declarations are added to a container that accepts some kinds: their number,
or that the first declaration of another kind cannot be held. -/
def verdict (accepts : DeclKind → Bool) (label : String) (ds : List Decl) :
    Except AssemblyError Nat :=
  match ds.find? fun d => !accepts d.kind with
  | none => .ok ds.length
  | some d => .error (.cannotContain label d.kind)

/-- The declarations in front of the first one that is not accepted. -/
def acceptedFront (accepts : DeclKind → Bool) (ds : List Decl) : List Decl :=
  ds.takeWhile fun d => accepts d.kind

section Verdict

variable {accepts : DeclKind → Bool} {label : String} {ds : List Decl}

theorem verdict_cons_of_accepts {d : Decl} (h : accepts d.kind = true) :
    verdict accepts label (d :: ds) = (verdict accepts label ds).map (· + 1) := by
  rw [verdict, verdict, List.find?_cons_of_neg (by simp [h])]
  cases ds.find? fun d => !accepts d.kind <;> rfl

theorem verdict_cons_of_rejects {d : Decl} (h : accepts d.kind = false) :
    verdict accepts label (d :: ds) = .error (.cannotContain label d.kind) := by
  rw [verdict, List.find?_cons_of_pos (by simp [h])]

/-- Success means that all declarations are accepted, and tells their number. -/
theorem verdict_eq_ok_iff {n : Nat} :
    verdict accepts label ds = .ok n ↔ n = ds.length ∧ ∀ d ∈ ds, accepts d.kind = true := by
  rw [verdict]
  cases hfind : ds.find? fun d => !accepts d.kind with
  | none =>
    have hall : ∀ d ∈ ds, accepts d.kind = true := by
      simpa using List.find?_eq_none.1 hfind
    constructor
    · intro h
      exact ⟨(Except.ok.inj h).symm, hall⟩
    · rintro ⟨rfl, -⟩
      rfl
  | some d =>
    have hd : accepts d.kind = false := by simpa using List.find?_some hfind
    have hmem := List.mem_of_find?_eq_some hfind
    constructor
    · intro h
      cases h
    · rintro ⟨-, hall⟩
      rw [hall d hmem] at hd
      cases hd

/-- Failure tells of the first declaration that is not accepted. -/
theorem verdict_eq_error_iff {e : AssemblyError} :
    verdict accepts label ds = .error e ↔
      ∃ front d back, ds = front ++ d :: back ∧ (∀ x ∈ front, accepts x.kind = true) ∧
        accepts d.kind = false ∧ e = .cannotContain label d.kind := by
  induction ds with
  | nil => simp [verdict]
  | cons d ds ih =>
    cases h : accepts d.kind with
    | true =>
      have hmap : (verdict accepts label ds).map (· + 1) = .error e ↔
          verdict accepts label ds = .error e := by
        cases verdict accepts label ds <;> simp [Except.map]
      rw [verdict_cons_of_accepts h, hmap, ih]
      constructor
      · rintro ⟨front, x, back, rfl, hfront, hx, he⟩
        exact ⟨d :: front, x, back, rfl, by simpa [h] using hfront, hx, he⟩
      · rintro ⟨front, x, back, hds, hfront, hx, he⟩
        cases front with
        | nil =>
          obtain ⟨rfl, -⟩ := List.cons.inj hds
          rw [h] at hx
          cases hx
        | cons y front =>
          obtain ⟨rfl, rfl⟩ := List.cons.inj hds
          exact ⟨front, x, back, rfl, fun z hz => hfront z (List.mem_cons_of_mem _ hz), hx, he⟩
    | false =>
      rw [verdict_cons_of_rejects h]
      constructor
      · intro he
        exact ⟨[], d, ds, rfl, by simp, h, (Except.error.inj he).symm⟩
      · rintro ⟨front, x, back, hds, hfront, -, he⟩
        cases front with
        | nil =>
          obtain ⟨rfl, -⟩ := List.cons.inj hds
          rw [he]
        | cons y front =>
          obtain ⟨rfl, -⟩ := List.cons.inj hds
          rw [hfront d List.mem_cons_self] at h
          cases h

theorem acceptedFront_of_all (h : ∀ d ∈ ds, accepts d.kind = true) :
    acceptedFront accepts ds = ds := by
  rw [acceptedFront, ← List.append_nil ds, List.takeWhile_append_of_pos h]
  rfl

theorem acceptedFront_cons_of_accepts {d : Decl} (h : accepts d.kind = true) :
    acceptedFront accepts (d :: ds) = d :: acceptedFront accepts ds := by
  rw [acceptedFront, acceptedFront, List.takeWhile_cons, if_pos h]

theorem acceptedFront_cons_of_rejects {d : Decl} (h : accepts d.kind = false) :
    acceptedFront accepts (d :: ds) = [] := by
  rw [acceptedFront, List.takeWhile_cons, if_neg (by simp [h])]

theorem acceptedFront_append_cons {front back : List Decl} {d : Decl}
    (hfront : ∀ x ∈ front, accepts x.kind = true) (hd : accepts d.kind = false) :
    acceptedFront accepts (front ++ d :: back) = front := by
  rw [acceptedFront, List.takeWhile_append_of_pos hfront, ← acceptedFront,
    acceptedFront_cons_of_rejects hd, List.append_nil]

end Verdict

namespace Container

variable {α : Type} [Container α]

/-- A container that grows in its place: what it is called and what it accepts stay the same when it
takes in an item. -/
structure Steady (α : Type) [Container α] : Prop where
  label_push (c : α) (i : Item) : label (push c i) = label c
  accepts_push (c : α) (i : Item) : accepts (push c i) = accepts c

theorem steady_module : Steady OutputModule :=
  ⟨fun _ _ => rfl, fun _ _ => rfl⟩

theorem steady_wrapping : Steady WrappingNamespace :=
  ⟨fun _ _ => rfl, fun _ _ => rfl⟩

theorem steady_namespace : Steady Namespace :=
  ⟨fun _ _ => rfl, fun _ _ => rfl⟩

/-- A container takes in copies of the declarations in front of the first one that it cannot
hold. -/
theorem addAll_eq (h : Steady α) (c : α) (ds : List Decl) :
    addAll c ds =
      ((acceptedFront (accepts c) ds).foldl (fun c d => push c (.decl d.regrouped)) c,
        verdict (accepts c) (label c) ds) := by
  induction ds generalizing c with
  | nil => rfl
  | cons d ds ih =>
    rw [addAll, add, Decl.kind_regrouped]
    cases hd : accepts c d.kind with
    | true =>
      have hrest := ih (push c (.decl d.regrouped))
      rw [h.label_push, h.accepts_push] at hrest
      rw [verdict_cons_of_accepts hd, acceptedFront_cons_of_accepts hd]
      simp only [if_true, hrest]
      rfl
    | false =>
      rw [verdict_cons_of_rejects hd, acceptedFront_cons_of_rejects hd]
      rfl

/-- Adding declarations of one kind fails when adding them does. -/
theorem outcome_addKind_bind (c : α) (k : DeclKind) (ds : List Decl) :
    ((addKind c k ds).outcome >>= fun _ => (addAll c ds).2) = (addAll c ds).2 := by
  rw [addKind]
  cases (addAll c ds).2 <;> rfl

end Container

/-! ## Steps -/

/-- What is added to a container in one step. -/
inductive Addition where
  /-- Copies of some declarations, in their order. -/
  | copies (ds : List Decl)
  /-- Copies of declarations of one kind, whose number is reported. -/
  | copiesOf (k : DeclKind) (ds : List Decl)
  /-- The copy of one declaration. -/
  | copy (d : Decl)

namespace Addition

/-- The declarations that are added. -/
def decls : Addition → List Decl
  | copies ds => ds
  | copiesOf _ ds => ds
  | copy d => [d]

/-- The container after the step, and how many declarations were added or why the step failed. -/
def addTo {α : Type} [Container α] : Addition → α → α × Except AssemblyError Nat
  | copies ds, c => Container.addAll c ds
  | copiesOf k ds, c =>
    let r := Container.addAll c ds
    (r.1, (Container.addKind c k ds).outcome >>= fun _ => r.2)
  | copy d, c =>
    match Container.add c d.regrouped with
    | .ok c => (c, .ok 1)
    | .error e => (c, .error e)

/-- The ways to add declarations differ in what they report only. -/
theorem addTo_eq {α : Type} [Container α] (a : Addition) (c : α) :
    a.addTo c = Container.addAll c a.decls := by
  cases a with
  | copies ds => rfl
  | copiesOf k ds => exact Prod.ext rfl (Container.outcome_addKind_bind c k ds)
  | copy d =>
    rw [addTo, decls, Container.addAll]
    cases Container.add c d.regrouped <;> rfl

end Addition

/-! ## Builds -/

/-- The containers of a build. -/
inductive Dest where
  | module | wrapping | inner
  deriving DecidableEq, Repr

/-- The kinds that a container holds: the top level of a module only those that can be hoisted. -/
def Dest.accepts : Dest → DeclKind → Bool
  | module => DeclKind.isSeparable
  | wrapping | inner => fun _ => true

/-- Three containers that are filled. -/
structure Build where
  module : OutputModule
  wrapping : WrappingNamespace
  inner : Namespace

namespace Build

/-- The containers before the first step, empty but for what else they have. -/
def start (m : OutputModule) (w : WrappingNamespace) (n : Namespace) : Build :=
  ⟨{ m with items := [] }, { w with items := [] }, { n with items := [] }⟩

/-- A container in messages. -/
def label (s : Build) : Dest → String
  | .module => Container.label s.module
  | .wrapping => Container.label s.wrapping
  | .inner => Container.label s.inner

/-- The build with copies of some declarations behind the items of one container, and without any
other difference. -/
def extended (s : Build) (ds : List Decl) : Dest → Build
  | .module => { s with module := { s.module with items := s.module.items ++ ds.map Decl.copied } }
  | .wrapping =>
    { s with wrapping := { s.wrapping with items := s.wrapping.items ++ ds.map Decl.copied } }
  | .inner => { s with inner := { s.inner with items := s.inner.items ++ ds.map Decl.copied } }

/-- One step: something is added to one of the containers. -/
def step (s : Build) (dest : Dest) (a : Addition) : Build × Except AssemblyError Nat :=
  match dest with
  | .module => let r := a.addTo s.module; ({ s with module := r.1 }, r.2)
  | .wrapping => let r := a.addTo s.wrapping; ({ s with wrapping := r.1 }, r.2)
  | .inner => let r := a.addTo s.inner; ({ s with inner := r.1 }, r.2)

/-- Steps one after the other, whether they fail or not. -/
def run (s : Build) (steps : List (Dest × Addition)) : Build :=
  steps.foldl (fun s x => (s.step x.1 x.2).1) s

/-- The declarations that a container has accepted in some steps: of each step that adds to it,
those in front of the first one that it cannot hold. -/
def acceptedBy (dest : Dest) (steps : List (Dest × Addition)) : List Decl :=
  steps.flatMap fun x => if x.1 = dest then acceptedFront dest.accepts x.2.decls else []

theorem foldl_push_inner (ds : List Decl) (n : Namespace) :
    ds.foldl (fun n d => Container.push n (.decl d.regrouped)) n =
      { n with items := n.items ++ ds.map Decl.copied } := by
  induction ds generalizing n with
  | nil =>
    -- a structure of a mutual block is not its constructor applied to its fields by definition
    cases n
    simp
  | cons d ds ih =>
    rw [List.foldl_cons, ih]
    simp [Container.push, Decl.copied]

/-- **What a step does**: it adds the declarations that are accepted to its container, and says
whether these are all. -/
theorem step_eq (s : Build) (dest : Dest) (a : Addition) :
    s.step dest a =
      (s.extended (acceptedFront dest.accepts a.decls) dest,
        verdict dest.accepts (s.label dest) a.decls) := by
  cases dest with
  | module =>
    rw [step]
    simp only [a.addTo_eq, Container.addAll_eq Container.steady_module, foldl_push_module]
    rfl
  | wrapping =>
    rw [step]
    simp only [a.addTo_eq, Container.addAll_eq Container.steady_wrapping, foldl_push_wrapping]
    rfl
  | inner =>
    rw [step]
    simp only [a.addTo_eq, Container.addAll_eq Container.steady_namespace, foldl_push_inner]
    rfl

/-- The build that started from some containers and in which each container holds the copies of
given declarations. -/
def filled (m : OutputModule) (w : WrappingNamespace) (n : Namespace) (ds : Dest → List Decl) :
    Build :=
  ⟨{ m with items := (ds .module).map Decl.copied },
    { w with items := (ds .wrapping).map Decl.copied },
    { n with items := (ds .inner).map Decl.copied }⟩

theorem extended_filled (m : OutputModule) (w : WrappingNamespace) (n : Namespace)
    (ds : Dest → List Decl) (es : List Decl) (dest : Dest) :
    (filled m w n ds).extended es dest =
      filled m w n fun d => ds d ++ if dest = d then es else [] := by
  cases dest <;> simp [filled, extended]

theorem run_filled (m : OutputModule) (w : WrappingNamespace) (n : Namespace)
    (ds : Dest → List Decl) (steps : List (Dest × Addition)) :
    (filled m w n ds).run steps = filled m w n fun d => ds d ++ acceptedBy d steps := by
  induction steps generalizing ds with
  | nil => simp [run, acceptedBy]
  | cons x steps ih =>
    obtain ⟨dest, a⟩ := x
    have hstep : ((filled m w n ds).step dest a).1 =
        filled m w n fun d => ds d ++ if dest = d then acceptedFront d.accepts a.decls else [] := by
      rw [step_eq]
      refine (extended_filled m w n ds _ dest).trans (congrArg (filled m w n) (funext fun d => ?_))
      by_cases h : dest = d
      · rw [if_pos h, if_pos h, h]
      · rw [if_neg h, if_neg h]
    rw [run, List.foldl_cons, hstep, ← run, ih]
    simp only [acceptedBy, List.flatMap_cons, List.append_assoc]

/-- What a container has accepted is of the kinds that it holds. -/
theorem accepts_of_mem_acceptedBy {dest : Dest} {steps : List (Dest × Addition)} {d : Decl}
    (h : d ∈ acceptedBy dest steps) : dest.accepts d.kind = true := by
  obtain ⟨x, -, hx⟩ := List.mem_flatMap.1 h
  by_cases hdest : x.1 = dest
  · rw [if_pos hdest, acceptedFront] at hx
    exact List.mem_takeWhile_imp (p := fun d : Decl => dest.accepts d.kind) hx
  · rw [if_neg hdest] at hx
    cases hx

/-- What a step does to a build and what it says. That the other containers stay as they are, and
the container but for its items, is part of `Build.extended`. -/
structure StepHolds (s : Build) (dest : Dest) (a : Addition) : Prop where
  /-- Success, exactly if the container accepts all declarations, tells their number. -/
  ok_iff (n : Nat) : (s.step dest a).2 = .ok n ↔
    n = a.decls.length ∧ ∀ d ∈ a.decls, dest.accepts d.kind = true
  /-- Failure names the container and the kind of the first declaration that it cannot hold. -/
  error_iff (e : AssemblyError) : (s.step dest a).2 = .error e ↔
    ∃ front d back, a.decls = front ++ d :: back ∧
      (∀ x ∈ front, dest.accepts x.kind = true) ∧ dest.accepts d.kind = false ∧
      e = .cannotContain (s.label dest) d.kind
  /-- Behind a success all declarations are there. -/
  success (h : ∀ d ∈ a.decls, dest.accepts d.kind = true) :
    (s.step dest a).1 = s.extended a.decls dest
  /-- Behind a failure those in front of the first one that cannot be held are there. -/
  failure {front back : List Decl} {d : Decl} (hds : a.decls = front ++ d :: back)
    (hfront : ∀ x ∈ front, dest.accepts x.kind = true) (hd : dest.accepts d.kind = false) :
    (s.step dest a).1 = s.extended front dest

theorem stepHolds (s : Build) (dest : Dest) (a : Addition) : s.StepHolds dest a := by
  constructor
  case ok_iff =>
    intro n
    rw [step_eq]
    exact verdict_eq_ok_iff
  case error_iff =>
    intro e
    rw [step_eq]
    exact verdict_eq_error_iff
  case success =>
    intro h
    rw [step_eq, acceptedFront_of_all h]
  case failure =>
    intro front back d hds hfront hd
    rw [step_eq, hds, acceptedFront_append_cons hfront hd]

/-- **What the containers of a build hold after any steps**: the copies of what each has accepted, in
order, and what else each container had at the start. The top level of the module holds
enumerations, interfaces and type aliases only. The next step succeeds exactly if all its
declarations are accepted, and otherwise keeps those in front of the first one that is not. -/
theorem run_holds (m : OutputModule) (w : WrappingNamespace) (n : Namespace)
    (steps : List (Dest × Addition)) :
    let s := (start m w n).run steps
    s.module = { m with items := (acceptedBy .module steps).map Decl.copied } ∧
      s.wrapping = { w with items := (acceptedBy .wrapping steps).map Decl.copied } ∧
      s.inner = { n with items := (acceptedBy .inner steps).map Decl.copied } ∧
      (∀ i ∈ s.module.items, ∃ d : Decl, i = .decl d ∧
        (d.kind = .enum ∨ d.kind = .interface ∨ d.kind = .typeAlias)) ∧
      ∀ dest a, s.StepHolds dest a := by
  intro s
  have hs : s = filled m w n fun d => acceptedBy d steps := run_filled m w n (fun _ => []) steps
  refine ⟨by rw [hs]; rfl, by rw [hs]; rfl, by rw [hs]; rfl, ?_, s.stepHolds⟩
  intro i hi
  rw [hs] at hi
  obtain ⟨d, hd, rfl⟩ := List.mem_map.1 hi
  refine ⟨d.regrouped, rfl, ?_⟩
  have hkind : d.kind.isSeparable = true := accepts_of_mem_acceptedBy hd
  rw [d.kind_regrouped]
  cases hk : d.kind <;> rw [hk] at hkind <;> simp_all [DeclKind.isSeparable]

end Build

end Ambient
