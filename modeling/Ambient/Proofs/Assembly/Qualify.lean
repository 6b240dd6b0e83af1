import Ambient.Proofs.Assembly.Outcome

/-!
# What qualifying changes

A rule changes one union of a module and nothing around it. `UnionPlace` is such a union with all
that stands around it, `Requalified` relates the members of the union before and after, and
`QualifyRule.apply_changes` says what one rule does to a module in terms of these, whether it
applies or not.

Rules see what the rules before them have left. If no listed name is another one with the namespace
in front (`NamesApart`), this makes no difference: what a run of rules comes to depends on the
interfaces that they name and on the names that they list for each, and a second run changes nothing
(`applyRules_settled`).
-/

namespace Ambient

/-! ## The members of a union -/

/-- What qualifying some names does to the members of a union, and how many members it changes. -/
inductive Requalified (names : List String) (ns : String) : List Ty → List Ty → Nat → Prop
  | nil : Requalified names ns [] [] 0
  /-- A name that is listed gets the namespace in front and keeps its type arguments. -/
  | listed {name : String} {args : List Ty} {ts us : List Ty} {n : Nat} (hname : name ∈ names)
    (h : Requalified names ns ts us n) :
    Requalified names ns (.named name args :: ts) (.named (ns ++ "." ++ name) args :: us) (n + 1)
  /-- Every other member stays as it is, whatever names there are inside it. -/
  | other {t : Ty} {ts us : List Ty} {n : Nat}
    (ht : ∀ name args, t = .named name args → name ∉ names) (h : Requalified names ns ts us n) :
    Requalified names ns (t :: ts) (t :: us) n

theorem QualifyRule.affects_eq_false_iff {r : QualifyRule} {t : Ty} :
    r.affects t = false ↔ ∀ name args, t = .named name args → name ∉ r.names := by
  cases t <;> simp [affects]

theorem QualifyRule.qualify_of_not_affects {r : QualifyRule} {ns : String} {t : Ty}
    (h : r.affects t = false) : r.qualify ns t = t := by
  cases t with
  | named name args =>
    have hname : name ∉ r.names := by simpa [affects] using h
    rw [qualify, if_neg hname]
  | _ => rfl

theorem requalified_map (r : QualifyRule) (ns : String) (ts : List Ty) :
    Requalified r.names ns ts (ts.map (r.qualify ns)) (ts.countP r.affects) := by
  induction ts with
  | nil => exact .nil
  | cons t ts ih =>
    cases h : r.affects t with
    | true =>
      cases t with
      | named name args =>
        have hname : name ∈ r.names := by simpa [QualifyRule.affects] using h
        rw [List.countP_cons_of_pos h, List.map_cons, QualifyRule.qualify, if_pos hname]
        exact .listed hname ih
      | _ => cases h
    | false =>
      -- this covers names that are not listed as well as all types that are no names
      rw [List.countP_cons_of_neg (by simp [h]), List.map_cons,
        QualifyRule.qualify_of_not_affects h]
      exact .other (QualifyRule.affects_eq_false_iff.1 h) ih

/-- The members before determine those after, and the number. -/
theorem Requalified.eq_map {r : QualifyRule} {ns : String} {ts us : List Ty} {n : Nat}
    (h : Requalified r.names ns ts us n) :
    us = ts.map (r.qualify ns) ∧ n = ts.countP r.affects := by
  induction h with
  | nil => exact ⟨rfl, rfl⟩
  | @listed name args ts us n hname _ ih =>
    have haffects : r.affects (.named name args) = true := by
      simpa [QualifyRule.affects] using hname
    rw [List.countP_cons_of_pos haffects, List.map_cons, QualifyRule.qualify, if_pos hname,
      ← ih.1, ← ih.2]
    exact ⟨rfl, rfl⟩
  | @other t ts us n ht _ ih =>
    have haffects := QualifyRule.affects_eq_false_iff.2 ht
    rw [List.countP_cons_of_neg (by simp [haffects]), List.map_cons,
      QualifyRule.qualify_of_not_affects haffects, ← ih.1, ← ih.2]
    exact ⟨rfl, rfl⟩

/-- A name is longer with a namespace in front. -/
theorem ne_qualified (ns name : String) : name ≠ ns ++ "." ++ name := by
  intro h
  have hlength := congrArg String.length h
  simp only [String.length_append] at hlength
  have hdot : ".".length = 1 := rfl
  omega

/-- If nothing is different afterwards, no member has been changed. -/
theorem Requalified.eq_zero {names : List String} {ns : String} {ts us : List Ty} {n : Nat}
    (h : Requalified names ns ts us n) (hsame : us = ts) : n = 0 := by
  induction h with
  | nil => rfl
  | @listed name args ts us n hname _ ih =>
    have hqualified : ns ++ "." ++ name = name := (Ty.named.inj (List.cons.inj hsame).1).1
    exact absurd hqualified.symm (ne_qualified ns name)
  | other _ _ ih => exact ih (List.cons.inj hsame).2

/-! ## The place of a union -/

/-- A place for the members of a union: it is the value type of an index signature of an interface
among some items. The members of the interface and the value type of the signature are given by the
place, and not by the fields for them here. -/
structure UnionPlace where
  itemsBefore : List Item
  interface : Interface
  membersBefore : List Member
  doc : Option String
  signature : IndexSignature
  membersAfter : List Member
  itemsAfter : List Item

namespace UnionPlace

/-- The interface when the union has some members. -/
def filled (p : UnionPlace) (ts : List Ty) : Interface :=
  { p.interface with
    members := p.membersBefore ++
      ⟨p.doc, .index { p.signature with valueType := .union ts }⟩ :: p.membersAfter }

/-- The items when the union has some members. -/
def items (p : UnionPlace) (ts : List Ty) : List Item :=
  p.itemsBefore ++ .decl (.interface (p.filled ts)) :: p.itemsAfter

/-- A place in the first index signature of the first interface with a name. -/
structure IsFirst (p : UnionPlace) (name : String) : Prop where
  name_eq : p.interface.name = name
  interface : ∀ i ∈ interfacesOf p.itemsBefore, i.name ≠ name
  signature : ∀ doc sig, ⟨doc, .index sig⟩ ∉ p.membersBefore

theorem items_injective (p : UnionPlace) {ts us : List Ty} (h : p.items ts = p.items us) :
    ts = us := by
  simpa [items, filled] using h

end UnionPlace

/-- The first index signature, behind members of other shapes. -/
theorem firstIndex?_append {before : List Member} (h : ∀ doc sig, ⟨doc, .index sig⟩ ∉ before)
    (doc : Option String) (sig : IndexSignature) (after : List Member) :
    firstIndex? (before ++ ⟨doc, .index sig⟩ :: after) = some sig := by
  induction before with
  | nil => rfl
  | cons m before ih =>
    obtain ⟨mdoc, shape⟩ := m
    have hrest := ih fun doc sig hmem => h doc sig (List.mem_cons_of_mem _ hmem)
    cases shape with
    | index s => exact absurd List.mem_cons_self (h mdoc s)
    | _ =>
      show firstIndex? (before ++ ⟨doc, .index sig⟩ :: after) = some sig
      exact hrest

theorem replaceFirstIndex_append {before : List Member}
    (h : ∀ doc sig, ⟨doc, .index sig⟩ ∉ before) (doc : Option String) (sig new : IndexSignature)
    (after : List Member) :
    replaceFirstIndex new (before ++ ⟨doc, .index sig⟩ :: after) =
      before ++ ⟨doc, .index new⟩ :: after := by
  induction before with
  | nil => rfl
  | cons m before ih =>
    obtain ⟨mdoc, shape⟩ := m
    have hrest := ih fun doc sig hmem => h doc sig (List.mem_cons_of_mem _ hmem)
    cases shape with
    | index s => exact absurd List.mem_cons_self (h mdoc s)
    | _ => exact congrArg _ hrest

theorem exists_of_firstIndex? {ms : List Member} {sig : IndexSignature}
    (h : firstIndex? ms = some sig) :
    ∃ before doc after, ms = before ++ ⟨doc, .index sig⟩ :: after ∧
      ∀ doc sig, ⟨doc, .index sig⟩ ∉ before := by
  induction ms with
  | nil => cases h
  | cons m ms ih =>
    obtain ⟨mdoc, shape⟩ := m
    cases shape with
    | index s =>
      obtain rfl : s = sig := Option.some.inj h
      exact ⟨[], mdoc, ms, rfl, by simp⟩
    | _ =>
      obtain ⟨before, doc, after, rfl, hbefore⟩ := ih h
      exact ⟨_ :: before, doc, after, rfl, by simpa using hbefore⟩

theorem Interface.exists_union_of_fault? {i : Interface} (h : i.fault? = none) :
    ∃ sig ts, firstIndex? i.members = some sig ∧ sig.valueType = .union ts := by
  rw [fault?, unionAtIndex?] at h
  cases hsig : firstIndex? i.members with
  | none => rw [hsig] at h; cases h
  | some sig =>
    rw [hsig] at h
    refine ⟨sig, ?_⟩
    cases hty : sig.valueType with
    | union ts => exact ⟨ts, rfl, rfl⟩
    | _ => simp [hty] at h

/-- The first interface with a name, behind interfaces with other names. -/
theorem findInterface?_append {name : String} {before : List Item}
    (h : ∀ i ∈ interfacesOf before, i.name ≠ name) {i : Interface} (hi : i.name = name)
    (after : List Item) :
    findInterface? name (before ++ .decl (.interface i) :: after) = some i := by
  have hnone : (interfacesOf before).find? (fun j => j.name = name) = none := by
    simpa [List.find?_eq_none] using h
  have hhead : interfacesOf (.decl (.interface i) :: after) = i :: interfacesOf after := rfl
  rw [findInterface?, interfacesOf_append, List.find?_append, hnone, Option.none_or, hhead,
    List.find?_cons_of_pos (by simpa using hi)]

theorem replaceInterface_append {name : String} {before : List Item}
    (h : ∀ i ∈ interfacesOf before, i.name ≠ name) {i : Interface} (hi : i.name = name)
    (new : Interface) (after : List Item) :
    replaceInterface name new (before ++ .decl (.interface i) :: after) =
      before ++ .decl (.interface new) :: after := by
  induction before with
  | nil => rw [List.nil_append, replaceInterface, if_pos hi, List.nil_append]
  | cons item before ih =>
    cases item with
    | decl d =>
      cases d with
      | interface j =>
        have hinterfaces : interfacesOf (.decl (.interface j) :: before) =
          j :: interfacesOf before := rfl
        rw [hinterfaces] at h
        rw [List.cons_append, replaceInterface, if_neg (h j List.mem_cons_self),
          ih fun i hi => h i (List.mem_cons_of_mem _ hi), List.cons_append]
      | _ => exact congrArg _ (ih h)
    | _ => exact congrArg _ (ih h)

section Place

variable {r : QualifyRule} {ns : String} {m : OutputModule} {p : UnionPlace} {ts : List Ty}

/-- A rule is applied to the union in its place. -/
theorem QualifyRule.apply_of_place (hp : p.IsFirst r.interface) (hm : m.items = p.items ts) :
    r.apply ns m =
      .ok ({ m with items := p.items (ts.map (r.qualify ns)) }, ts.countP r.affects) := by
  have hname : (p.filled ts).name = r.interface := hp.name_eq
  have hfind : findInterface? r.interface m.items = some (p.filled ts) := by
    rw [hm, UnionPlace.items, findInterface?_append hp.interface hname]
  -- the search for the signature stops at the place, and so does the replacement
  have happlyTo : r.applyTo ns (p.filled ts) =
      .ok (p.filled (ts.map (r.qualify ns)), ts.countP r.affects) := by
    rw [applyTo, UnionPlace.filled, firstIndex?_append hp.signature]
    simp only [replaceFirstIndex_append hp.signature]
    rfl
  have hreplace : replaceInterface r.interface (p.filled (ts.map (r.qualify ns))) m.items =
      p.items (ts.map (r.qualify ns)) := by
    rw [hm, UnionPlace.items, replaceInterface_append hp.interface hname, UnionPlace.items]
  rw [apply, hfind]
  simp only [happlyTo]
  rw [← hreplace]
  rfl

/-- A rule without fault has a place. -/
theorem QualifyRule.exists_place (h : r.fault? (interfacesOf m.items) = none) :
    ∃ (p : UnionPlace) (ts : List Ty), p.IsFirst r.interface ∧ m.items = p.items ts := by
  rw [fault?, ← findInterface?] at h
  cases hi : findInterface? r.interface m.items with
  | none => rw [hi] at h; cases h
  | some i =>
    rw [hi] at h
    obtain ⟨sig, ts, hsig, hts⟩ := Interface.exists_union_of_fault? h
    obtain ⟨itemsBefore, itemsAfter, hitems, hbefore, hname, -⟩ := replaceInterface_of_find hi i
    obtain ⟨membersBefore, doc, membersAfter, hmembers, hindex⟩ := exists_of_firstIndex? hsig
    let p : UnionPlace := ⟨itemsBefore, i, membersBefore, doc, sig, membersAfter, itemsAfter⟩
    -- what the place is filled with stood there before
    have hfilled : p.filled ts = i := by
      obtain ⟨key, keyType, valueType, readonly, isStatic⟩ := sig
      obtain rfl : valueType = .union ts := hts
      rw [UnionPlace.filled, ← hmembers]
    refine ⟨p, ts, ⟨hname, hbefore, hindex⟩, ?_⟩
    rw [UnionPlace.items, hfilled, hitems]

theorem QualifyRule.apply_eq_ok_iff {m' : OutputModule} {count : Nat} :
    r.apply ns m = .ok (m', count) ↔
      ∃ (p : UnionPlace) (ts us : List Ty), p.IsFirst r.interface ∧ m.items = p.items ts ∧
        Requalified r.names ns ts us count ∧ m' = { m with items := p.items us } := by
  constructor
  · intro h
    rcases r.apply_cases ns m with ⟨f, -, he⟩ | ⟨hfault, -⟩
    · rw [he] at h
      cases h
    · obtain ⟨p, ts, hp, hm⟩ := exists_place hfault
      rw [apply_of_place hp hm] at h
      cases h
      exact ⟨p, ts, _, hp, hm, requalified_map r ns ts, rfl⟩
  · rintro ⟨p, ts, us, hp, hm, hus, rfl⟩
    obtain ⟨rfl, rfl⟩ := hus.eq_map
    exact apply_of_place hp hm

theorem QualifyRule.apply_eq_error_iff {e : AssemblyError} :
    r.apply ns m = .error e ↔
      ∃ f, r.fault? (interfacesOf m.items) = some f ∧ e = .cannotQualify r.interface f := by
  rcases r.apply_cases ns m with ⟨f, hf, he⟩ | ⟨hf, m', count, hm', -⟩
  · rw [he, hf]
    constructor
    · intro h
      exact ⟨f, rfl, (Except.error.inj h).symm⟩
    · rintro ⟨g, hg, rfl⟩
      obtain rfl : f = g := Option.some.inj hg
      rfl
  · simp [hm', hf]

end Place

/-! ## One rule -/

/-- The report of a rule that has been applied. -/
def QualifyRule.report (r : QualifyRule) (count : Nat) : Event :=
  { level := .debug, topic := .qualifying, message := "qualified union members"
    fields := [("interface", r.interface), ("rewritten", toString count)] }

theorem applyRules_cons_of_ok {r : QualifyRule} {ns : String} {m m' : OutputModule} {count : Nat}
    (h : r.apply ns m = .ok (m', count)) (rs : List QualifyRule) :
    applyRules ns (r :: rs) m =
      ((applyRules ns rs m').1,
        ⟨r.report count :: (applyRules ns rs m').2.events, (applyRules ns rs m').2.outcome⟩) := by
  rw [applyRules, h]
  rfl

theorem applyRules_cons_of_error {r : QualifyRule} {ns : String} {m : OutputModule}
    {e : AssemblyError} (h : r.apply ns m = .error e) (rs : List QualifyRule) :
    applyRules ns (r :: rs) m = (m, ⟨[], .error e⟩) := by
  rw [applyRules, h]
  rfl

/-- **A rule changes exactly what it names.** It applies if the first interface with its name has a
union as the value type of its first index signature, and then only the members of this union can be
different afterwards: those that are listed names get the namespace in front, and the count is the
number of these. Otherwise the error says what is missing, and the module is left as it was. -/
theorem QualifyRule.apply_changes (r : QualifyRule) (ns : String) (m : OutputModule) :
    (∀ m' count, r.apply ns m = .ok (m', count) ↔
      ∃ (p : UnionPlace) (ts us : List Ty), p.IsFirst r.interface ∧ m.items = p.items ts ∧
        Requalified r.names ns ts us count ∧ m' = { m with items := p.items us }) ∧
    (∀ e, r.apply ns m = .error e ↔
      ∃ f, r.fault? (interfacesOf m.items) = some f ∧ e = .cannotQualify r.interface f) ∧
    applyRules ns [r] m =
      match r.apply ns m with
      | .ok (m', count) => (m', ⟨[r.report count], .ok ()⟩)
      | .error e => (m, ⟨[], .error e⟩) := by
  refine ⟨?_, ?_, ?_⟩
  · intro m' count
    exact apply_eq_ok_iff
  · intro e
    exact apply_eq_error_iff
  · cases h : r.apply ns m with
    | ok x => exact applyRules_cons_of_ok h []
    | error e => exact applyRules_cons_of_error h []

/-! ## Rules one after the other -/

/-- The names that rules list. -/
def listedNames (rs : List QualifyRule) : List String :=
  rs.flatMap (·.names)

/-- No listed name is another listed name with the namespace in front. -/
def NamesApart (ns : String) (rs : List QualifyRule) : Prop :=
  ∀ a ∈ listedNames rs, ∀ b ∈ listedNames rs, b ≠ a → a ≠ ns ++ "." ++ b

instance (ns : String) (rs : List QualifyRule) : Decidable (NamesApart ns rs) :=
  inferInstanceAs
    (Decidable (∀ a ∈ listedNames rs, ∀ b ∈ listedNames rs, b ≠ a → a ≠ ns ++ "." ++ b))

/-- Two lists of rules name the same interfaces. -/
def SameInterfaces (rs qs : List QualifyRule) : Prop :=
  ∀ interface, (∃ r ∈ rs, r.interface = interface) ↔ ∃ q ∈ qs, q.interface = interface

/-- Two lists of rules list the same names for each interface. -/
def SamePairs (rs qs : List QualifyRule) : Prop :=
  ∀ interface name, (∃ r ∈ rs, r.interface = interface ∧ name ∈ r.names) ↔
    ∃ q ∈ qs, q.interface = interface ∧ name ∈ q.names

theorem mem_listedNames {rs : List QualifyRule} {name : String} :
    name ∈ listedNames rs ↔ ∃ r ∈ rs, name ∈ r.names :=
  List.mem_flatMap

theorem NamesApart.mono {ns : String} {rs qs : List QualifyRule} (h : NamesApart ns rs)
    (hsub : ∀ name ∈ listedNames qs, name ∈ listedNames rs) : NamesApart ns qs := by
  intro a ha b hb
  exact h a (hsub a ha) b (hsub b hb)

/-- A name that has been qualified is not listed. -/
theorem NamesApart.qualified_not_mem {ns : String} {rs : List QualifyRule} (h : NamesApart ns rs)
    {name : String} (hname : name ∈ listedNames rs) : ns ++ "." ++ name ∉ listedNames rs := by
  intro hmem
  exact h _ hmem name hname (ne_qualified ns name) rfl

theorem QualifyRule.qualify_named (r : QualifyRule) (ns name : String) (args : List Ty) :
    r.qualify ns (.named name args) =
      .named (if name ∈ r.names then ns ++ "." ++ name else name) args := by
  rw [qualify]
  split <;> rfl

/-- Together, rules qualify each name that one of them lists, and qualify it once. -/
theorem qualifyAll_named {ns : String} {rs : List QualifyRule} (h : NamesApart ns rs)
    (name : String) (args : List Ty) :
    qualifyAll ns rs (.named name args) =
      .named (if name ∈ listedNames rs then ns ++ "." ++ name else name) args := by
  induction rs generalizing name with
  | nil => rfl
  | cons r rs ih =>
    have hlisted (a : String) : a ∈ listedNames (r :: rs) ↔ a ∈ r.names ∨ a ∈ listedNames rs :=
      List.mem_append
    have hrs : NamesApart ns rs := h.mono fun a ha => (hlisted a).2 (.inr ha)
    show qualifyAll ns rs (r.qualify ns (.named name args)) = _
    rw [r.qualify_named, ih hrs]
    by_cases hname : name ∈ r.names
    · have hmem : name ∈ listedNames (r :: rs) := (hlisted name).2 (.inl hname)
      -- the rules behind leave a name alone that has been qualified
      have hnot : ns ++ "." ++ name ∉ listedNames rs := fun hq =>
        h.qualified_not_mem hmem ((hlisted _).2 (.inr hq))
      rw [if_pos hname, if_neg hnot, if_pos hmem]
    · simp only [hlisted, hname, false_or, if_false]

/-- Without that, a rule can qualify what the rule before it has qualified. -/
example :
    let rs : List QualifyRule := [⟨"MapLike", ["Node"]⟩, ⟨"MapLike", ["ts.Node"]⟩]
    ¬NamesApart "ts" rs ∧ qualifyAll "ts" rs (.named "Node" []) = .named "ts.ts.Node" [] :=
  ⟨by decide, rfl⟩

theorem qualifyAll_of_not_named {ns : String} (rs : List QualifyRule) {t : Ty}
    (ht : ∀ name args, t ≠ .named name args) : qualifyAll ns rs t = t := by
  have hqualify (r : QualifyRule) : r.qualify ns t = t := by
    cases t with
    | named name args => exact absurd rfl (ht name args)
    | _ => rfl
  induction rs with
  | nil => rfl
  | cons r rs ih =>
    show qualifyAll ns rs (r.qualify ns t) = t
    rw [hqualify, ih]

theorem qualifyAll_congr {ns : String} {rs qs : List QualifyRule} (h : NamesApart ns rs)
    (hsame : ∀ name, name ∈ listedNames rs ↔ name ∈ listedNames qs) :
    qualifyAll ns rs = qualifyAll ns qs := by
  have hqs : NamesApart ns qs := h.mono fun name hname => (hsame name).2 hname
  funext t
  cases t with
  | named name args =>
    rw [qualifyAll_named h, qualifyAll_named hqs]
    simp only [hsame]
  | _ => rw [qualifyAll_of_not_named _ (by simp), qualifyAll_of_not_named _ (by simp)]

theorem Interface.qualified_congr {ns : String} {rs qs : List QualifyRule} (h : NamesApart ns rs)
    (hsame : SamePairs rs qs) (i : Interface) : i.qualified ns rs = i.qualified ns qs := by
  have hown (rs : List QualifyRule) (name : String) :
      name ∈ listedNames (rs.filter fun r => r.interface = i.name) ↔
        ∃ r ∈ rs, r.interface = i.name ∧ name ∈ r.names := by
    simp [mem_listedNames, and_assoc]
  have hapart : NamesApart ns (rs.filter fun r => r.interface = i.name) := by
    refine h.mono fun name hname => ?_
    obtain ⟨r, hr, -, hlisted⟩ := (hown rs name).1 hname
    exact mem_listedNames.2 ⟨r, hr, hlisted⟩
  rw [Interface.qualified, Interface.qualified, qualifyAll_congr hapart fun name => ?_]
  rw [hown, hown]
  exact hsame i.name name

theorem qualifiedFirsts_congr {ns : String} {rs qs : List QualifyRule}
    (h : ∀ i : Interface, i.qualified ns rs = i.qualified ns qs) (seen : List String)
    (items : List Item) : qualifiedFirsts ns rs seen items = qualifiedFirsts ns qs seen items := by
  fun_induction qualifiedFirsts ns rs seen items with
  | case1 => rfl
  | case2 seen i is ih => rw [qualifiedFirsts, ih, h]
  | case3 seen i is hi ih =>
    rw [qualifiedFirsts, ih]
    exact hi

/-- Rules can be applied if and only if none of them has a fault, which depends on the interface
that it names alone. -/
theorem applyRules_ok_iff (ns : String) (rs : List QualifyRule) (m : OutputModule) :
    (applyRules ns rs m).2.outcome = .ok () ↔
      ∀ r ∈ rs, r.fault? (interfacesOf m.items) = none := by
  rw [outcome_applyRules, ← firstFault?_eq_none_iff]
  cases firstFault? rs (interfacesOf m.items) <;> simp

theorem applyRules_ok_congr {ns : String} {rs qs : List QualifyRule} (h : SameInterfaces rs qs)
    (m : OutputModule) :
    (applyRules ns rs m).2.outcome = .ok () ↔ (applyRules ns qs m).2.outcome = .ok () := by
  have hfault {r q : QualifyRule} (hrq : r.interface = q.interface) (is : List Interface) :
      r.fault? is = q.fault? is := by
    rw [QualifyRule.fault?, QualifyRule.fault?, hrq]
  rw [applyRules_ok_iff, applyRules_ok_iff]
  constructor
  · intro hok q hq
    obtain ⟨r, hr, hrq⟩ := (h q.interface).2 ⟨q, hq, rfl⟩
    rw [← hfault hrq]
    exact hok r hr
  · intro hok r hr
    obtain ⟨q, hq, hqr⟩ := (h r.interface).1 ⟨r, hr, rfl⟩
    rw [← hfault hqr]
    exact hok q hq

theorem applyRules_congr {ns : String} {rs qs : List QualifyRule} {m : OutputModule}
    (h : NamesApart ns rs) (hsame : SamePairs rs qs)
    (hrs : (applyRules ns rs m).2.outcome = .ok ())
    (hqs : (applyRules ns qs m).2.outcome = .ok ()) :
    (applyRules ns qs m).1 = (applyRules ns rs m).1 := by
  rw [applyRules_ok hrs, applyRules_ok hqs,
    qualifiedFirsts_congr (Interface.qualified_congr h hsame)]

/-! ## Rules applied again -/

/-- Rules behind rules that have been applied see the module that these have left. -/
theorem applyRules_append {ns : String} {rs : List QualifyRule} (qs : List QualifyRule)
    {m : OutputModule} (h : (applyRules ns rs m).2.outcome = .ok ()) :
    (applyRules ns (rs ++ qs) m).1 = (applyRules ns qs (applyRules ns rs m).1).1 ∧
      (applyRules ns (rs ++ qs) m).2.outcome =
        (applyRules ns qs (applyRules ns rs m).1).2.outcome := by
  induction rs generalizing m with
  | nil => exact ⟨rfl, rfl⟩
  | cons r rs ih =>
    cases hr : r.apply ns m with
    | error e =>
      rw [applyRules_cons_of_error hr] at h
      cases h
    | ok x =>
      obtain ⟨m', count⟩ := x
      rw [applyRules_cons_of_ok hr] at h ⊢
      rw [List.cons_append, applyRules_cons_of_ok hr]
      exact ih h

/-- Each rule finds nothing to change in a module that rules have left. -/
theorem QualifyRule.apply_applyRules {ns : String} {rs : List QualifyRule} {m : OutputModule}
    (h : NamesApart ns rs) (hok : (applyRules ns rs m).2.outcome = .ok ()) {r : QualifyRule}
    (hr : r ∈ rs) :
    r.apply ns (applyRules ns rs m).1 = .ok ((applyRules ns rs m).1, 0) := by
  have hfault : r.fault? (interfacesOf (applyRules ns rs m).1.items) = none :=
    (r.fault?_congr (shapes_applyRules ns rs m)).trans ((applyRules_ok_iff ns rs m).1 hok r hr)
  obtain ⟨p, ts, hp, hm⟩ := exists_place hfault
  have happly : r.apply ns (applyRules ns rs m).1 = _ := apply_of_place hp hm
  -- applying it now is applying it behind the rules
  obtain ⟨hmodule, houtcome⟩ := applyRules_append [r] hok
  rw [applyRules_cons_of_ok happly] at hmodule houtcome
  -- the rules with this one behind them have the same pairs as the rules alone
  have hsame : SamePairs rs (rs ++ [r]) := by
    intro interface name
    constructor
    · rintro ⟨q, hq, hpair⟩
      exact ⟨q, List.mem_append_left _ hq, hpair⟩
    · rintro ⟨q, hq, hpair⟩
      rcases List.mem_append.1 hq with hq | hq
      · exact ⟨q, hq, hpair⟩
      · exact ⟨q, List.mem_singleton.1 hq ▸ hr, hpair⟩
  have hkept : { (applyRules ns rs m).1 with items := p.items (ts.map (r.qualify ns)) } =
      (applyRules ns rs m).1 :=
    hmodule.symm.trans (applyRules_congr h hsame hok houtcome)
  -- so its union is the same before and after, which a name that it qualifies would not be
  have hitems : p.items (ts.map (r.qualify ns)) = p.items ts :=
    (congrArg OutputModule.items hkept).trans hm
  have hcount := (requalified_map r ns ts).eq_zero (p.items_injective hitems)
  rw [happly, hkept, hcount]

theorem applyRules_of_fixed {ns : String} {rs : List QualifyRule} {m : OutputModule}
    (h : ∀ r ∈ rs, r.apply ns m = .ok (m, 0)) :
    applyRules ns rs m = (m, ⟨rs.map (·.report 0), .ok ()⟩) := by
  induction rs with
  | nil => rfl
  | cons r rs ih =>
    rw [applyRules_cons_of_ok (h r List.mem_cons_self),
      ih fun r hr => h r (List.mem_cons_of_mem _ hr)]
    rfl

/-- **Qualifying is independent of the order of rules, and settles.** Whether rules can be applied
depends on the interfaces that they name. If they can be, any rules that list the same names for the
same interfaces and can be applied lead to the same module, and the rules themselves leave it as it
is when they are applied again, each with a report that nothing was rewritten.

Rules that list no names say nothing about the module, but can fail: that is why the rules to
compare with are asked to apply as well. -/
theorem applyRules_settled {ns : String} {rs : List QualifyRule} (h : NamesApart ns rs)
    (m : OutputModule) :
    (∀ qs, SameInterfaces rs qs →
      ((applyRules ns rs m).2.outcome = .ok () ↔ (applyRules ns qs m).2.outcome = .ok ())) ∧
    ((applyRules ns rs m).2.outcome = .ok () →
      (∀ qs, SamePairs rs qs → (applyRules ns qs m).2.outcome = .ok () →
        (applyRules ns qs m).1 = (applyRules ns rs m).1) ∧
      applyRules ns rs (applyRules ns rs m).1 =
        ((applyRules ns rs m).1, ⟨rs.map (·.report 0), .ok ()⟩)) := by
  constructor
  · intro qs hsame
    exact applyRules_ok_congr hsame m
  · intro hok
    constructor
    · intro qs hsame hqs
      exact applyRules_congr h hsame hok hqs
    · refine applyRules_of_fixed ?_
      intro r hr
      exact QualifyRule.apply_applyRules h hok hr

/-- A module with a hoisted interface whose union has names as members and inside of members. -/
def mapLikeModule : OutputModule where
  path := ⟨"lib/typescript.ts"⟩
  items :=
    [.decl (.interface ⟨"MapLike", none, [], [],
      [⟨none, .index ⟨"key", .primitive .string,
        .union [.named "Node" [], .named "Entry" [.named "Node" []], .array (.named "Node" [])],
        false, false⟩⟩]⟩)]

theorem applyRules_settled_mapLike :
    let rs : List QualifyRule := [⟨"MapLike", ["Node"]⟩, ⟨"MapLike", ["Entry", "Node"]⟩]
    let qs : List QualifyRule := [⟨"MapLike", ["Entry"]⟩, ⟨"MapLike", ["Node", "Entry"]⟩]
    let m := (applyRules "ts" rs mapLikeModule).1
    NamesApart "ts" rs ∧ SamePairs rs qs ∧
      m.items =
        [.decl (.interface ⟨"MapLike", none, [], [],
          [⟨none, .index ⟨"key", .primitive .string,
            .union [.named "ts.Node" [], .named "ts.Entry" [.named "Node" []],
              .array (.named "Node" [])], false, false⟩⟩]⟩)] ∧
      (applyRules "ts" qs mapLikeModule).1 = m ∧
      applyRules "ts" rs m = (m, ⟨rs.map (·.report 0), .ok ()⟩) := by
  intro rs qs m
  have hapart : NamesApart "ts" rs := by decide
  have hinterfaces : SameInterfaces rs qs := by simp [SameInterfaces, rs, qs]
  have hpairs : SamePairs rs qs := by
    intro interface name
    simp only [rs, qs, List.mem_cons, List.not_mem_nil, or_false, exists_eq_or_imp, exists_eq_left]
    grind
  have hok : (applyRules "ts" rs mapLikeModule).2.outcome = .ok () := rfl
  obtain ⟨hsame, hsettled⟩ := applyRules_settled hapart mapLikeModule
  obtain ⟨hmodule, hagain⟩ := hsettled hok
  exact ⟨hapart, hpairs, rfl, hmodule qs hpairs ((hsame qs hinterfaces).1 hok), hagain⟩

end Ambient
