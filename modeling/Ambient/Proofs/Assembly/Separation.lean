import Ambient.Config.Basic
import Mathlib.Data.List.Find

/-!
# Lists that make a policy

A configuration has a separation policy exactly if no name is in two of its lists, where a built-in
list stands in for each one that is left out, and the policy hoists a name for one kind at most
(`Config.policy_apart`). Otherwise the error is the first overlap in the order in which the lists
are compared (`Config.FirstOverlap`). Repetitions in a list are dropped before the lists are
compared, and change nothing: the first name with a property is the same (`find?_eraseDups`).
-/

namespace Ambient

/-! ## Kinds and lists -/

namespace SeparationList

variable {l m : SeparationList}

/-- The kind of the declarations that the list is about. -/
def kind : SeparationList → DeclKind
  | enums => .enum
  | interfaces => .interface
  | typeAliases => .typeAlias

/-- The pairs of lists in the order in which they are compared. -/
def pairs : List (SeparationList × SeparationList) :=
  [(enums, interfaces), (enums, typeAliases), (interfaces, typeAliases)]

/-- Any two lists are compared. -/
theorem mem_pairs (h : l ≠ m) : (l, m) ∈ pairs ∨ (m, l) ∈ pairs := by
  cases l <;> cases m <;> first | exact absurd rfl h | decide

theorem ne_of_mem_pairs (h : (l, m) ∈ pairs) : l ≠ m := by
  rintro rfl
  cases l <;> exact absurd h (by decide)

/-- The key of a list can be read off the end of a text. -/
theorem append_key_inj {a b : String} (h : a ++ l.key = b ++ m.key) : a = b ∧ l = m := by
  have hchars := congrArg (fun s => s.toList.reverse) h
  simp only [String.toList_append, List.reverse_append] at hchars
  cases l <;> cases m <;> simp [key] at hchars ⊢ <;> exact String.toList_inj.1 hchars

end SeparationList

/-- The text of an overlap tells which one it is. -/
theorem Overlap.eq_of_message_eq {o o' : Overlap} (h : o.message = o'.message) : o = o' := by
  obtain ⟨hfront, hsecond⟩ := SeparationList.append_key_inj h
  obtain ⟨hname, hfirst⟩ := SeparationList.append_key_inj (String.append_left_inj _ |>.1 hfront)
  have hsame := (String.append_right_inj _).1 ((String.append_left_inj _).1 hname)
  cases o
  cases o'
  simp_all

namespace Policy

theorem namesFor?_kind (p : Policy) (l : SeparationList) :
    p.namesFor? l.kind = some (p.names l) := by
  cases l <;> rfl

theorem namesFor?_eq_some_iff {p : Policy} {k : DeclKind} {names : List String} :
    p.namesFor? k = some names ↔ ∃ l : SeparationList, l.kind = k ∧ p.names l = names := by
  constructor
  · intro h
    cases k with
    | enum => exact ⟨.enums, rfl, Option.some.inj h⟩
    | interface => exact ⟨.interfaces, rfl, Option.some.inj h⟩
    | typeAlias => exact ⟨.typeAliases, rfl, Option.some.inj h⟩
    | _ => cases h
  · rintro ⟨l, rfl, rfl⟩
    exact p.namesFor?_kind l

theorem overlap?_eq_findSome? (p : Policy) :
    p.overlap? = SeparationList.pairs.findSome? fun q => p.overlapIn q.1 q.2 := by
  simp only [overlap?, SeparationList.pairs, List.findSome?]
  cases p.overlapIn .enums .interfaces <;> cases p.overlapIn .enums .typeAliases <;>
    cases p.overlapIn .interfaces .typeAliases <;> rfl

end Policy

/-! ## The names that a configuration lists -/

/-- Repetitions do not matter to the first element with a property. -/
theorem find?_eraseDups {α : Type} [BEq α] [LawfulBEq α] (p : α → Bool) (as : List α) :
    as.eraseDups.find? p = as.find? p := by
  match as with
  | [] => rfl
  | a :: as =>
    rw [List.eraseDups_cons]
    cases ha : p a with
    | true => rw [List.find?_cons_of_pos ha, List.find?_cons_of_pos ha]
    | false =>
      rw [List.find?_cons_of_neg (by simp [ha]), List.find?_cons_of_neg (by simp [ha]),
        find?_eraseDups p, List.find?_filter]
      refine List.find?_congr fun b _ => ?_
      -- what was dropped as a repetition does not have the property
      have hne : p b = true → b ≠ a := by
        rintro hb rfl
        cases hb.symm.trans ha
      cases hb : p b <;> simp [hb] at hne ⊢
      exact hne
termination_by as.length
decreasing_by exact Nat.lt_succ_of_le (List.length_filter_le _ as)

namespace Config

variable {c : Config}

/-- The names of the enumerations to hoist. -/
def enumNames (c : Config) : List String :=
  c.separate.enums.getD Policy.builtinEnums

/-- The names of the interfaces to hoist. -/
def interfaceNames (c : Config) : List String :=
  c.separate.interfaces.getD Policy.builtinInterfaces

/-- The names of the type aliases to hoist. -/
def typeAliasNames (c : Config) : List String :=
  c.separate.typeAliases.getD Policy.builtinTypeAliases

/-- No name is in two of the lists of names to hoist. -/
structure ListsDisjoint (c : Config) : Prop where
  enums_interfaces : ∀ name ∈ c.enumNames, name ∉ c.interfaceNames
  enums_typeAliases : ∀ name ∈ c.enumNames, name ∉ c.typeAliasNames
  interfaces_typeAliases : ∀ name ∈ c.interfaceNames, name ∉ c.typeAliasNames

/-- The names of one list, which are the built-in ones if the configuration leaves the list out. -/
def names (c : Config) : SeparationList → List String
  | .enums => c.enumNames
  | .interfaces => c.interfaceNames
  | .typeAliases => c.typeAliasNames

/-- The lists without repetitions, whether they have a name in common or not. -/
def lists (c : Config) : Policy :=
  .ofNames c.enumNames c.interfaceNames c.typeAliasNames

theorem names_lists (c : Config) (l : SeparationList) :
    c.lists.names l = (c.names l).eraseDups := by
  cases l <;> rfl

theorem mem_names_lists {l : SeparationList} {name : String} :
    name ∈ c.lists.names l ↔ name ∈ c.names l := by
  rw [names_lists, List.mem_eraseDups]

theorem policy_eq (c : Config) :
    c.policy = match c.lists.overlap? with
      | some o => .error o
      | none => .ok c.lists :=
  rfl

theorem overlapIn_lists (c : Config) (l m : SeparationList) :
    c.lists.overlapIn l m =
      ((c.names l).find? fun name => name ∈ c.names m).map fun name => ⟨name, l, m⟩ := by
  simp only [Policy.overlapIn, names_lists, List.mem_eraseDups, find?_eraseDups]

theorem overlapIn_lists_eq_none {l m : SeparationList} :
    c.lists.overlapIn l m = none ↔ ∀ name ∈ c.names l, name ∉ c.names m := by
  simp [overlapIn_lists]

/-- The overlap is the first one: no two lists that are compared before have a name in common, and
the names before it in the earlier list are not in the later one. -/
structure FirstOverlap (c : Config) (o : Overlap) : Prop where
  lists : ∃ before behind, SeparationList.pairs = before ++ (o.first, o.second) :: behind ∧
    ∀ q ∈ before, ∀ name ∈ c.names q.1, name ∉ c.names q.2
  name : ∃ before behind, c.names o.first = before ++ o.name :: behind ∧
    ∀ name ∈ before, name ∉ c.names o.second
  shared : o.name ∈ c.names o.second

theorem overlapIn_lists_eq_some {l m : SeparationList} {o : Overlap} :
    c.lists.overlapIn l m = some o ↔ (o.first, o.second) = (l, m) ∧ o.name ∈ c.names m ∧
      ∃ before behind, c.names l = before ++ o.name :: behind ∧
        ∀ name ∈ before, name ∉ c.names m := by
  rw [overlapIn_lists, Option.map_eq_some_iff]
  simp only [List.find?_eq_some_iff_append, decide_eq_true_eq, Bool.not_eq_true',
    decide_eq_false_iff_not]
  constructor
  · rintro ⟨name, h, rfl⟩
    exact ⟨rfl, h⟩
  · rintro ⟨hlists, h⟩
    obtain ⟨rfl, rfl⟩ := Prod.mk.inj hlists
    exact ⟨o.name, h, rfl⟩

theorem overlap?_lists_eq_some {o : Overlap} :
    c.lists.overlap? = some o ↔ c.FirstOverlap o := by
  rw [Policy.overlap?_eq_findSome?, List.findSome?_eq_some_iff]
  constructor
  · rintro ⟨before, ⟨l, m⟩, behind, hpairs, hq, hbefore⟩
    obtain ⟨hlists, hshared, hname⟩ := overlapIn_lists_eq_some.1 hq
    obtain ⟨rfl, rfl⟩ := Prod.mk.inj hlists
    exact ⟨⟨before, behind, hpairs, fun q hq => overlapIn_lists_eq_none.1 (hbefore q hq)⟩, hname,
      hshared⟩
  · rintro ⟨⟨before, behind, hpairs, hbefore⟩, hname, hshared⟩
    exact ⟨before, _, behind, hpairs, overlapIn_lists_eq_some.2 ⟨rfl, hshared, hname⟩,
      fun q hq => overlapIn_lists_eq_none.2 (hbefore q hq)⟩

theorem overlap?_lists_eq_none :
    c.lists.overlap? = none ↔ ∀ name l m, name ∈ c.names l → name ∈ c.names m → l = m := by
  rw [Policy.overlap?_eq_findSome?, List.findSome?_eq_none_iff]
  constructor
  · intro h name l m hl hm
    by_contra hne
    rcases SeparationList.mem_pairs hne with hpair | hpair
    · exact overlapIn_lists_eq_none.1 (h _ hpair) name hl hm
    · exact overlapIn_lists_eq_none.1 (h _ hpair) name hm hl
  · rintro h ⟨l, m⟩ hpair
    refine overlapIn_lists_eq_none.2 fun name hl hm => ?_
    exact SeparationList.ne_of_mem_pairs hpair (h name l m hl hm)

/-- Lists without common names make a policy, and its names are those of the lists. -/
theorem ListsDisjoint.policy (h : c.ListsDisjoint) : c.policy = .ok c.lists := by
  have hapart : ∀ name l m, name ∈ c.names l → name ∈ c.names m → l = m := by
    intro name l m hl hm
    cases l <;> cases m <;> first | rfl | exfalso
    · exact h.enums_interfaces name hl hm
    · exact h.enums_typeAliases name hl hm
    · exact h.enums_interfaces name hm hl
    · exact h.interfaces_typeAliases name hl hm
    · exact h.enums_typeAliases name hm hl
    · exact h.interfaces_typeAliases name hm hl
  rw [policy_eq, overlap?_lists_eq_none.2 hapart]

/-- What is hoisted are the names of a list, as declarations of its kind. -/
theorem classify_lists {k : DeclKind} {name : String} :
    c.lists.classify k name = .hoisted ↔
      ∃ l : SeparationList, l.kind = k ∧ name ∈ c.names l := by
  rw [Policy.classify_eq_hoisted_iff]
  constructor
  · rintro ⟨names, hnames, hname⟩
    obtain ⟨l, hl, rfl⟩ := Policy.namesFor?_eq_some_iff.1 hnames
    exact ⟨l, hl, mem_names_lists.1 hname⟩
  · rintro ⟨l, rfl, hname⟩
    exact ⟨_, c.lists.namesFor?_kind l, mem_names_lists.2 hname⟩

/-- **A configuration has a policy exactly if no name is in two of its lists.** The policy hoists
the names of each list as declarations of its kind, and so no name for two kinds. If there is no
policy, the error is the first overlap, which its text tells. -/
theorem policy_apart (c : Config) :
    ((∃ p, c.policy = .ok p) ↔ ∀ name l m, name ∈ c.names l → name ∈ c.names m → l = m) ∧
    (∀ o, c.policy = .error o ↔ c.FirstOverlap o) ∧
    (∀ o o' : Overlap, o.message = o'.message → o = o') ∧
    ∀ p, c.policy = .ok p →
      (∀ k name, p.classify k name = .hoisted ↔
        ∃ l : SeparationList, l.kind = k ∧ name ∈ c.names l) ∧
      ∀ j k name, p.classify j name = .hoisted → p.classify k name = .hoisted → j = k := by
  rw [← overlap?_lists_eq_none, policy_eq]
  refine ⟨?_, fun o => ?_, fun _ _ => Overlap.eq_of_message_eq, fun p hp => ?_⟩
  · cases c.lists.overlap? <;> simp
  · rw [← overlap?_lists_eq_some]
    cases c.lists.overlap? <;> simp
  · cases ho : c.lists.overlap? with
    | some o => rw [ho] at hp; cases hp
    | none =>
      rw [ho] at hp
      obtain rfl : c.lists = p := Except.ok.inj hp
      refine ⟨fun k name => classify_lists, fun j k name hj hk => ?_⟩
      obtain ⟨l, rfl, hl⟩ := classify_lists.1 hj
      obtain ⟨m, rfl, hm⟩ := classify_lists.1 hk
      rw [overlap?_lists_eq_none.1 ho name l m hl hm]

/-- A list of enumerations is compared with the built-in list of interfaces if no other one is
given. A name that is in one list twice is in no two lists. -/
theorem policy_apart_mapLike :
    ({ separate := { enums := some ["Scope", "MapLike"] } } : Config).policy =
        .error ⟨"MapLike", .enums, .interfaces⟩ ∧
      ∃ p, ({ separate := { enums := some ["Scope", "Scope"] } } : Config).policy = .ok p ∧
        p.classify .enum "Scope" = .hoisted ∧ p.classify .interface "MapLike" = .hoisted := by
  constructor
  · refine ((policy_apart _).2.1 _).2 ⟨⟨[], _, rfl, by simp⟩, ⟨["Scope"], [], rfl, ?_⟩, ?_⟩
    · decide
    · decide
  · have hapart (l m : SeparationList) (hne : l ≠ m) :
        ∀ name ∈ names { separate := { enums := some ["Scope", "Scope"] } } l,
          name ∉ names { separate := { enums := some ["Scope", "Scope"] } } m := by
      cases l <;> cases m <;> first | exact absurd rfl hne | decide
    obtain ⟨p, hp⟩ := (policy_apart _).1.2 fun name l m hl hm =>
      Decidable.byContradiction fun hne => hapart l m hne name hl hm
    have hhoisted := ((policy_apart _).2.2.2 p hp).1
    exact ⟨p, hp, (hhoisted _ _).2 ⟨.enums, rfl, by decide⟩,
      (hhoisted _ _).2 ⟨.interfaces, rfl, by decide⟩⟩

end Config

end Ambient
