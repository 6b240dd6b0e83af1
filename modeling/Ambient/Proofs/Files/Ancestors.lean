import Mathlib.Data.List.Infix
import Ambient.Proofs.Files.Trees

/-!
# The ancestors of a path

A path and its parents are found in the text alone: each parent has one component less
(`components_parent`), so that the ancestors have the fronts of the components of the path
(`components_ancestors`).

In a tree the parent of a path leads one name back. That is the directory above if the name is none
of dots (`target_parent`). Where it is two dots, the parent leads to a directory below.
-/

namespace Ambient

namespace Text

variable {sep : Char} {cs : List Char}

theorem length_filter_parts_le (sep : Char) (cs : List Char) :
    ((parts sep cs).filter (· ≠ [])).length ≤ cs.length := by
  induction cs with
  | nil => rfl
  | cons c cs ih =>
    obtain ⟨p, ps, hp⟩ := List.exists_cons_of_ne_nil (parts_ne_nil sep cs)
    rw [parts]
    by_cases hc : c = sep
    · rw [if_pos hc, List.filter_cons_of_neg (by simp)]
      exact Nat.le_succ_of_le ih
    · rw [if_neg hc, hp]
      rw [hp] at ih
      have hle : (ps.filter (· ≠ [])).length ≤ ((p :: ps).filter (· ≠ [])).length :=
        ((List.sublist_cons_self p ps).filter _).length_le
      rw [List.filter_cons_of_pos (by simp), List.length_cons, List.length_cons]
      omega

/-- A character other than the separator is in one of the parts. -/
theorem mem_iff_exists_mem_parts {c : Char} (hc : c ≠ sep) :
    c ∈ cs ↔ ∃ p ∈ parts sep cs, c ∈ p := by
  induction cs with
  | nil => simp [parts]
  | cons d cs ih =>
    obtain ⟨p, ps, hp⟩ := List.exists_cons_of_ne_nil (parts_ne_nil sep cs)
    rw [hp] at ih
    rw [parts, List.mem_cons, ih]
    by_cases hd : d = sep
    · have hne : c ≠ d := fun h => hc (h.trans hd)
      simp [hd, hp, hc]
    · rw [if_neg hd, hp]
      simp [or_assoc]

end Text

namespace Path

open Text (parts)

variable {p q a : Path}

/-! ## Components of parents -/

/-- The parts that count among the parts of a path, from the last to the first. -/
def counted : List (List Char) → List (List Char)
  | [] => []
  | [p] => [p].filter (· ≠ [])
  | p :: q :: ps => if p = [] ∨ p = ['.'] then counted (q :: ps) else p :: counted (q :: ps)

theorem counted_concat (ps : List (List Char)) (first : List Char) :
    counted (ps ++ [first]) =
      ps.filter (fun q => q ≠ [] ∧ q ≠ ['.']) ++ [first].filter (· ≠ []) := by
  induction ps with
  | nil => rfl
  | cons p ps ih =>
    obtain ⟨q, qs, hq⟩ := List.exists_cons_of_ne_nil (List.append_ne_nil_of_right_ne_nil ps
      (List.cons_ne_nil first []))
    rw [hq] at ih
    rw [List.cons_append, hq, counted, ih]
    by_cases hp : p = [] ∨ p = ['.']
    · have hcount : ¬ decide (p ≠ [] ∧ p ≠ ['.']) = true := by simpa [imp_iff_not_or] using hp
      rw [if_pos hp, List.filter_cons_of_neg (p := fun q => q ≠ [] ∧ q ≠ ['.']) hcount]
    · have hcount : decide (p ≠ [] ∧ p ≠ ['.']) = true := by simpa [not_or] using hp
      rw [if_neg hp, List.filter_cons_of_pos (p := fun q => q ≠ [] ∧ q ≠ ['.']) hcount,
        List.cons_append]

theorem components_eq (p : Path) :
    p.components = (counted (parts '/' p.text.toList).reverse).reverse := by
  rw [components]
  cases parts '/' p.text.toList with
  | nil => rfl
  | cons first others =>
    rw [List.reverse_cons, counted_concat, List.reverse_append, List.filter_reverse,
      List.reverse_reverse]
    by_cases hfirst : first = []
    · simp [hfirst]
    · simp [hfirst]

theorem ofList_mem_names {c : List Char} (h : c ∈ p.components) : String.ofList c ∈ p.names := by
  rw [components] at h
  rw [names]
  cases hparts : parts '/' p.text.toList with
  | nil => simp [hparts] at h
  | cons first others =>
    rw [hparts, List.mem_append, List.mem_filter, List.mem_filter] at h
    refine List.mem_map_of_mem (List.mem_filter.2 ?_)
    rcases h with ⟨hmem, hne⟩ | ⟨hmem, hne⟩
    · rw [List.mem_singleton.1 hmem] at hne ⊢
      exact ⟨List.mem_cons_self, hne⟩
    · simp only [decide_eq_true_eq] at hne ⊢
      exact ⟨List.mem_cons_of_mem first hmem, hne.1⟩

theorem counted_dropEmpty (ps : List (List Char)) : counted (dropEmpty ps) = counted ps := by
  fun_induction dropEmpty ps with
  | case1 => rfl
  | case2 => rfl
  | case3 p q ps hp ih => rw [ih, counted, if_pos hp]
  | case4 => rfl

/-- The first part that is left counts, unless it is the only one. -/
theorem counted_of_dropEmpty {ps rest : List (List Char)} {x y : List Char}
    (h : dropEmpty ps = x :: y :: rest) : counted ps = x :: counted (y :: rest) := by
  fun_induction dropEmpty ps with
  | case1 => cases h
  | case2 => cases h
  | case3 p q ps hp ih => rw [counted, if_pos hp, ih h]
  | case4 p q ps hp =>
    cases h
    rw [counted, if_neg hp]

/-- The parent of a path with names in front of the last one. -/
theorem parent?_of_dropEmpty {x y : List Char} {ys : List (List Char)}
    (h : dropEmpty (parts '/' p.text.toList).reverse = x :: y :: ys) :
    ∃ q, p.parent? = some q ∧
      (dropEmpty (y :: ys) = [[]] ∧ q = ⟨"/"⟩ ∨
        q = ⟨String.ofList (ofPartsRev (dropEmpty (y :: ys)))⟩) := by
  obtain ⟨c, cs, rfl⟩ := List.exists_cons_of_ne_nil (head_dropEmpty h)
  rw [parent?, h]
  dsimp only
  split
  · next hroot => exact ⟨_, rfl, .inl ⟨hroot, rfl⟩⟩
  · exact ⟨_, rfl, .inr rfl⟩

/-- A path without a parent has no components, and otherwise the parent lacks the last one. -/
theorem components_parent? (p : Path) :
    match p.parent? with
    | none => p.components = []
    | some q => ∃ c, p.components = q.components ++ [c] := by
  have hcounted := counted_dropEmpty (parts '/' p.text.toList).reverse
  rw [components_eq p]
  cases hd : dropEmpty (parts '/' p.text.toList).reverse with
  | nil =>
    rw [parent?, hd, ← hcounted, hd]
    rfl
  | cons x ps =>
    cases ps with
    | nil =>
      -- a name alone has the empty path as its parent, and a slash alone has none
      rw [parent?, hd, ← hcounted, hd]
      cases x with
      | nil => rfl
      | cons c cs => exact ⟨c :: cs, rfl⟩
    | cons y ys =>
      obtain ⟨q, hq, hcases⟩ := parent?_of_dropEmpty hd
      rw [hq, counted_of_dropEmpty hd, List.reverse_cons, ← counted_dropEmpty (y :: ys)]
      refine ⟨x, congrArg (· ++ [x]) ?_⟩
      rcases hcases with ⟨hroot, rfl⟩ | rfl
      · rw [hroot]
        rfl
      · have hslash (z : List Char) (hz : z ∈ dropEmpty (y :: ys)) : '/' ∉ z := by
          have hmem : z ∈ x :: y :: ys := List.mem_cons_of_mem x ((dropEmpty_suffix _).mem hz)
          rw [← hd] at hmem
          exact Text.not_mem_of_mem_parts (List.mem_reverse.1 ((dropEmpty_suffix _).mem hmem))
        have hne : dropEmpty (y :: ys) ≠ [] := dropEmpty_ne_nil (List.cons_ne_nil y ys)
        rw [components_eq, String.toList_ofList, parts_ofPartsRev hne hslash, List.reverse_reverse]

theorem components_parent (h : p.parent? = some q) : ∃ c, p.components = q.components ++ [c] := by
  have hcases := p.components_parent?
  rwa [h] at hcases

/-! ## Ancestors -/

theorem length_components_le (p : Path) : p.components.length ≤ p.text.length := by
  rw [← String.length_toList]
  refine Nat.le_trans ?_ (Text.length_filter_parts_le '/' p.text.toList)
  rw [components]
  cases parts '/' p.text.toList with
  | nil => exact Nat.le_refl 0
  | cons first others =>
    have hothers : others.filter (fun q => q ≠ [] ∧ q ≠ ['.']) =
        (others.filter (· ≠ [])).filter (· ≠ ['.']) := by
      rw [List.filter_filter]
      exact List.filter_congr fun q _ => by simp [Bool.and_comm]
    have hle := List.length_filter_le (· ≠ ['.']) (others.filter (· ≠ []))
    rw [← List.singleton_append (l := others), List.filter_append, List.length_append]
    show ([first].filter _ ++ others.filter _).length ≤ _
    rw [List.length_append, hothers]
    omega

/-- A bound that is not below the number of components is as good as any. -/
theorem ancestorsUpTo_eq {n m : Nat} (hn : p.components.length ≤ n) (hm : p.components.length ≤ m) :
    ancestorsUpTo n p = ancestorsUpTo m p := by
  induction n generalizing m p with
  | zero =>
    -- without components there is no parent
    cases m with
    | zero => rfl
    | succ m =>
      rw [ancestorsUpTo, ancestorsUpTo]
      cases hq : p.parent? with
      | none => rfl
      | some q =>
        obtain ⟨c, hc⟩ := components_parent hq
        simp [hc] at hn
  | succ n ih =>
    rw [ancestorsUpTo]
    cases hq : p.parent? with
    | none => cases m with
      | zero => rfl
      | succ m => rw [ancestorsUpTo, hq]
    | some q =>
      obtain ⟨c, hc⟩ := components_parent hq
      rw [hc, List.length_append, List.length_singleton] at hn hm
      obtain ⟨m, rfl⟩ := Nat.exists_eq_succ_of_ne_zero (n := m) (by omega)
      rw [ancestorsUpTo, hq]
      exact congrArg (p :: ·) (ih (by omega) (by omega))

theorem ancestors_of_none (h : p.parent? = none) : p.ancestors = [p] := by
  rw [ancestors]
  cases p.text.length with
  | zero => rfl
  | succ n => rw [ancestorsUpTo, h]

theorem ancestors_of_some (h : p.parent? = some q) : p.ancestors = p :: q.ancestors := by
  obtain ⟨c, hc⟩ := components_parent h
  have hn := p.length_components_le
  rw [hc, List.length_append, List.length_singleton] at hn
  obtain ⟨n, hlength⟩ := Nat.exists_eq_succ_of_ne_zero (n := p.text.length) (by omega)
  rw [ancestors, hlength, ancestorsUpTo, h]
  exact congrArg (p :: ·) (ancestorsUpTo_eq (by omega) q.length_components_le)

/-- What a path has if its parent has it. -/
theorem induction_parents {motive : Path → Prop} (root : ∀ p, p.parent? = none → motive p)
    (step : ∀ p q, p.parent? = some q → motive q → motive p) (p : Path) : motive p := by
  induction hn : p.components.length generalizing p with
  | zero =>
    refine root p ?_
    cases hq : p.parent? with
    | none => rfl
    | some q =>
      obtain ⟨c, hc⟩ := components_parent hq
      simp [hc] at hn
  | succ n ih =>
    cases hq : p.parent? with
    | none => exact root p hq
    | some q =>
      obtain ⟨c, hc⟩ := components_parent hq
      refine step p q hq (ih q ?_)
      simpa [hc] using hn

/-- **The ancestors of a path have the fronts of its components**, from all of them to none. -/
theorem components_ancestors (p : Path) :
    p.ancestors.map components = p.components.inits.reverse := by
  induction p using induction_parents with
  | root p h =>
    have hnone := p.components_parent?
    rw [h] at hnone
    rw [ancestors_of_none h, List.map_singleton, hnone]
    rfl
  | step p q h ih =>
    obtain ⟨c, hc⟩ := components_parent h
    rw [ancestors_of_some h, List.map_cons, ih, hc, List.inits_append]
    simp

/-- An ancestor starts where the path starts and has names of its front. -/
theorem of_mem_ancestors (h : a ∈ p.ancestors) :
    a.isAbsolute = p.isAbsolute ∧ ∃ ns, p.names = a.names ++ ns := by
  induction p using induction_parents with
  | root p hp =>
    rw [ancestors_of_none hp, List.mem_singleton] at h
    exact ⟨by rw [h], [], by rw [h, List.append_nil]⟩
  | step p q hq ih =>
    rw [ancestors_of_some hq, List.mem_cons] at h
    rcases h with rfl | h
    · exact ⟨rfl, [], (List.append_nil _).symm⟩
    · obtain ⟨habsolute, ns, hns⟩ := ih h
      obtain ⟨ms, -, hms⟩ := names_parent hq
      exact ⟨habsolute.trans (isAbsolute_parent hq), ns ++ ms, by rw [hms, hns, List.append_assoc]⟩

/-- A path has a NUL character in one of its parts. -/
theorem hasNul_eq (p : Path) : p.hasNul = (parts '/' p.text.toList).any (·.contains '\x00') := by
  rw [hasNul, Bool.eq_iff_iff, List.any_eq_true, List.contains_iff_mem]
  simp only [List.contains_iff_mem]
  exact Text.mem_iff_exists_mem_parts (by decide)

theorem hasNul_parent (h : p.parent? = some q) (hp : p.hasNul = false) : q.hasNul = false := by
  obtain ⟨front, back, hparts, -, -, hq⟩ := parent?_cases h
  rcases hq with ⟨-, -, hq⟩ | ⟨-, hq⟩ | ⟨-, -, hq⟩
  · rw [hasNul, hq]
    rfl
  · rw [hasNul, hq]
    rfl
  · rw [hasNul_eq, hparts, List.any_append, Bool.or_eq_false_iff] at hp
    rw [hasNul_eq, hq, hp.1]

theorem hasNul_of_mem_ancestors (h : a ∈ p.ancestors) (hp : p.hasNul = false) :
    a.hasNul = false := by
  induction p using induction_parents with
  | root p hnone =>
    rw [ancestors_of_none hnone, List.mem_singleton] at h
    rw [h, hp]
  | step p q hq ih =>
    rw [ancestors_of_some hq, List.mem_cons] at h
    rcases h with rfl | h
    · exact hp
    · exact ih h (hasNul_parent hq hp)

end Path

namespace FileTree

open Text (parts)

variable {t : FileTree} {p q : Path} {l : Location}

/-- Parts that do not count lead nowhere. -/
theorem foldl_advance_namesOf (ps : List (List Char)) (l : Location) :
    (Path.namesOf ps).foldl advance l =
      ((ps.filter fun q => q ≠ [] ∧ q ≠ ['.']).map String.ofList).foldl advance l := by
  induction ps generalizing l with
  | nil => rfl
  | cons p ps ih =>
    by_cases hempty : p = []
    · simpa [Path.namesOf, hempty] using ih l
    · by_cases hdot : p = ['.']
      · have hstay : advance l "." = l := rfl
        simpa [Path.namesOf, hdot, hstay] using ih l
      · simpa [Path.namesOf, hempty, hdot] using ih (advance l (String.ofList p))

/-- A path leads where its components lead. -/
theorem target_eq (t : FileTree) (p : Path) :
    t.target p = (p.components.map String.ofList).foldl advance (t.start p) := by
  rw [target, Path.names_eq, Path.components]
  cases parts '/' p.text.toList with
  | nil => rfl
  | cons first others =>
    rw [← List.singleton_append, Path.namesOf_append, List.foldl_append, foldl_advance_namesOf]
    rw [List.singleton_append, List.map_append, List.foldl_append]
    rfl

/-- A path leads one name on from where its parent leads. -/
theorem target_parent (h : p.parent? = some q) :
    t.start q = t.start p ∧ ∃ n ∈ p.names, t.target p = advance (t.target q) n := by
  obtain ⟨c, hc⟩ := Path.components_parent h
  have hstart : t.start q = t.start p := by rw [start, start, Path.isAbsolute_parent h]
  refine ⟨hstart, String.ofList c, Path.ofList_mem_names (by simp [hc]), ?_⟩
  rw [target_eq, target_eq, hc, hstart, List.map_append, List.foldl_append]
  rfl

end FileTree

end Ambient
