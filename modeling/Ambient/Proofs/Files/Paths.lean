import Ambient.Files.Path

/-!
# Names in joined paths and in parents

What a path means depends on where it starts and on the names in it. Joined paths have the names of
both (`names_join`), and a path has the names of its parent in front of at least one more
(`names_parent`).
-/

namespace Ambient

/-! ## Parts between separators -/

namespace Text

variable {sep : Char}

theorem not_mem_of_mem_parts {cs x : List Char} (h : x ∈ parts sep cs) : sep ∉ x := by
  induction cs generalizing x with
  | nil =>
    rw [parts, List.mem_singleton] at h
    simp [h]
  | cons c cs ih =>
    obtain ⟨p, ps, hp⟩ := List.exists_cons_of_ne_nil (parts_ne_nil sep cs)
    rw [parts, hp] at h
    rw [hp] at ih
    by_cases hc : c = sep
    · rw [if_pos hc, List.mem_cons] at h
      rcases h with rfl | h
      · simp
      · exact ih h
    · rw [if_neg hc, List.mem_cons] at h
      rcases h with rfl | h
      · rw [List.mem_cons, not_or]
        exact ⟨Ne.symm hc, ih List.mem_cons_self⟩
      · exact ih (List.mem_cons_of_mem _ h)

theorem parts_of_not_mem {cs : List Char} (h : sep ∉ cs) : parts sep cs = [cs] := by
  induction cs with
  | nil => rfl
  | cons c cs ih =>
    rw [List.mem_cons, not_or] at h
    rw [parts, if_neg (Ne.symm h.1), ih h.2]

/-- A text starts with a separator if its first part is empty and there is another one. -/
theorem head?_eq_some_sep_iff {cs : List Char} :
    cs.head? = some sep ↔ ∃ p ps, parts sep cs = [] :: p :: ps := by
  cases cs with
  | nil => simp [parts]
  | cons c cs =>
    obtain ⟨p, ps, hp⟩ := List.exists_cons_of_ne_nil (parts_ne_nil sep cs)
    rw [parts, hp]
    by_cases hc : c = sep
    · simp [hc]
    · simp [hc]

end Text

namespace Path

open Text (parts)

/-- Parts that are names. -/
def namesOf (ps : List (List Char)) : List String :=
  (ps.filter (· ≠ [])).map String.ofList

theorem names_eq (p : Path) : p.names = namesOf (parts '/' p.text.toList) :=
  rfl

theorem namesOf_append (ps qs : List (List Char)) : namesOf (ps ++ qs) = namesOf ps ++ namesOf qs := by
  simp [namesOf]

/-! ## Joined paths -/

variable {p q : Path}

theorem join_of_relative (h : q.isAbsolute = false) :
    p.join q = if p.text = "" ∨ p.endsInSlash then ⟨p.text ++ q.text⟩ else ⟨p.text ++ "/" ++ q.text⟩ := by
  rw [join, if_neg (by simp [h])]

theorem exists_of_endsInSlash (h : p.endsInSlash = true) : ∃ cs, p.text.toList = cs ++ ['/'] := by
  rw [endsInSlash, decide_eq_true_eq] at h
  obtain ⟨cs, hcs⟩ := List.getLast?_eq_some_iff.1 h
  exact ⟨cs, hcs⟩

/-- A path joined with a relative one has the names of both. -/
theorem names_join (h : q.isAbsolute = false) : (p.join q).names = p.names ++ q.names := by
  rw [join_of_relative h]
  by_cases hp : p.text = ""
  · rw [if_pos (.inl hp), names_eq p, hp]
    simp [names_eq, namesOf, parts]
  · by_cases hs : p.endsInSlash = true
    · obtain ⟨cs, hcs⟩ := exists_of_endsInSlash hs
      rw [if_pos (.inr hs)]
      simp only [names_eq, String.toList_append, hcs, List.append_assoc, List.singleton_append,
        Text.parts_append, namesOf_append]
      simp [namesOf, parts]
    · rw [if_neg (not_or.2 ⟨hp, hs⟩)]
      have hslash : "/".toList = ['/'] := rfl
      simp only [names_eq, String.toList_append, hslash, List.append_assoc, List.singleton_append,
        Text.parts_append, namesOf_append]

theorem isAbsolute_join (h : q.isAbsolute = false) : (p.join q).isAbsolute = p.isAbsolute := by
  rw [join_of_relative h]
  by_cases hp : p.text = ""
  · rw [if_pos (.inl hp)]
    simpa [isAbsolute, hp] using h
  · obtain ⟨c, cs, hc⟩ := List.exists_cons_of_ne_nil (mt String.toList_eq_nil_iff.1 hp)
    split <;> simp [isAbsolute, hc]

theorem hasNul_join (h : q.isAbsolute = false) :
    (p.join q).hasNul = (p.hasNul || q.hasNul) := by
  have hslash : "/".toList = ['/'] := rfl
  rw [join_of_relative h]
  split <;> simp [hasNul, hslash, Bool.decide_or]

theorem endsInSlash_join (h : q.isAbsolute = false) (hq : q.text ≠ "") :
    (p.join q).endsInSlash = q.endsInSlash := by
  have hne : q.text.toList ≠ [] := mt String.toList_eq_nil_iff.1 hq
  obtain ⟨c, hc⟩ := Option.ne_none_iff_exists'.1 (mt List.getLast?_eq_none_iff.1 hne)
  rw [join_of_relative h]
  split <;> simp [endsInSlash, List.getLast?_append, List.getLast?_cons, hc]

/-! ## Parents -/

theorem dropEmpty_suffix (ps : List (List Char)) : dropEmpty ps <:+ ps := by
  fun_induction dropEmpty ps with
  | case1 => exact List.suffix_refl _
  | case2 => exact List.suffix_refl _
  | case3 p q ps _ ih => exact ih.trans (List.suffix_cons p _)
  | case4 => exact List.suffix_refl _

theorem dropEmpty_ne_nil {ps : List (List Char)} (h : ps ≠ []) : dropEmpty ps ≠ [] := by
  fun_induction dropEmpty ps with
  | case1 => exact absurd rfl h
  | case2 => simp
  | case3 p q ps _ ih => exact ih (by simp)
  | case4 => simp

/-- The first part that is left is a name, unless it is the only one. -/
theorem head_dropEmpty {ps rest : List (List Char)} {p q : List Char}
    (h : dropEmpty ps = p :: q :: rest) : p ≠ [] := by
  fun_induction dropEmpty ps with
  | case1 => cases h
  | case2 => cases h
  | case3 _ _ _ _ ih => exact ih h
  | case4 p' q' ps hp =>
    obtain ⟨rfl, -⟩ := List.cons.inj h
    exact fun he => hp (.inl he)

theorem parts_ofPartsRev {ps : List (List Char)} (hne : ps ≠ []) (h : ∀ x ∈ ps, '/' ∉ x) :
    parts '/' (ofPartsRev ps) = ps.reverse := by
  fun_induction ofPartsRev ps with
  | case1 => exact absurd rfl hne
  | case2 p => exact Text.parts_of_not_mem (h p List.mem_cons_self)
  | case3 p q ps ih =>
    have hrest := ih (by simp) fun x hx => h x (List.mem_cons_of_mem _ hx)
    rw [Text.parts_append, hrest, Text.parts_of_not_mem (h p List.mem_cons_self)]
    simp

/-- What the parent of a path is, by parts: those of the path without the last ones, of which at
least one is a name. -/
theorem parent?_cases (h : p.parent? = some q) :
    ∃ front back, parts '/' p.text.toList = front ++ back ∧ back ≠ [] ∧ namesOf back ≠ [] ∧
      (front = [] ∧ (∀ xs, back ≠ [] :: xs) ∧ q.text = "" ∨ front = [[]] ∧ q.text = "/" ∨
        front ≠ [] ∧ front ≠ [[]] ∧ parts '/' q.text.toList = front) := by
  obtain ⟨dropped, hdropped⟩ := dropEmpty_suffix (parts '/' p.text.toList).reverse
  have hparts : parts '/' p.text.toList =
      (dropEmpty (parts '/' p.text.toList).reverse).reverse ++ dropped.reverse := by
    rw [← List.reverse_append, hdropped, List.reverse_reverse]
  have hnames {x : List Char} (hx : x ≠ []) (xs ys : List (List Char)) :
      namesOf (xs ++ (x :: ys)) ≠ [] := by
    simp [namesOf, hx]
  rw [parent?] at h
  cases hd : dropEmpty (parts '/' p.text.toList).reverse with
  | nil =>
    rw [hd] at h
    cases h
  | cons x ps =>
    rw [hd] at h hparts
    cases ps with
    | nil =>
      have hx : x ≠ [] := by
        rintro rfl
        cases h
      refine ⟨[], _, hparts, by simp, hnames hx [] _, .inl ⟨rfl, ?_, ?_⟩⟩
      · intro xs he
        exact hx (List.cons.inj he).1
      cases x with
      | nil => exact absurd rfl hx
      | cons c cs =>
        obtain rfl := Option.some.inj h
        rfl
    | cons y ys =>
      have hx : x ≠ [] := head_dropEmpty hd
      obtain ⟨middle, hmiddle⟩ := dropEmpty_suffix (y :: ys)
      have hne : dropEmpty (y :: ys) ≠ [] := dropEmpty_ne_nil (by simp)
      have hrest : (y :: ys).reverse = (dropEmpty (y :: ys)).reverse ++ middle.reverse := by
        rw [← List.reverse_append, hmiddle]
      have hsplit : parts '/' p.text.toList =
          (dropEmpty (y :: ys)).reverse ++ (middle.reverse ++ (x :: dropped.reverse)) := by
        rw [hparts, List.reverse_cons, hrest]
        simp
      refine ⟨_, _, hsplit, by simp, hnames hx _ _, .inr ?_⟩
      have hslash (z : List Char) (hz : z ∈ dropEmpty (y :: ys)) : '/' ∉ z := by
        have hmem : z ∈ parts '/' p.text.toList := by
          rw [hsplit]
          exact List.mem_append_left _ (List.mem_reverse.2 hz)
        exact Text.not_mem_of_mem_parts hmem
      have hq : dropEmpty (y :: ys) = [[]] ∧ q = ⟨"/"⟩ ∨ dropEmpty (y :: ys) ≠ [[]] ∧
          q = ⟨String.ofList (ofPartsRev (dropEmpty (y :: ys)))⟩ := by
        cases x with
        | nil => exact absurd rfl hx
        | cons c cs =>
          dsimp only at h
          split at h
          · next he => exact .inl ⟨he, (Option.some.inj h).symm⟩
          · next he => exact .inr ⟨he, (Option.some.inj h).symm⟩
      rcases hq with ⟨hroot, rfl⟩ | ⟨hroot, rfl⟩
      · exact .inl ⟨by rw [hroot]; rfl, rfl⟩
      · refine .inr ⟨by simpa using hne, ?_, ?_⟩
        · intro he
          exact hroot (by simpa using congrArg List.reverse he)
        · rw [String.toList_ofList, parts_ofPartsRev hne hslash]

/-- A path has the names of its parent and at least one more. -/
theorem names_parent (h : p.parent? = some q) : ∃ ns, ns ≠ [] ∧ p.names = q.names ++ ns := by
  obtain ⟨front, back, hparts, -, hback, hq⟩ := parent?_cases h
  refine ⟨namesOf back, hback, ?_⟩
  rw [names_eq, hparts, namesOf_append]
  congr 1
  rw [names_eq]
  rcases hq with ⟨rfl, -, hq⟩ | ⟨rfl, hq⟩ | ⟨-, -, hq⟩
  · rw [hq]
    rfl
  · rw [hq]
    rfl
  · rw [hq]

theorem isAbsolute_iff : p.isAbsolute = true ↔ ∃ x xs, parts '/' p.text.toList = [] :: x :: xs := by
  rw [isAbsolute, decide_eq_true_eq, Text.head?_eq_some_sep_iff]

theorem isAbsolute_parent (h : p.parent? = some q) : q.isAbsolute = p.isAbsolute := by
  obtain ⟨front, back, hparts, hne, -, hq⟩ := parent?_cases h
  obtain ⟨b, bs, rfl⟩ := List.exists_cons_of_ne_nil hne
  rw [Bool.eq_iff_iff, isAbsolute_iff (p := p), hparts]
  rcases hq with ⟨rfl, hb, hq⟩ | ⟨rfl, hq⟩ | ⟨hfront, hroot, hq⟩
  · have hrelative : q.isAbsolute = false := by rw [isAbsolute, hq]; rfl
    have hhead : b ≠ [] := fun he => hb bs (by rw [he])
    simp [hrelative, hhead]
  · have habsolute : q.isAbsolute = true := by rw [isAbsolute, hq]; rfl
    simp [habsolute]
  · rw [isAbsolute_iff, hq]
    -- One part in front of the others is a name, so that neither path is absolute.
    match front with
    | [] => exact absurd rfl hfront
    | [f] =>
      have hf : f ≠ [] := fun he => hroot (by rw [he])
      simp [hf]
    | f :: g :: fs => simp

end Path

end Ambient
