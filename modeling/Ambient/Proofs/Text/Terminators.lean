import Ambient.Text.LineEnding

/-!
# Line endings in one style

A text is made of line endings and of characters that end no line, where a carriage return takes in
the line feed behind it (`induction_endings`). Three things are said of a text by this structure:
the lines between its endings (`rows`), its normalized form, and which texts differ from it in the
style of their endings only (`Restyled`).

`normalize_canonical` puts them together: a normalized text has endings of one style, parted at
these it has the lines of the text, and two texts have the same normalized form if and only if they
differ in style only.
-/

namespace Ambient.Text.LineEnding

/-! ## Endings -/

/-- The ways in which a line can end. -/
inductive Ending where
  | pair
  | feed
  | carriage
  deriving DecidableEq, Repr

namespace Ending

/-- The characters of an ending. -/
def text : Ending → List Char
  | pair => ['\r', '\n']
  | feed => ['\n']
  | carriage => ['\r']

/-- Whether the characters are this ending in front of a text: a carriage return in front of a line
feed is no ending of its own. -/
def StandsBefore : Ending → List Char → Prop
  | carriage, next => next.head? ≠ some '\n'
  | pair, _ | feed, _ => True

end Ending

/-- Whether a line ends at the character. -/
def isTerminator (c : Char) : Bool :=
  c == '\r' || c == '\n'

theorem isTerminator_eq_false_iff {c : Char} : isTerminator c = false ↔ c ≠ '\r' ∧ c ≠ '\n' := by
  simp [isTerminator]

/-- What a text starts with: nothing, a character that ends no line, or an ending. -/
theorem ending_cases (cs : List Char) :
    cs = [] ∨ (∃ c ds, isTerminator c = false ∧ cs = c :: ds) ∨
      ∃ (e : Ending) (ds : List Char), e.StandsBefore ds ∧ cs = e.text ++ ds := by
  cases cs with
  | nil => exact .inl rfl
  | cons c ds =>
    refine .inr ?_
    by_cases hr : c = '\r'
    · subst hr
      refine .inr ?_
      by_cases hn : ds.head? = some '\n'
      · obtain ⟨es, rfl⟩ := List.head?_eq_some_iff.1 hn
        exact ⟨.pair, es, trivial, rfl⟩
      · exact ⟨.carriage, ds, hn, rfl⟩
    by_cases hn : c = '\n'
    · subst hn
      exact .inr ⟨.feed, ds, trivial, rfl⟩
    · exact .inl ⟨c, ds, isTerminator_eq_false_iff.2 ⟨hr, hn⟩, rfl⟩

/-- Induction on a text, ending by ending. -/
theorem induction_endings {motive : List Char → Prop} (nil : motive [])
    (char : ∀ c cs, isTerminator c = false → motive cs → motive (c :: cs))
    (ending : ∀ (e : Ending) cs, e.StandsBefore cs → motive cs → motive (e.text ++ cs))
    (cs : List Char) : motive cs := by
  induction hlen : cs.length using Nat.strongRecOn generalizing cs with
  | ind n ih =>
    subst hlen
    rcases ending_cases cs with rfl | ⟨c, ds, hc, rfl⟩ | ⟨e, ds, he, rfl⟩
    · exact nil
    · exact char c ds hc (ih ds.length (Nat.lt_succ_self _) ds rfl)
    · have hshorter : ds.length < (e.text ++ ds).length := by
        have hpos : 0 < e.text.length := by cases e <;> decide
        rw [List.length_append]
        omega
      exact ending e ds he (ih ds.length hshorter ds rfl)

/-! ## Lines -/

/-- The lines of a text between its endings: one more than it has endings. -/
def rows : List Char → List (List Char)
  | [] => [[]]
  | '\r' :: '\n' :: cs => [] :: rows cs
  | '\r' :: cs => [] :: rows cs
  | '\n' :: cs => [] :: rows cs
  | c :: cs => (rows cs).modifyHead (c :: ·)

/-- The parts of a text between pairs of a carriage return and a line feed. A carriage return or a
line feed alone is like any other character. -/
def pairRows : List Char → List (List Char)
  | [] => [[]]
  | '\r' :: '\n' :: cs => [] :: pairRows cs
  | c :: cs => (pairRows cs).modifyHead (c :: ·)

section Computation

variable {c : Char} {cs : List Char} {e : Ending}

theorem rows_char (h : isTerminator c = false) :
    rows (c :: cs) = (rows cs).modifyHead (c :: ·) := by
  obtain ⟨hr, hn⟩ := isTerminator_eq_false_iff.1 h
  rw [rows]
  · exact fun _ e _ => hr e
  · exact hr
  · exact hn

theorem rows_ending (h : e.StandsBefore cs) : rows (e.text ++ cs) = [] :: rows cs := by
  cases e with
  | pair | feed => rfl
  | carriage =>
    show rows ('\r' :: cs) = _
    rw [rows]
    rintro ds rfl
    exact h rfl

theorem pairRows_char (h : isTerminator c = false) :
    pairRows (c :: cs) = (pairRows cs).modifyHead (c :: ·) := by
  obtain ⟨hr, -⟩ := isTerminator_eq_false_iff.1 h
  rw [pairRows]
  exact fun _ e _ => hr e

theorem normalizeChars_char (h : isTerminator c = false) :
    normalizeChars (c :: cs) = c :: normalizeChars cs := by
  obtain ⟨hr, hn⟩ := isTerminator_eq_false_iff.1 h
  rw [normalizeChars]
  · exact fun _ e _ => hr e
  · exact hr
  · exact hn

theorem normalizeChars_ending (h : e.StandsBefore cs) :
    normalizeChars (e.text ++ cs) = Ending.pair.text ++ normalizeChars cs := by
  cases e with
  | pair | feed => rfl
  | carriage =>
    show normalizeChars ('\r' :: cs) = _
    rw [normalizeChars]
    · rfl
    · rintro ds rfl
      exact h rfl

end Computation

/-- Parted at pairs, a normalized text has the lines that the text has between its endings. -/
theorem pairRows_normalizeChars (cs : List Char) : pairRows (normalizeChars cs) = rows cs := by
  induction cs using induction_endings with
  | nil => rfl
  | char c cs hc ih => rw [normalizeChars_char hc, pairRows_char hc, rows_char hc, ih]
  | ending e cs he ih =>
    rw [normalizeChars_ending he, rows_ending he, ← ih]
    rfl

/-! ## Endings of one style -/

/-- Whether carriage returns and line feeds come in pairs only. -/
structure Paired (cs : List Char) : Prop where
  feed_behind : ∀ front back, cs = front ++ '\r' :: back → back.head? = some '\n'
  carriage_before : ∀ front back, cs = front ++ '\n' :: back → front.getLast? = some '\r'

theorem Paired.nil : Paired [] := by
  constructor
  case feed_behind =>
    intro front back h
    simp at h
  case carriage_before =>
    intro front back h
    simp at h

theorem Paired.char {c : Char} {cs : List Char} (hc : isTerminator c = false) (h : Paired cs) :
    Paired (c :: cs) := by
  obtain ⟨hr, hn⟩ := isTerminator_eq_false_iff.1 hc
  constructor
  case feed_behind =>
    intro front back hcs
    cases front with
    | nil => exact absurd (List.cons.inj hcs).1 hr
    | cons d front => exact h.feed_behind front back (List.cons.inj hcs).2
  case carriage_before =>
    intro front back hcs
    cases front with
    | nil => exact absurd (List.cons.inj hcs).1 hn
    | cons d front =>
      have hlast := h.carriage_before front back (List.cons.inj hcs).2
      rw [List.getLast?_cons, hlast]
      rfl

theorem Paired.pair {cs : List Char} (h : Paired cs) : Paired (Ending.pair.text ++ cs) := by
  -- The place is the carriage return, the line feed, or one behind the pair.
  constructor
  case feed_behind =>
    intro front back hcs
    match front with
    | [] =>
      obtain ⟨-, rfl⟩ := List.cons.inj hcs
      rfl
    | [d] =>
      obtain ⟨-, hcs⟩ := List.cons.inj hcs
      exact absurd (List.cons.inj hcs).1 (by decide)
    | d :: d' :: front =>
      obtain ⟨-, hcs⟩ := List.cons.inj hcs
      exact h.feed_behind front back (List.cons.inj hcs).2
  case carriage_before =>
    intro front back hcs
    match front with
    | [] => exact absurd (List.cons.inj hcs).1 (by decide)
    | [d] =>
      obtain ⟨rfl, -⟩ := List.cons.inj hcs
      rfl
    | d :: d' :: front =>
      obtain ⟨-, hcs⟩ := List.cons.inj hcs
      have hlast := h.carriage_before front back (List.cons.inj hcs).2
      rw [List.getLast?_cons_cons, List.getLast?_cons, hlast]
      rfl

theorem paired_normalizeChars (cs : List Char) : Paired (normalizeChars cs) := by
  induction cs using induction_endings with
  | nil => exact .nil
  | char c cs hc ih =>
    rw [normalizeChars_char hc]
    exact ih.char hc
  | ending e cs he ih =>
    rw [normalizeChars_ending he]
    exact ih.pair

/-! ## Texts in different styles -/

/-- Texts that differ only in how their lines end. -/
inductive Restyled : List Char → List Char → Prop
  | nil : Restyled [] []
  | char {c : Char} {cs ds : List Char} (hc : isTerminator c = false) (h : Restyled cs ds) :
    Restyled (c :: cs) (c :: ds)
  | ending {e f : Ending} {cs ds : List Char} (he : e.StandsBefore cs) (hf : f.StandsBefore ds)
    (h : Restyled cs ds) : Restyled (e.text ++ cs) (f.text ++ ds)

/-- A text and its normalized form. -/
theorem restyled_normalizeChars (cs : List Char) : Restyled cs (normalizeChars cs) := by
  induction cs using induction_endings with
  | nil => exact .nil
  | char c cs hc ih =>
    rw [normalizeChars_char hc]
    exact .char hc ih
  | ending e cs he ih =>
    rw [normalizeChars_ending he]
    exact .ending he trivial ih

theorem Restyled.normalizeChars_eq {cs ds : List Char} (h : Restyled cs ds) :
    normalizeChars cs = normalizeChars ds := by
  induction h with
  | nil => rfl
  | char hc _ ih => rw [normalizeChars_char hc, normalizeChars_char hc, ih]
  | ending he hf _ ih => rw [normalizeChars_ending he, normalizeChars_ending hf, ih]

theorem restyled_of_normalizeChars_eq {cs ds : List Char}
    (h : normalizeChars cs = normalizeChars ds) : Restyled cs ds := by
  -- The normalized form tells what each text starts with, up to the style of an ending.
  induction cs using induction_endings generalizing ds with
  | nil =>
    rcases ending_cases ds with rfl | ⟨d, ds, hd, rfl⟩ | ⟨f, ds, hf, rfl⟩
    · exact .nil
    · rw [normalizeChars_char hd] at h
      cases h
    · rw [normalizeChars_ending hf] at h
      cases h
  | char c cs hc ih =>
    rw [normalizeChars_char hc] at h
    rcases ending_cases ds with rfl | ⟨d, ds, hd, rfl⟩ | ⟨f, ds, hf, rfl⟩
    · cases h
    · rw [normalizeChars_char hd] at h
      obtain ⟨rfl, htail⟩ := List.cons.inj h
      exact .char hc (ih htail)
    · rw [normalizeChars_ending hf] at h
      exact absurd (List.cons.inj h).1 (isTerminator_eq_false_iff.1 hc).1
  | ending e cs he ih =>
    rw [normalizeChars_ending he] at h
    rcases ending_cases ds with rfl | ⟨d, ds, hd, rfl⟩ | ⟨f, ds, hf, rfl⟩
    · cases h
    · rw [normalizeChars_char hd] at h
      exact absurd (List.cons.inj h).1.symm (isTerminator_eq_false_iff.1 hd).1
    · rw [normalizeChars_ending hf] at h
      exact .ending he hf (ih (List.append_cancel_left h))

theorem normalizeChars_eq_iff {cs ds : List Char} :
    normalizeChars cs = normalizeChars ds ↔ Restyled cs ds :=
  ⟨restyled_of_normalizeChars_eq, Restyled.normalizeChars_eq⟩

theorem normalize_eq_iff {s t : String} :
    normalize s = normalize t ↔ Restyled s.toList t.toList := by
  rw [← String.toList_inj, toList_normalize, toList_normalize, normalizeChars_eq_iff]

/-! ## The normalized form -/

/-- **Normalizing changes the style of line endings and nothing else.** In the result carriage
returns and line feeds come in pairs only, and parted at the pairs it has the lines of the text,
empty ones included. So normalizing again changes nothing, and two texts have the same normalized form if and
only if they differ in the style of their endings only. -/
theorem normalize_canonical (s : String) :
    Paired (normalize s).toList ∧
      pairRows (normalize s).toList = rows s.toList ∧
      normalize (normalize s) = normalize s ∧
      ∀ t : String, normalize s = normalize t ↔ Restyled s.toList t.toList := by
  refine ⟨?_, ?_, ?_, fun t => normalize_eq_iff⟩
  · rw [toList_normalize]
    exact paired_normalizeChars s.toList
  · rw [toList_normalize]
    exact pairRows_normalizeChars s.toList
  · refine (normalize_eq_iff.2 ?_).symm
    rw [toList_normalize]
    exact restyled_normalizeChars s.toList

theorem normalizeChars_append {cs : List Char} (h : ∀ c ∈ cs, isTerminator c = false)
    (ds : List Char) : normalizeChars (cs ++ ds) = cs ++ normalizeChars ds := by
  induction cs with
  | nil => rfl
  | cons c cs ih =>
    rw [List.forall_mem_cons] at h
    rw [List.cons_append, List.cons_append, normalizeChars_char h.1, ih h.2]

/-- Lines that end with a line feed are lines that end with a pair afterwards. -/
theorem normalize_join {lines : List String}
    (h : ∀ l ∈ lines, ∀ c ∈ l.toList, isTerminator c = false) :
    normalize (String.join (lines.map (· ++ "\n"))) = String.join (lines.map (· ++ "\r\n")) := by
  rw [← String.toList_inj, toList_normalize]
  induction lines with
  | nil => rfl
  | cons l lines ih =>
    rw [List.forall_mem_cons] at h
    have hend : normalizeChars ("\n".toList ++ (String.join (lines.map (· ++ "\n"))).toList) = _ :=
      normalizeChars_ending (e := .feed) trivial
    rw [List.map_cons, List.map_cons, String.join_cons, String.join_cons, String.toList_append,
      String.toList_append, List.append_assoc, normalizeChars_append h.1, hend, ih h.2,
      String.toList_append, String.toList_append, List.append_assoc]
    rfl

/-- No character of a text that is written out ends a line if none of those it is made of does. -/
theorem isTerminator_ofList {cs : List Char} (h : cs.all (!isTerminator ·) = true) :
    ∀ c ∈ (String.ofList cs).toList, isTerminator c = false := by
  simpa [List.all_eq_true] using h

/-- A carriage return takes in the line feed behind it, and no other character. -/
example : rows "a\r\r\n\n\rb\r".toList = ["a".toList, [], [], [], "b".toList, []] := by decide

end Ambient.Text.LineEnding
