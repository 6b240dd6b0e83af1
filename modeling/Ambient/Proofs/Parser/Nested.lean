import Ambient.Proofs.Parser.Bracketed

/-!
# The rest of nested tokens

Where the brackets of a source come in pairs (`Bracketed`), what is left of its tokens at some place
may close brackets that were opened before, and has a partner for each bracket that it opens
(`Trailing`). So a scan that starts at a bracket ends at its partner: a computed name and a pattern
close their parentheses, too (`computedName_ends`, `pattern_ends`), and an expression that runs to
the end of the source has no bracket open there (`passExpression_ends`).
-/

namespace Ambient

/-! ## What closes at the end -/

theorem closesParens_other {k : Kind} (hopen : k ≠ .lparen) (hclose : k ≠ .rparen) (depth : Nat)
    (ks : List Kind) : closesParens depth (k :: ks) = closesParens depth ks := by
  rw [closesParens]
  · exact fun h => hopen h
  · exact fun h => hclose h

theorem closesName_other {k : Kind} (hk : k.isBracket = false) (depth : Nat) (ks : List Kind) :
    closesName depth (k :: ks) = closesName depth ks := by
  conv_lhs => unfold closesName
  split <;> simp_all [Kind.isBracket]

theorem closesPattern_other {k : Kind} (hk : k.isBracket = false) (depth : Nat) (ks : List Kind) :
    closesPattern depth (k :: ks) = closesPattern depth ks := by
  conv_lhs => unfold closesPattern
  split <;> simp_all [Kind.isBracket]

theorem endsExpression_other {k : Kind} (hk : k.isBracket = false) {depth : Nat}
    (hs : depth = 0 → k ≠ .comma ∧ k ≠ .semicolon) (ks : List Kind) :
    endsExpression depth (k :: ks) = endsExpression depth ks := by
  conv_lhs => unfold endsExpression
  split <;> simp_all [Kind.isBracket]

section

variable {i : Bool} {ks : List Kind} (h : Bracketed i ks)
include h

theorem closesParens_bracketed (depth : Nat) (ls : List Kind) :
    closesParens depth (ks ++ ls) = closesParens depth ls := by
  induction h generalizing depth ls with
  | nil => rfl
  | @cons i k ks hk _ _ ih =>
    rw [List.cons_append, closesParens_other, ih] <;>
    · rintro rfl
      cases hk
  | pair hk _ _ ih ihs =>
    rcases Kind.closing?_eq_some hk with ⟨rfl, rfl⟩ | ⟨rfl, rfl⟩ | ⟨rfl, rfl⟩ <;>
      simp [closesParens, ih, ihs]

theorem closesName_bracketed {depth : Nat} (hd : depth ≠ 0) (ls : List Kind) :
    closesName depth (ks ++ ls) = closesName depth ls := by
  induction h generalizing depth ls with
  | nil => rfl
  | cons hk _ _ ih => rw [List.cons_append, closesName_other hk, ih hd]
  | pair hk _ _ ih ihs =>
    rcases Kind.closing?_eq_some hk with ⟨rfl, rfl⟩ | ⟨rfl, rfl⟩ | ⟨rfl, rfl⟩ <;>
      simp [closesName, ih, ihs, hd]

theorem closesPattern_bracketed {depth : Nat} (hd : depth ≠ 0) (ls : List Kind) :
    closesPattern depth (ks ++ ls) = closesPattern depth ls := by
  induction h generalizing depth ls with
  | nil => rfl
  | cons hk _ _ ih => rw [List.cons_append, closesPattern_other hk, ih hd]
  | pair hk _ _ ih ihs =>
    rcases Kind.closing?_eq_some hk with ⟨rfl, rfl⟩ | ⟨rfl, rfl⟩ | ⟨rfl, rfl⟩ <;>
      simp [closesPattern, ih, ihs, hd]

theorem endsExpression_bracketed {depth : Nat} (hd : i = true → depth ≠ 0) (ls : List Kind) :
    endsExpression depth (ks ++ ls) = endsExpression depth ls := by
  induction h generalizing depth ls with
  | nil => rfl
  | @cons i k ks hk hs _ ih =>
    have hsep (h0 : depth = 0) : k ≠ .comma ∧ k ≠ .semicolon :=
      hs (Bool.eq_false_iff.2 fun hi => hd hi h0)
    rw [List.cons_append, endsExpression_other hk hsep, ih hd]
  | pair hk _ _ ih ihs =>
    rcases Kind.closing?_eq_some hk with ⟨rfl, rfl⟩ | ⟨rfl, rfl⟩ | ⟨rfl, rfl⟩ <;>
      simp [endsExpression, ih, ihs hd]

end

/-! ## The rest of nested tokens -/

/-- Tokens that close the brackets that they open, and possibly others. -/
inductive Trailing : List Kind → Prop
  | nil : Trailing []
  | cons {k : Kind} {ks : List Kind} (hk : k.isBracket = false) (h : Trailing ks) :
    Trailing (k :: ks)
  | pair {k close : Kind} {ks ls : List Kind} (hk : k.closing? = some close)
    (h : Bracketed true ks) (hs : Trailing ls) : Trailing (k :: (ks ++ close :: ls))
  | close {k close : Kind} {ks : List Kind} (hk : k.closing? = some close) (h : Trailing ks) :
    Trailing (close :: ks)

theorem Trailing.of_bracketed {ks : List Kind} (h : Bracketed true ks) {ls : List Kind}
    (hls : Trailing ls) : Trailing (ks ++ ls) := by
  generalize hi : true = i at h
  induction h with
  | nil => exact hls
  | cons hk _ _ ih => exact .cons hk (ih hi)
  | pair hk h _ _ ihs =>
    rw [List.cons_append, List.append_assoc, List.cons_append]
    exact .pair hk h (ihs hi)

theorem Trailing.append {ks ls : List Kind} (h : Trailing ks) (hls : Trailing ls) :
    Trailing (ks ++ ls) := by
  induction h with
  | nil => exact hls
  | cons hk _ ih => exact .cons hk ih
  | pair hk h _ ih =>
    rw [List.cons_append, List.append_assoc, List.cons_append]
    exact .pair hk h ih
  | close hk _ ih => exact .close hk ih

/-- **What is left of nested tokens** at any place. -/
theorem Bracketed.trailing {us vs : List Kind} (h : Bracketed true (us ++ vs)) : Trailing vs := by
  generalize hi : true = i at h
  generalize hks : us ++ vs = ks at h
  induction h generalizing us vs with
  | nil =>
    obtain ⟨-, rfl⟩ := List.append_eq_nil_iff.1 hks
    exact .nil
  | @cons i k ks hk hs h ih =>
    cases us with
    | nil =>
      subst hi hks
      simpa using Trailing.of_bracketed (.cons hk hs h) .nil
    | cons u us => exact ih hi (List.cons.inj hks).2
  | @pair i k close ks ls hk h hs ih ihs =>
    cases us with
    | nil =>
      subst hi hks
      simpa using Trailing.of_bracketed (.pair hk h hs) .nil
    | cons u us =>
      obtain ⟨-, hks⟩ := List.cons.inj hks
      rcases List.append_eq_append_iff.1 hks with ⟨ws, rfl, rfl⟩ | ⟨ws, rfl, hws⟩
      · exact (ih rfl rfl).append (.close hk (ihs hi (List.nil_append ls)))
      · -- the place is behind the inside of the brackets
        cases ws with
        | nil =>
          obtain rfl : close :: ls = vs := hws
          exact .close hk (ihs hi (List.nil_append ls))
        | cons w ws => exact ihs hi (List.cons.inj hws).2.symm

/-- An opening bracket has a partner. -/
theorem Trailing.exists_partner {k close : Kind} {ks : List Kind} (h : Trailing (k :: ks))
    (hk : k.closing? = some close) :
    ∃ ls us, ks = ls ++ close :: us ∧ Bracketed true ls := by
  cases h with
  | cons hk' _ => rcases Kind.closing?_eq_some hk with ⟨rfl, -⟩ | ⟨rfl, -⟩ | ⟨rfl, -⟩ <;> cases hk'
  | pair hk' h _ =>
    obtain rfl := Option.some.inj (hk.symm.trans hk')
    exact ⟨_, _, rfl, h⟩
  | close hk' _ =>
    rcases Kind.closing?_eq_some hk' with ⟨-, rfl⟩ | ⟨-, rfl⟩ | ⟨-, rfl⟩ <;> cases hk

/-! ## Scans -/

/-- The first tokens, from an opening bracket to its partner. -/
theorem exists_front_partner {ts : List Token} {k close : Kind}
    (h : Trailing (ts.map Token.kind)) (hts : (ts.map Token.kind).head? = some k)
    (hk : k.closing? = some close) : ∃ e rest ks, ts = e ++ rest ∧
      e.map Token.kind = k :: (ks ++ [close]) ∧ Bracketed true ks := by
  obtain ⟨ks, hks⟩ := List.head?_eq_some_iff.1 hts
  obtain ⟨t, r, rfl, rfl, rfl⟩ := List.map_eq_cons_iff.1 hks
  obtain ⟨ls, ks, hks, hls⟩ := h.exists_partner hk
  obtain ⟨us, r, rfl, rfl, hr⟩ := List.map_eq_append_iff.1 hks
  obtain ⟨u, rest, rfl, hu, -⟩ := List.map_eq_cons_iff.1 hr
  exact ⟨t :: (us ++ [u]), rest, us.map Token.kind, by simp, by simp [hu], hls⟩

/-- **A computed name ends at the partner of its bracket.** -/
theorem computedName_ends {ts : List Token} (h : Trailing (ts.map Token.kind))
    (hts : (ts.map Token.kind).head? = some .lbracket) : ∃ e rest, ts = e ++ rest ∧
      passComputedName? 0 [] ts = some (e.reverse, rest) ∧
      (e.map Token.kind).head? = some .lbracket ∧ closesName 0 (e.map Token.kind) = true ∧
      closesParens 0 (e.map Token.kind) = true := by
  obtain ⟨e, rest, ks, rfl, hkinds, hks⟩ := exists_front_partner h hts rfl
  have hcloses : closesName 0 (e.map Token.kind) = true := by
    rw [hkinds, closesName, closesName_bracketed hks (by simp)]
    rfl
  refine ⟨e, rest, rfl, ?_, by rw [hkinds]; rfl, hcloses, ?_⟩
  · rw [passComputedName?_of_closesName hcloses, List.append_nil]
  · rw [hkinds, closesParens_other (by simp) (by simp), closesParens_bracketed hks]
    rfl

/-- **A pattern ends at the partner of its bracket.** -/
theorem pattern_ends {ts : List Token} (h : Trailing (ts.map Token.kind))
    (hts : (ts.map Token.kind).head? = some .lbrace ∨ (ts.map Token.kind).head? = some .lbracket) :
    ∃ e rest, ts = e ++ rest ∧ passPattern? 0 [] ts = some (e.reverse, rest) ∧
      ((e.map Token.kind).head? = some .lbrace ∨ (e.map Token.kind).head? = some .lbracket) ∧
      closesPattern 0 (e.map Token.kind) = true ∧ closesParens 0 (e.map Token.kind) = true := by
  obtain ⟨e, rest, rfl, hhead, hcloses, hparens⟩ : ∃ e rest, ts = e ++ rest ∧
      ((e.map Token.kind).head? = some .lbrace ∨ (e.map Token.kind).head? = some .lbracket) ∧
      closesPattern 0 (e.map Token.kind) = true ∧ closesParens 0 (e.map Token.kind) = true := by
    rcases hts with hts | hts <;>
    · obtain ⟨e, rest, ks, rfl, hkinds, hks⟩ := exists_front_partner h hts rfl
      refine ⟨e, rest, rfl, by simp [hkinds], ?_, ?_⟩ <;> rw [hkinds]
      · rw [closesPattern, closesPattern_bracketed hks (by simp)]
        rfl
      · rw [closesParens_other (by simp) (by simp), closesParens_bracketed hks]
        rfl
  refine ⟨e, rest, rfl, ?_, hhead, hcloses, hparens⟩
  rw [passPattern?_of_closesPattern hcloses, List.append_nil]

/-- **An expression ends outside of all brackets**, also at the end of the source. -/
theorem passExpression_ends {ts : List Token} (h : Trailing (ts.map Token.kind))
    (passed : List Token) : ∃ e rest, ts = e ++ rest ∧
      passExpression 0 passed ts = (e.reverse ++ passed, rest) ∧
      endsExpression 0 (e.map Token.kind) = true := by
  generalize hks : ts.map Token.kind = ks at h
  induction h generalizing ts passed with
  | nil =>
    obtain rfl := List.map_eq_nil_iff.1 hks
    exact ⟨[], [], rfl, rfl, rfl⟩
  | @cons k ks hk _ ih =>
    obtain ⟨t, ts, rfl, rfl, rfl⟩ := List.map_eq_cons_iff.1 hks
    by_cases hend : EndsExpression t.kind
    · refine ⟨[], t :: ts, rfl, ?_, rfl⟩
      rcases hend with h | h | h <;> simp [passExpression, h]
    · have hsep : t.kind ≠ .comma ∧ t.kind ≠ .semicolon :=
        ⟨fun h => hend (.inl h), fun h => hend (.inr (.inl h))⟩
      obtain ⟨e, rest, rfl, hpass, hends⟩ := ih (t :: passed) rfl
      refine ⟨t :: e, rest, rfl, ?_, ?_⟩
      · rw [passExpression_other hk fun _ => hsep, hpass]
        simp
      · rw [List.map_cons, endsExpression_other hk fun _ => hsep, hends]
  | @pair k close ks ls hk h _ ih =>
    obtain ⟨t, r, rfl, rfl, hr⟩ := List.map_eq_cons_iff.1 hks
    obtain ⟨us, r', rfl, rfl, hr'⟩ := List.map_eq_append_iff.1 hr
    obtain ⟨u, vs, rfl, rfl, rfl⟩ := List.map_eq_cons_iff.1 hr'
    obtain ⟨e, rest, rfl, hpass, hends⟩ := ih (u :: (us.reverse ++ t :: passed)) rfl
    refine ⟨t :: (us ++ u :: e), rest, by simp, ?_, ?_⟩
    · rw [passExpression_open hk, passExpression_bracketed h (by simp), passExpression_close hk,
        hpass]
      simp
    · have hkinds : (t :: (us ++ u :: e)).map Token.kind =
          t.kind :: (us.map Token.kind ++ u.kind :: e.map Token.kind) := by simp
      rw [hkinds]
      rcases Kind.closing?_eq_some hk with ⟨ht, hu⟩ | ⟨ht, hu⟩ | ⟨ht, hu⟩ <;>
      · rw [ht, hu, endsExpression, endsExpression_bracketed h (by simp), endsExpression]
        simpa using hends
  | @close k close ks hk _ ih =>
    obtain ⟨t, ts, rfl, rfl, rfl⟩ := List.map_eq_cons_iff.1 hks
    rcases Kind.closing?_eq_some hk with ⟨-, ht⟩ | ⟨-, ht⟩ | ⟨-, ht⟩
    · obtain ⟨e, rest, rfl, hpass, hends⟩ := ih (t :: passed) rfl
      refine ⟨t :: e, rest, rfl, by simp [passExpression, ht, hpass], ?_⟩
      simpa [ht, endsExpression] using hends
    · obtain ⟨e, rest, rfl, hpass, hends⟩ := ih (t :: passed) rfl
      refine ⟨t :: e, rest, rfl, by simp [passExpression, ht, hpass], ?_⟩
      simpa [ht, endsExpression] using hends
    · exact ⟨[], t :: ts, rfl, by simp [passExpression, ht], rfl⟩

end Ambient
