import Ambient.Proofs.Parser.Bindings
import Ambient.Proofs.Parser.Nested
import Ambient.Proofs.Token.Attachment
import Ambient.Proofs.Token.Ended

/-!
# What parsers give within a source

`Yields source c p Q` says of a parser that stands at the cursor `c` in the source that its result
and the cursor behind it are as `Q` says when it succeeds. There is one lemma for each way in which
parsers are put together. At the cursor, all that is known of the tokens of a source holds: no
literal among them lacks its end (`Cursor.Within.alone`), their brackets have partners
(`Cursor.Within.trailing`), and their documentation is tidy (`Yields.peekDoc`).
-/

namespace Ambient

/-- A source whose literals are closed and whose brackets come in pairs. -/
structure Regular (source : String) : Prop where
  ended : ∀ t ∈ (lex source).tokens, t.Ended
  nested : Bracketed true ((lex source).tokens.map Token.kind)

/-- The cursor stands somewhere in the source. -/
def Cursor.Within (source : String) (c : Cursor) : Prop :=
  c.Behind (lex source).cursor

/-- Within the source, what the parser gives at the cursor is as `Q` says of it and of the cursor
behind it. -/
def Yields {α : Type} (source : String) (c : Cursor) (p : Parser α)
    (Q : α → Cursor → Prop) : Prop :=
  c.Within source → ∀ v c', p c = .ok (v, c') → c'.Within source ∧ Q v c'

namespace Cursor.Within

variable {source : String} {c : Cursor} (h : c.Within source)
include h

theorem behind {c' : Cursor} (hc' : c'.Behind c) : c'.Within source :=
  Behind.trans h hc'

theorem advance : c.advance.Within source :=
  h.behind ⟨rfl, List.tail_suffix c.rest⟩

theorem eof : c.eof.kind = .eof := by
  rw [h.1]
  rfl

theorem exists_append : ∃ us, (lex source).tokens = us ++ c.rest := by
  obtain ⟨us, hus⟩ := h.2
  exact ⟨us, hus.symm⟩

theorem mem {t : Token} (ht : t ∈ c.rest) : t ∈ (lex source).tokens :=
  h.2.subset ht

theorem current_mem : c.current ∈ (lex source).toList := by
  rw [Cursor.current]
  cases hrest : c.rest with
  | nil =>
    rw [List.headD_nil, h.1]
    exact List.mem_append_right _ (List.mem_singleton_self _)
  | cons t ts => exact List.mem_append_left _ (h.mem (by rw [hrest]; exact List.mem_cons_self))

theorem alone (hs : Regular source) : (c.kindAt 0).Alone := by
  rw [Cursor.kindAt]
  cases hrest : c.rest with
  | nil =>
    rw [List.getD_nil, h.eof]
    trivial
  | cons t ts =>
    have ht : t ∈ (lex source).tokens := h.mem (by rw [hrest]; exact List.mem_cons_self)
    exact Kind.alone_of_mem ht (hs.ended t ht).template

theorem trailing (hs : Regular source) : Trailing (c.rest.map Token.kind) := by
  obtain ⟨us, hus⟩ := h.exists_append
  have hnested := hs.nested
  rw [hus, List.map_append] at hnested
  exact hnested.trailing

end Cursor.Within

namespace Yields

variable {source : String} {α β : Type} {c : Cursor} {p : Parser α} {f : α → Parser β}
  {Q Q' : α → Cursor → Prop} {R : β → Cursor → Prop} {k : Kind}

theorem mono (h : Yields source c p Q) (hQ : ∀ v c', Q v c' → Q' v c') : Yields source c p Q' := by
  intro hc v c' hp
  obtain ⟨hc', hv⟩ := h hc v c' hp
  exact ⟨hc', hQ v c' hv⟩

theorem within (h : c.Within source → Yields source c p Q) : Yields source c p Q :=
  fun hc => h hc hc

theorem pure {v : α} (h : Q v c) : Yields source c (pure v) Q := by
  rintro hc _ _ ⟨⟩
  exact ⟨hc, h⟩

theorem fail {cause : Cause} : Yields source c (Parser.fail cause : Parser α) Q := by
  rintro - _ _ ⟨⟩

theorem bind (hp : Yields source c p Q) (hf : ∀ v c', Q v c' → Yields source c' (f v) R) :
    Yields source c (p >>= f) R := by
  intro hc w c'' h
  obtain ⟨v, c', hv, hw⟩ := Parser.bind_eq_ok h
  obtain ⟨hc', hQ⟩ := hp hc v c' hv
  exact hf v c' hQ hc' w c'' hw

theorem map {u : α → β} (hp : Yields source c p fun v => R (u v)) :
    Yields source c (u <$> p) R := by
  rw [map_eq_pure_bind]
  exact hp.bind fun v c' hv => .pure hv

theorem peekAt {f : Kind → Parser β} (n : Nat)
    (h : ∀ k, c.kindAt n = k → Yields source c (f k) R) :
    Yields source c (Parser.peekAt n >>= f) R :=
  h _ rfl

theorem peek {f : Kind → Parser β} (h : ∀ k, c.kindAt 0 = k → Yields source c (f k) R) :
    Yields source c (Parser.peek >>= f) R :=
  h _ rfl

theorem peekDoc {f : Option String → Parser β}
    (h : ∀ doc : Option String, (∀ d ∈ doc, TidyDoc d) → Yields source c (f doc) R) :
    Yields source c (Parser.peekDoc >>= f) R := by
  intro hc
  exact h _ (fun d hd => .of_attached hc.current_mem hd) hc

/-- What is given behind a question that leaves the cursor where it is. -/
theorem ask {v : α} (hq : p c = .ok (v, c)) (h : Yields source c (f v) R) :
    Yields source c (p >>= f) R := by
  intro hc w c' hp
  refine h hc w c' ?_
  change (p c).bind _ = _ at hp
  rwa [hq] at hp

theorem advance {p : Parser β} (h : Yields source c.advance p R) :
    Yields source c (Parser.advance >>= fun _ => p) R :=
  fun hc => h hc.advance

theorem accept {f : Bool → Parser β}
    (ht : c.kindAt 0 = k → Yields source c.advance (f true) R)
    (hf : c.kindAt 0 ≠ k → Yields source c (f false) R) :
    Yields source c (Parser.accept k >>= f) R := by
  intro hc w c' hp
  change (Parser.accept k c).bind _ = _ at hp
  rw [Parser.accept] at hp
  split at hp
  · next hk => exact ht hk hc.advance w c' hp
  · next hk => exact hf hk hc w c' hp

theorem expect {p : Parser β} (h : c.kindAt 0 = k → Yields source c.advance p R) :
    Yields source c (Parser.expect k >>= fun _ => p) R := by
  intro hc w c' hp
  change (Parser.expect k c).bind _ = _ at hp
  rw [Parser.expect] at hp
  split at hp
  · next hk => exact h hk hc.advance w c' hp
  · cases hp

/-- What is given by a scan over the tokens. -/
theorem scan {F : List Token → α × List Token} (hF : (F c.rest).2 <:+ c.rest)
    (h : Q (F c.rest).1 { c with rest := (F c.rest).2 }) :
    Yields source c (fun c => .ok ((F c.rest).1, { c with rest := (F c.rest).2 })) Q := by
  rintro hc _ _ ⟨⟩
  exact ⟨hc.behind ⟨rfl, hF⟩, h⟩

/-- Of some parsers only the place behind them matters. -/
theorem pass (hp : Forward p) (hf : ∀ v c', Yields source c' (f v) R) :
    Yields source c (p >>= f) R := by
  intro hc w c'' h
  obtain ⟨v, c', hv, hw⟩ := Parser.bind_eq_ok h
  obtain ⟨heof, ts, hts, -⟩ := hp c hc.eof v c' hv
  exact hf v c' (hc.behind ⟨heof, ts, hts.symm⟩) w c'' hw

section

variable {Q : α → Prop}

theorem pure_none : Yields source c (Pure.pure none) fun o _ => ∀ v ∈ o, Q v :=
  .pure (by simp)

theorem pure_some {v : α} (h : Q v) : Yields source c (Pure.pure (some v)) fun o _ => ∀ v ∈ o, Q v :=
  .pure (by simpa using h)

theorem map_some (hp : Yields source c p fun v _ => Q v) :
    Yields source c (some <$> p) fun o _ => ∀ v ∈ o, Q v :=
  .map (hp.mono fun v _ hv => by simpa using hv)

end

theorem after? {Q : α → Prop} (hp : c.kindAt 0 = k → Yields source c.advance p fun v _ => Q v) :
    Yields source c (Parser.after? k p) fun o _ => ∀ v ∈ o, c.kindAt 0 = k ∧ Q v := by
  exact .accept (fun hk => .map_some ((hp hk).mono fun _ _ hv => ⟨hk, hv⟩)) fun _ => .pure_none

end Yields

/-! ## Lists -/

section

variable {source : String} {α : Type} {c : Cursor}

theorem yields_commaList {close : Kind} {element : Parser α} {Q : α → Prop}
    (h : ∀ c, Yields source c element fun v _ => Q v) (n : Nat) :
    Yields source c (Parser.commaList close element n) fun vs _ => ∀ v ∈ vs, Q v := by
  induction n generalizing c with
  | zero => exact .fail
  | succ n ih =>
    refine .peek fun k _ => ?_
    split
    · exact .pure (by simp)
    · refine (h c).bind fun v c' hv => .accept (fun _ => ?_) fun _ => .pure (by simpa using hv)
      exact ih.bind fun vs c' hvs => .pure (List.forall_mem_cons.2 ⟨hv, hvs⟩)

/-- Elements with a separator between them, the first of which starts at the cursor. -/
theorem yields_sepBy1 {sep : Kind} {element : Parser α} {Q : Cursor → α → Prop}
    (h : ∀ c, Yields source c element fun v _ => Q c v) (n : Nat) :
    Yields source c (Parser.sepBy1 sep element n) fun vs _ =>
      (∃ v, vs.head? = some v ∧ Q c v) ∧ ∀ v ∈ vs, ∃ c, Q c v := by
  induction n generalizing c with
  | zero => exact .fail
  | succ n ih =>
    refine (h c).bind fun v c' hv => .accept (fun _ => ?_) fun _ => ?_
    · exact ih.bind fun vs c' hvs => .pure ⟨⟨v, rfl, hv⟩, List.forall_mem_cons.2 ⟨⟨c, hv⟩, hvs.2⟩⟩
    · exact .pure ⟨⟨v, rfl, hv⟩, by simpa using ⟨c, hv⟩⟩

/-- Elements with a separator between them of which the same is known at every cursor. -/
theorem yields_sepBy1_all {sep : Kind} {element : Parser α} {Q : α → Prop}
    (h : ∀ c, Yields source c element fun v _ => Q v) (n : Nat) :
    Yields source c (Parser.sepBy1 sep element n) fun vs _ => vs ≠ [] ∧ ∀ v ∈ vs, Q v := by
  refine (yields_sepBy1 (Q := fun _ => Q) h n).mono fun vs _ hvs => ⟨?_, fun v hv => ?_⟩
  · rintro rfl
    obtain ⟨⟨v, hv, -⟩, -⟩ := hvs
    cases hv
  · obtain ⟨-, hv⟩ := hvs.2 v hv
    exact hv

theorem yields_itemsUntil {close : Kind} {item : Parser (Option α)} {Q : α → Prop}
    (h : ∀ c, Yields source c item fun o _ => ∀ v ∈ o, Q v) (n : Nat) :
    Yields source c (Parser.itemsUntil close item n) fun vs _ => ∀ v ∈ vs, Q v := by
  induction n generalizing c with
  | zero => exact .fail
  | succ n ih =>
    refine .peek fun k _ => ?_
    split
    · exact .pure (by simp)
    · refine (h c).bind fun o c' ho => ih.bind fun vs c' hvs => .pure ?_
      rw [List.forall_mem_append]
      exact ⟨by simpa using ho, hvs⟩

end

end Ambient
