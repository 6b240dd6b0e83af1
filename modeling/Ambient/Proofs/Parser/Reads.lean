import Ambient.Parser.Skip
import Ambient.Proofs.Token.Lexeme

/-!
# What a parser reads

`Takes p ls v us` says that a parser takes the lexemes `ls` up to `us` and gives `v`. A type in the
`extends` operand of a conditional type can stop in front of a word `extends` that it should have
taken. A parser that does so, or fails, `Balks`. Every continuation of the grammar is `Stuck` in
front of that word. `Reads` puts both outcomes together: `ok` tells which one it is, so that
whether a tree can be read back is computed along the grammar (`Reads.bind`).
-/

namespace Ambient

/-- The tokens that are left match the lexemes. -/
structure Shows (c : Cursor) (ls : List Lexeme) : Prop where
  rest : List.Forall₂ Lexeme.Describes ls c.rest
  eof : c.eof.kind = .eof

/-- The kind of a lexeme of a list. Behind the last one is the end of the source. -/
def kindAt (ls : List Lexeme) (n : Nat) : Kind :=
  (ls[n]?.map Lexeme.kind).getD .eof

@[simp] theorem kindAt_nil (n : Nat) : kindAt [] n = .eof := by simp [kindAt]

@[simp] theorem kindAt_cons_zero (l : Lexeme) (ls : List Lexeme) : kindAt (l :: ls) 0 = l.kind := rfl

@[simp] theorem kindAt_cons_succ (l : Lexeme) (ls : List Lexeme) (n : Nat) :
    kindAt (l :: ls) (n + 1) = kindAt ls n := rfl

namespace Shows

variable {c : Cursor} {l : Lexeme} {ls : List Lexeme}

theorem kindAt_eq (h : Shows c ls) (n : Nat) : c.kindAt n = kindAt ls n := by
  obtain ⟨hr, he⟩ := h
  unfold Cursor.kindAt kindAt
  generalize c.rest = ts at hr
  induction hr generalizing n with
  | nil => simp [he]
  | cons hl _ ih =>
    cases n with
    | zero => simp [hl.1]
    | succ n => simpa using ih n

theorem advance (h : Shows c (l :: ls)) : Shows c.advance ls := by
  obtain ⟨hr, he⟩ := h
  refine ⟨?_, he⟩
  unfold Cursor.advance
  cases hr' : c.rest with
  | nil => rw [hr'] at hr; cases hr
  | cons t ts =>
    rw [hr'] at hr
    cases hr with
    | cons _ h => exact h

theorem doc_current (h : Shows c (l :: ls)) : c.current.doc = l.doc := by
  obtain ⟨hr, -⟩ := h
  unfold Cursor.current
  cases hr' : c.rest with
  | nil => rw [hr'] at hr; cases hr
  | cons t ts =>
    rw [hr'] at hr
    cases hr with
    | cons h _ => exact h.2.1

end Shows

/-! ## Outcomes -/

section

variable {α β : Type}

/-- The parser takes the lexemes up to `us`. -/
def Takes (p : Parser α) (ls : List Lexeme) (v : α) (us : List Lexeme) : Prop :=
  ∀ c, Shows c ls → ∃ c', p c = .ok (v, c') ∧ Shows c' us

/-- The parser fails, or stops in front of the word `extends` inside an `extends` operand. -/
def Balks (inSuper : Bool) (p : Parser α) (ls : List Lexeme) : Prop :=
  ∀ c, Shows c ls → ∀ w c', p c = .ok (w, c') → inSuper = true ∧ c'.kindAt 0 = .keyword .extendsKw

/-- The parser takes the lexemes up to `us` if `ok` says so, and balks otherwise. -/
def Reads (inSuper ok : Bool) (p : Parser α) (ls : List Lexeme) (v : α) (us : List Lexeme) : Prop :=
  if ok then Takes p ls v us else Balks inSuper p ls

/-- The parser does not get past the word `extends`. -/
def Stuck (p : Parser α) : Prop :=
  ∀ c, c.kindAt 0 = .keyword .extendsKw → ∀ w c', p c = .ok (w, c') →
    c'.kindAt 0 = .keyword .extendsKw

theorem Parser.bind_apply (p : Parser α) (f : α → Parser β) (c : Cursor) :
    (p >>= f) c = match p c with
      | .ok (v, c') => f v c'
      | .error e => .error e := by
  show (p c).bind _ = _
  cases p c <;> rfl

variable {p : Parser α} {f : α → Parser β} {ls ms us : List Lexeme} {v : α} {w : β}
variable {s a b : Bool}

theorem Takes.pure : Takes (pure v : Parser α) ls v ls :=
  fun c h => ⟨c, rfl, h⟩

theorem Takes.bind (hp : Takes p ls v ms) (hf : Takes (f v) ms w us) :
    Takes (p >>= f) ls w us := by
  intro c hc
  obtain ⟨c', hc', hs⟩ := hp c hc
  obtain ⟨c'', hc'', hs'⟩ := hf c' hs
  exact ⟨c'', by rw [Parser.bind_apply, hc']; exact hc'', hs'⟩

theorem Takes.reads (h : Takes p ls v us) : Reads s true p ls v us := h

theorem Balks.reads (h : Balks s p ls) : Reads s false p ls v us := h

/-- What is read outside of `extends` operands is read everywhere. -/
theorem Reads.lift (h : Reads false a p ls v us) : Reads s a p ls v us := by
  cases a
  · exact fun c hc w c' hp => absurd (h c hc w c' hp).1 (by simp)
  · exact h

/-- What stands behind a parser is read on its own. -/
theorem Takes.then (hp : Takes p ls v ms) (hf : Reads s b (f v) ms w us) :
    Reads s b (p >>= f) ls w us := by
  cases b with
  | true => exact Takes.bind hp hf
  | false =>
    intro c hc w c' h
    obtain ⟨c₁, hc₁, hms⟩ := hp c hc
    rw [Parser.bind_apply, hc₁] at h
    exact hf c₁ hms w c' h

theorem Balks.bind (hp : Balks s p ls) (hs : s = true → ∀ v, Stuck (f v)) :
    Balks s (p >>= f) ls := by
  intro c hc w c' h
  rw [Parser.bind_apply] at h
  cases hv : p c with
  | error e => rw [hv] at h; simp at h
  | ok r =>
    obtain ⟨v, c₁⟩ := r
    rw [hv] at h
    obtain ⟨hsup, hk⟩ := hp c hc v c₁ hv
    exact ⟨hsup, hs hsup v c₁ hk w c' h⟩

/-- **A parser with another one behind it.** -/
theorem Reads.bind (hp : Reads s a p ls v ms) (hf : Reads s b (f v) ms w us)
    (hs : s = true → ∀ v, Stuck (f v)) : Reads s (a && b) (p >>= f) ls w us := by
  cases a with
  | true => exact Takes.then hp hf
  | false => exact Balks.bind hp hs

/-- A parser that is not past the word `extends`. -/
theorem Reads.balks {l : Lexeme} (hp : Reads true a p ls v (l :: us))
    (hl : l.kind = .keyword .extendsKw) : Balks true p ls := by
  cases a with
  | false => exact hp
  | true =>
    intro c hc w c' h
    obtain ⟨c₁, hc₁, hs⟩ := hp c hc
    rw [hc₁] at h
    obtain ⟨-, rfl⟩ : v = w ∧ c₁ = c' := by simpa using h
    exact ⟨rfl, by rw [hs.kindAt_eq]; exact hl⟩

/-- Nothing comes behind a parser that fails. -/
theorem Reads.bind_false (hp : Reads false a p ls v ms) (hf : Reads s b (f v) ms w us) :
    Reads s (a && b) (p >>= f) ls w us := by
  cases a with
  | true => exact Takes.then hp hf
  | false =>
    intro c hc w c' h
    rw [Parser.bind_apply] at h
    cases hv : p c with
    | error e => rw [hv] at h; simp at h
    | ok r => exact absurd (hp c hc _ _ hv).1 (by simp)

/-- What stands behind an `extends` operand refuses that word. -/
theorem Reads.bind_refused (hp : Reads true a p ls v ms) (hf : Reads s b (f v) ms w us)
    (hs : ∀ v c, c.kindAt 0 = .keyword .extendsKw → ∀ r, f v c ≠ .ok r) :
    Reads s (a && b) (p >>= f) ls w us := by
  cases a with
  | true => exact Takes.then hp hf
  | false =>
    intro c hc w c' h
    rw [Parser.bind_apply] at h
    cases hv : p c with
    | error e => rw [hv] at h; simp at h
    | ok r =>
      rw [hv] at h
      exact absurd h (hs _ _ (hp c hc _ _ hv).2 _)

theorem Reads.map (g : α → β) (hp : Reads s a p ls v us) :
    Reads s a (g <$> p) ls (g v) us := by
  rw [map_eq_pure_bind, ← Bool.and_true a]
  refine hp.bind Takes.pure.reads fun _ v c hc w c' h => ?_
  obtain ⟨-, rfl⟩ := Prod.mk.inj (Except.ok.inj h)
  exact hc

/-! ## One token -/

theorem takes_peekAt (n : Nat) : Takes (Parser.peekAt n) ls (kindAt ls n) ls :=
  fun c h => ⟨c, by rw [Parser.peekAt, h.kindAt_eq], h⟩

theorem takes_peek : Takes Parser.peek ls (kindAt ls 0) ls :=
  takes_peekAt 0

theorem takes_peekDoc {l : Lexeme} : Takes Parser.peekDoc (l :: ls) l.doc (l :: ls) :=
  fun c h => ⟨c, by rw [Parser.peekDoc, h.doc_current], h⟩

theorem takes_advance {l : Lexeme} : Takes Parser.advance (l :: ls) () ls :=
  fun c h => ⟨c.advance, rfl, h.advance⟩

theorem takes_accept {l : Lexeme} {k : Kind} (hl : l.kind = k) :
    Takes (Parser.accept k) (l :: ls) true ls :=
  fun c h => ⟨c.advance, by rw [Parser.accept, if_pos (by rw [h.kindAt_eq]; exact hl)], h.advance⟩

theorem takes_accept_false {k : Kind} (hl : kindAt ls 0 ≠ k) :
    Takes (Parser.accept k) ls false ls :=
  fun c h => ⟨c, by rw [Parser.accept, if_neg (by rw [h.kindAt_eq]; exact hl)], h⟩

theorem takes_expect {l : Lexeme} {k : Kind} (hl : l.kind = k) :
    Takes (Parser.expect k) (l :: ls) () ls :=
  fun c h => ⟨c.advance, by rw [Parser.expect, if_pos (by rw [h.kindAt_eq]; exact hl)], h.advance⟩

theorem Reads.after?_some {l : Lexeme} {k : Kind} (hl : l.kind = k)
    (hp : Reads s a p ls v us) : Reads s a (Parser.after? k p) (l :: ls) (some v) us :=
  (takes_accept hl).then (hp.map some)

theorem takes_after?_none {k : Kind} (hl : kindAt ls 0 ≠ k) :
    Takes (Parser.after? k p) ls none ls :=
  (takes_accept_false hl).bind .pure

/-- What is left behind some tokens that a scan passes. -/
theorem takes_scan {f : List Token → α × List Token}
    (h : ∀ ts, List.Forall₂ Lexeme.Describes ls ts →
      (f ts).1 = v ∧ List.Forall₂ Lexeme.Describes us (f ts).2) :
    Takes (fun c => .ok ((f c.rest).1, { c with rest := (f c.rest).2 })) ls v us := by
  intro c hc
  obtain ⟨hv, hus⟩ := h c.rest hc.rest
  exact ⟨{ c with rest := (f c.rest).2 }, by rw [← hv], ⟨hus, hc.eof⟩⟩

theorem takes_skip {f : List Token → List Token}
    (h : ∀ ts, List.Forall₂ Lexeme.Describes ls ts → List.Forall₂ Lexeme.Describes us (f ts)) :
    Takes (Parser.skip f) ls () us :=
  fun c hc => ⟨{ c with rest := f c.rest }, rfl, ⟨h c.rest hc.rest, hc.eof⟩⟩

/-! ## Parsers that are stuck -/

theorem Stuck.pure : Stuck (pure v : Parser α) := by
  intro c hc w c' h
  obtain ⟨-, rfl⟩ := Prod.mk.inj (Except.ok.inj h)
  exact hc

theorem Stuck.bind (hp : Stuck p) (hf : ∀ v, Stuck (f v)) : Stuck (p >>= f) := by
  intro c hc w c' h
  rw [Parser.bind_apply] at h
  cases hv : p c with
  | error e => rw [hv] at h; simp at h
  | ok r =>
    rw [hv] at h
    exact hf _ _ (hp c hc _ _ hv) w c' h

theorem Stuck.map (g : α → β) (hp : Stuck p) : Stuck (g <$> p) := by
  rw [map_eq_pure_bind]
  exact hp.bind fun _ => .pure

theorem Stuck.fail (cause : Cause) : Stuck (Parser.fail cause : Parser α) := by
  intro c hc w c' h
  simp [Parser.fail] at h

theorem Stuck.expect {k : Kind} (hk : k ≠ .keyword .extendsKw) {f : Unit → Parser β} :
    Stuck (Parser.expect k >>= f) := by
  intro c hc w c' h
  rw [Parser.bind_apply, Parser.expect, hc, if_neg hk.symm] at h
  simp at h

theorem Stuck.accept {k : Kind} (hk : k ≠ .keyword .extendsKw) {f : Bool → Parser β}
    (hf : Stuck (f false)) : Stuck (Parser.accept k >>= f) := by
  intro c hc w c' h
  rw [Parser.bind_apply, Parser.accept, hc, if_neg hk.symm] at h
  exact hf c hc w c' h

theorem Stuck.after? {k : Kind} (hk : k ≠ .keyword .extendsKw) {f : Option α → Parser β}
    (hf : Stuck (f none)) : Stuck (Parser.after? k p >>= f) := by
  intro c hc w c' h
  rw [Parser.bind_apply, Parser.after?, Parser.bind_apply, Parser.accept, hc, if_neg hk.symm] at h
  exact hf c hc w c' h

theorem Stuck.peek {f : Kind → Parser β} (hf : Stuck (f (.keyword .extendsKw))) :
    Stuck (Parser.peek >>= f) := by
  intro c hc w c' h
  rw [Parser.bind_apply, Parser.peek, Parser.peekAt, hc] at h
  exact hf c hc w c' h

/-! ## Loops -/

/-- The first lexeme of a list has a kind with the property. -/
def StartsWith (P : Kind → Prop) (ls : List Lexeme) : Prop :=
  ∃ l r, ls = l :: r ∧ P l.kind

namespace StartsWith

variable {P Q : Kind → Prop}

theorem ne_nil (h : StartsWith P ls) : ls ≠ [] := by
  obtain ⟨l, r, rfl, -⟩ := h
  simp

theorem imp (h : StartsWith P ls) (hpq : ∀ k, P k → Q k) : StartsWith Q ls := by
  obtain ⟨l, r, rfl, hl⟩ := h
  exact ⟨l, r, rfl, hpq _ hl⟩

theorem append (h : StartsWith P ls) (ms : List Lexeme) : StartsWith P (ls ++ ms) := by
  obtain ⟨l, r, rfl, hl⟩ := h
  exact ⟨l, r ++ ms, rfl, hl⟩

/-- Documentation does not change what stands first. -/
theorem documented (h : StartsWith P ls) (d : Option String) :
    StartsWith P (Ambient.documented d ls) := by
  obtain ⟨l, r, rfl, hl⟩ := h
  exact ⟨{ l with doc := d }, r, rfl, hl⟩

end StartsWith

section Loops

variable {γ : Type} {xs : List γ} {lex : γ → List Lexeme} {val : γ → α} {ok : γ → Bool}
variable {F : Kind → Prop} {n : Nat}

/-- **Elements with commas between them are read one by one.** -/
theorem Reads.commaList {close : Kind} (hcomma : F .comma) (hclose : F close)
    (hne : close ≠ .comma) (hu : kindAt us 0 = close) (hn : xs.length < n)
    (hx : ∀ x ∈ xs, StartsWith (fun k => k ≠ close ∧ k ≠ .eof) (lex x))
    (he : ∀ x ∈ xs, ∀ us, F (kindAt us 0) → Reads s (ok x) p (lex x ++ us) (val x) us) :
    Reads s (xs.all ok) (Parser.commaList close p n) (separated .comma (xs.map lex) ++ us)
      (xs.map val) us := by
  induction xs generalizing n with
  | nil =>
    obtain ⟨m, rfl⟩ : ∃ m, n = m + 1 := ⟨n - 1, by omega⟩
    refine Takes.then takes_peek ?_
    rw [show kindAt (separated .comma ([].map lex) ++ us) 0 = close from hu, if_pos (.inl rfl)]
    exact Takes.pure.reads
  | cons x xs ih =>
    obtain ⟨m, rfl⟩ : ∃ m, n = m + 1 := ⟨n - 1, by omega⟩
    -- A refused element may end in front of the word `extends`. The list then ends there as well.
    have stop (v : α) : Stuck (Parser.accept (.symbol .comma) >>= fun b =>
        if b = true then Parser.commaList close p m >>= fun xs => Pure.pure (v :: xs)
        else Pure.pure [v]) := .accept (by simp) .pure
    obtain ⟨l, r, hl, hk⟩ := hx x List.mem_cons_self
    cases xs with
    | nil =>
      refine Takes.then takes_peek ?_
      rw [List.map_singleton, separated, List.all_cons, hl, List.cons_append, kindAt_cons_zero,
        if_neg (not_or.2 hk), ← List.cons_append, ← hl]
      refine (he x List.mem_cons_self us (by rw [hu]; exact hclose)).bind ?_ fun _ => stop
      exact Takes.reads ((takes_accept_false (by rw [hu]; exact hne)).bind .pure)
    | cons y xs =>
      have ih' := ih (n := m) (by simpa using hn) (fun z hz => hx z (List.mem_cons_of_mem x hz))
        fun z hz => he z (List.mem_cons_of_mem x hz)
      refine Takes.then takes_peek ?_
      rw [List.map_cons, List.map_cons, separated, List.all_cons, List.append_assoc,
        List.append_assoc, hl, List.cons_append, kindAt_cons_zero, if_neg (not_or.2 hk),
        ← List.cons_append, ← hl]
      refine (he x List.mem_cons_self _ (by exact hcomma)).bind ?_ fun _ => stop
      refine Takes.then (takes_accept rfl) ?_
      rw [if_pos rfl, ← Bool.and_true (List.all _ _)]
      exact Reads.bind ih' Takes.pure.reads fun _ _ => .pure

/-- Elements with another separator between them are read one by one. -/
theorem Reads.sepBy1 {sep : Symbol} (hsep : F (.symbol sep)) (hend : F (kindAt us 0))
    (hu : kindAt us 0 ≠ .symbol sep) (hn : xs.length ≤ n) (hxs : xs ≠ [])
    (he : ∀ x ∈ xs, ∀ us, F (kindAt us 0) → Reads s (ok x) p (lex x ++ us) (val x) us) :
    Reads s (xs.all ok) (Parser.sepBy1 (.symbol sep) p n) (separated sep (xs.map lex) ++ us)
      (xs.map val) us := by
  induction xs generalizing n with
  | nil => exact absurd rfl hxs
  | cons x xs ih =>
    obtain ⟨m, rfl⟩ : ∃ m, n = m + 1 := ⟨n - 1, by simp at hn; omega⟩
    have stop (v : α) : Stuck (Parser.accept (.symbol sep) >>= fun b =>
        if b = true then Parser.sepBy1 (.symbol sep) p m >>= fun xs => Pure.pure (v :: xs)
        else Pure.pure [v]) := .accept (by simp) .pure
    cases xs with
    | nil =>
      rw [List.map_singleton, separated, List.all_cons]
      refine (he x List.mem_cons_self us hend).bind ?_ fun _ => stop
      exact Takes.reads ((takes_accept_false hu).bind .pure)
    | cons y xs =>
      have ih' := ih (n := m) (by simpa using hn) (by simp)
        fun z hz => he z (List.mem_cons_of_mem x hz)
      rw [List.map_cons, List.map_cons, separated, List.all_cons, List.append_assoc,
        List.append_assoc]
      refine (he x List.mem_cons_self _ (by exact hsep)).bind ?_ fun _ => stop
      refine Takes.then (takes_accept rfl) ?_
      rw [if_pos rfl, ← Bool.and_true (List.all _ _)]
      exact Reads.bind ih' Takes.pure.reads fun _ _ => .pure

/-- A loop over items takes the lexemes in `count` rounds at most if `ok` says so, and fails
otherwise. -/
def Rounds (close : Kind) (item : Parser (Option α)) (count : Nat) (ok : Bool) (ls : List Lexeme)
    (vs : List α) (us : List Lexeme) : Prop :=
  ∀ n, count < n → Reads false ok (Parser.itemsUntil close item n) ls vs us

section Rounds

variable {item : Parser (Option α)} {close : Kind} {count : Nat} {vs : List α}

theorem Rounds.done (hu : kindAt us 0 = close) : Rounds close item 0 true us [] us := by
  intro n hn
  obtain ⟨m, rfl⟩ : ∃ m, n = m + 1 := ⟨n - 1, by omega⟩
  refine Takes.then takes_peek ?_
  rw [hu, if_pos (.inl rfl)]
  exact Takes.pure.reads

/-- One more round, which may give nothing. -/
theorem Rounds.round {x : Option α} (hls : kindAt ls 0 ≠ close ∧ kindAt ls 0 ≠ .eof)
    (hx : Reads false a item ls x ms) (h : Rounds close item count b ms vs us) :
    Rounds close item (count + 1) (a && b) ls (x.toList ++ vs) us := by
  intro n hn
  obtain ⟨m, rfl⟩ : ∃ m, n = m + 1 := ⟨n - 1, by omega⟩
  refine Takes.then takes_peek ?_
  rw [if_neg (not_or.2 hls), ← Bool.and_true b]
  exact hx.bind_false ((h m (by omega)).bind_false Takes.pure.reads)

/-- Items are read one by one, and then the rest of the loop. -/
theorem Rounds.items (hx : ∀ x ∈ xs, StartsWith (fun k => k ≠ close ∧ k ≠ .eof) (lex x))
    (he : ∀ x ∈ xs, ∀ us, Reads false (ok x) item (lex x ++ us) (some (val x)) us)
    (h : Rounds close item count b ms vs us) :
    Rounds close item (xs.length + count) (xs.all ok && b) (xs.flatMap lex ++ ms)
      (xs.map val ++ vs) us := by
  induction xs with
  | nil => simpa using h
  | cons x xs ih =>
    have ih' := ih (fun z hz => hx z (List.mem_cons_of_mem x hz))
      fun z hz => he z (List.mem_cons_of_mem x hz)
    obtain ⟨l, r, hl, hk⟩ := hx x List.mem_cons_self
    have hfirst : kindAt (lex x ++ (xs.flatMap lex ++ ms)) 0 = l.kind := by
      rw [hl, List.cons_append, kindAt_cons_zero]
    rw [List.length_cons, List.all_cons, List.flatMap_cons, List.append_assoc, Bool.and_assoc,
      Nat.add_right_comm]
    exact Rounds.round (by rwa [hfirst]) (he x List.mem_cons_self _) ih'

end Rounds

/-- Items up to a closing token are read one by one. -/
theorem Reads.itemsUntil {item : Parser (Option α)} {close : Kind} (hu : kindAt us 0 = close)
    (hn : xs.length < n) (hx : ∀ x ∈ xs, StartsWith (fun k => k ≠ close ∧ k ≠ .eof) (lex x))
    (he : ∀ x ∈ xs, ∀ us, Reads false (ok x) item (lex x ++ us) (some (val x)) us) :
    Reads false (xs.all ok) (Parser.itemsUntil close item n) (xs.flatMap lex ++ us)
      (xs.map val) us := by
  have hrounds := Rounds.items hx he (Rounds.done hu) n hn
  rwa [Bool.and_true, List.append_nil] at hrounds

end Loops

end

end Ambient
