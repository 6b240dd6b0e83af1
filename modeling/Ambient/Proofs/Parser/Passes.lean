import Ambient.Parser.Ty
import Ambient.Proofs.Token.Alone

/-!
# What a parser passes

`Passes c p Q` says of a parser that stands at the cursor `c` what it passes when it succeeds: the
tokens between `c` and the cursor behind, whose kinds are related by `Q` to the result. The relation
holds of tokens as they are in types without functions and objects (`Plain`), which leaves open what
else a token can mean. `Forward p` says only that tokens are passed, one after the other.

There is one lemma for each way in which parsers are put together. Where parsers stand one behind
the other, the relation of the whole is handed on, to be shown at the end for all parts at once
(`Passes.bind`).
-/

namespace Ambient

/-! ## Plain tokens -/

/-- Whether the tokens are those of a mapped type, behind the brace and the sign of the word
`readonly`. -/
def startsKey : List Kind → Bool
  | .keyword .readonlyKw :: .symbol .lbracket :: k :: .keyword .inKw :: _ => k.isWord
  | .symbol .lbracket :: k :: .keyword .inKw :: _ => k.isWord
  | _ => false

/-- Whether the tokens behind an opening brace are those of a mapped type. -/
def startsMapped : List Kind → Bool
  | .symbol .plus :: ks => startsKey ks
  | .symbol .minus :: ks => startsKey ks
  | ks => startsKey ks

theorem startsMapped_iff {ks : List Kind} : startsMapped ks = true ↔
    ∃ sign readonly k ls, (sign = [] ∨ sign = [.symbol .plus] ∨ sign = [.symbol .minus]) ∧
      (readonly = [] ∨ readonly = [.keyword .readonlyKw]) ∧ k.isWord = true ∧
      ks = sign ++ (readonly ++ .lbracket :: k :: .keyword .inKw :: ls) := by
  have hkey {ks : List Kind} (h : startsKey ks = true) : ∃ readonly k ls,
      (readonly = [] ∨ readonly = [.keyword .readonlyKw]) ∧ k.isWord = true ∧
      ks = readonly ++ .lbracket :: k :: .keyword .inKw :: ls := by
    unfold startsKey at h
    split at h
    · exact ⟨[_], _, _, .inr rfl, h, rfl⟩
    · exact ⟨[], _, _, .inl rfl, h, rfl⟩
    · cases h
  constructor
  · intro h
    unfold startsMapped at h
    split at h
    · obtain ⟨readonly, k, ls, hr, hk, rfl⟩ := hkey h
      exact ⟨[_], readonly, k, ls, .inr (.inl rfl), hr, hk, rfl⟩
    · obtain ⟨readonly, k, ls, hr, hk, rfl⟩ := hkey h
      exact ⟨[_], readonly, k, ls, .inr (.inr rfl), hr, hk, rfl⟩
    · obtain ⟨readonly, k, ls, hr, hk, rfl⟩ := hkey h
      exact ⟨[], readonly, k, ls, .inl rfl, hr, hk, rfl⟩
  · rintro ⟨sign, readonly, k, ls, rfl | rfl | rfl, rfl | rfl, hk, rfl⟩ <;> exact hk

/-- A token that belongs to no function and no object, in front of others. -/
structure Kind.Plain (k : Kind) (behind : List Kind) : Prop where
  alone : k.Alone
  arrow : k ≠ .arrow
  brace : k = .lbrace → startsMapped behind = true

/-- Tokens that belong to no function and no object, in front of others. -/
def Plain : (ks behind : List Kind) → Prop
  | [], _ => True
  | k :: ks, behind => k.Plain (ks ++ behind) ∧ Plain ks behind

theorem plain_append {ks ls behind : List Kind} :
    Plain (ks ++ ls) behind ↔ Plain ks (ls ++ behind) ∧ Plain ls behind := by
  induction ks with
  | nil => simp [Plain]
  | cons k ks ih => simp [Plain, ih, and_assoc]

theorem Plain.alone {ks behind : List Kind} (h : Plain ks behind) : ∀ k ∈ ks, k.Alone := by
  induction ks with
  | nil => simp
  | cons k ks ih => exact List.forall_mem_cons.2 ⟨h.1.alone, ih h.2⟩

/-! ## Parsers -/

section

variable {α β : Type}

/-- The kinds of the tokens that are left. -/
def Cursor.kinds (c : Cursor) : List Kind :=
  c.rest.map Token.kind

@[simp] theorem Cursor.kindAt_advance (c : Cursor) (n : Nat) :
    c.advance.kindAt n = c.kindAt (n + 1) := by
  unfold advance kindAt
  cases c.rest <;> rfl

theorem Cursor.kindAt_eq {c : Cursor} (heof : c.eof.kind = .eof) (n : Nat) :
    c.kindAt n = c.kinds[n]?.getD .eof := by
  rw [kindAt, kinds, List.getElem?_map, List.getD_eq_getElem?_getD]
  cases c.rest[n]? with
  | none => exact heof
  | some t => rfl

/-- From the cursor, the parser passes tokens whose kinds belong to its result. -/
def Passes (c : Cursor) (p : Parser α) (Q : List Kind → α → Prop) : Prop :=
  c.eof.kind = .eof → ∀ v c', p c = .ok (v, c') → c'.eof = c.eof ∧
    ∃ ts, c.rest = ts ++ c'.rest ∧
      (Plain (ts.map Token.kind) c'.kinds → Q (ts.map Token.kind) v)

/-- The parser goes from token to token. -/
def Forward (p : Parser α) : Prop :=
  ∀ c, Passes c p fun _ _ => True

variable {c : Cursor} {p : Parser α} {f : α → Parser β} {Q Q' : List Kind → α → Prop}
  {R : List Kind → β → Prop} {k : Kind}

theorem Passes.mono (h : Passes c p Q) (hQ : ∀ ks v, Q ks v → Q' ks v) : Passes c p Q' := by
  intro heof v c' hp
  obtain ⟨hc', ts, hts, hQts⟩ := h heof v c' hp
  exact ⟨hc', ts, hts, fun hplain => hQ _ _ (hQts hplain)⟩

theorem Passes.pure {v : α} (h : Q [] v) : Passes c (pure v) Q := by
  rintro - _ _ ⟨⟩
  exact ⟨rfl, [], rfl, fun _ => h⟩

theorem Passes.fail {cause : Cause} : Passes c (Parser.fail cause : Parser α) Q := by
  rintro - _ _ ⟨⟩

theorem Parser.bind_eq_ok {r : β × Cursor} (h : (p >>= f) c = .ok r) :
    ∃ v c', p c = .ok (v, c') ∧ f v c' = .ok r := by
  change (p c).bind _ = _ at h
  cases hp : p c with
  | error e =>
    rw [hp] at h
    cases h
  | ok s =>
    rw [hp] at h
    exact ⟨s.1, s.2, rfl, h⟩

/-- What is passed by parsers that stand one behind the other. -/
theorem Passes.bind (hp : Passes c p Q)
    (hf : ∀ v c', Passes c' (f v) fun ls w => ∀ ks, Q ks v → R (ks ++ ls) w) :
    Passes c (p >>= f) R := by
  intro heof w c'' h
  obtain ⟨v, c', hv, h⟩ := Parser.bind_eq_ok h
  obtain ⟨hc', ts, hts, hQ⟩ := hp heof v c' hv
  obtain ⟨hc'', us, hus, hR⟩ := hf v c' (hc' ▸ heof) w c'' h
  refine ⟨hc''.trans hc', ts ++ us, by rw [hts, hus, List.append_assoc], fun hplain => ?_⟩
  rw [List.map_append, plain_append] at hplain
  obtain ⟨htsp, husp⟩ := hplain
  rw [List.map_append]
  refine hR husp _ (hQ ?_)
  rwa [Cursor.kinds, hus, List.map_append]

/-- What is passed if the result is changed behind. -/
theorem Passes.map {u : α → β} (hp : Passes c p fun ks v => R ks (u v)) : Passes c (u <$> p) R := by
  rw [map_eq_pure_bind]
  refine hp.bind fun v c' => .pure fun ks h => ?_
  rwa [List.append_nil]

theorem Passes.peekAt {f : Kind → Parser β} (n : Nat)
    (h : ∀ k, c.kindAt n = k → Passes c (f k) R) : Passes c (Parser.peekAt n >>= f) R :=
  h _ rfl

theorem Passes.peek {f : Kind → Parser β} (h : ∀ k, c.kindAt 0 = k → Passes c (f k) R) :
    Passes c (Parser.peek >>= f) R :=
  h _ rfl

/-- What is passed behind the next token. -/
theorem Passes.behind {p : Parser β} (hk : c.kindAt 0 = k) (hne : k ≠ .eof)
    (h : Passes c.advance p fun ks v => k.Plain c.advance.kinds → R (k :: ks) v) :
    Passes c (fun c => p c.advance) R := by
  intro heof v c' hp
  obtain ⟨rest, eof⟩ := c
  cases rest with
  | nil => exact absurd (hk.symm.trans heof) hne
  | cons t ts =>
    obtain rfl : t.kind = k := hk
    obtain ⟨hc', us, hus, hR⟩ := h heof v c' hp
    refine ⟨hc', t :: us, congrArg (t :: ·) hus, fun hplain => hR hplain.2 ?_⟩
    rw [Cursor.kinds, hus, List.map_append]
    exact hplain.1

theorem Passes.advance {p : Parser β} (hk : c.kindAt 0 = k) (hne : k ≠ .eof)
    (h : Passes c.advance p fun ks v => k.Plain c.advance.kinds → R (k :: ks) v) :
    Passes c (Parser.advance >>= fun _ => p) R :=
  .behind hk hne h

theorem Passes.accept {f : Bool → Parser β} (hne : k ≠ .eof)
    (ht : c.kindAt 0 = k → Passes c.advance (f true) fun ks v => R (k :: ks) v)
    (hf : c.kindAt 0 ≠ k → Passes c (f false) R) : Passes c (Parser.accept k >>= f) R := by
  by_cases hk : c.kindAt 0 = k
  · have h : Passes c (fun c => f true c.advance) R :=
      .behind hk hne ((ht hk).mono fun _ _ h _ => h)
    intro heof v c' hp
    refine h heof v c' ?_
    change (Parser.accept k c).bind _ = _ at hp
    rwa [Parser.accept, if_pos hk] at hp
  · intro heof v c' hp
    refine hf hk heof v c' ?_
    change (Parser.accept k c).bind _ = _ at hp
    rwa [Parser.accept, if_neg hk] at hp

/-- What is passed behind a token that has to stand next. -/
theorem Passes.expect {p : Parser β} (hne : k ≠ .eof)
    (h : c.kindAt 0 = k →
      Passes c.advance p fun ks v => k.Plain c.advance.kinds → R (k :: ks) v) :
    Passes c (Parser.expect k >>= fun _ => p) R := by
  intro heof v c' hp
  by_cases hk : c.kindAt 0 = k
  · refine Passes.behind hk hne (h hk) heof v c' ?_
    change (Parser.expect k c).bind _ = _ at hp
    rwa [Parser.expect, if_pos hk] at hp
  · change (Parser.expect k c).bind _ = _ at hp
    rw [Parser.expect, if_neg hk] at hp
    cases hp

theorem passes_accept (hne : k ≠ .eof) :
    Passes c (Parser.accept k) fun ks b => ks = if b then [k] else [] := by
  have h : Passes c (Parser.accept k >>= fun b => Pure.pure b)
      fun ks b => ks = if b then [k] else [] :=
    .accept hne (fun _ => .pure rfl) fun _ => .pure rfl
  rwa [bind_pure] at h

/-- What is passed behind a question that leaves the cursor where it is. -/
theorem Passes.ask {v : α} (hq : p c = .ok (v, c)) (h : Passes c (f v) R) :
    Passes c (p >>= f) R := by
  intro heof w c' hp
  refine h heof w c' ?_
  change (p c).bind _ = _ at hp
  rwa [hq] at hp

/-- What is passed by a scan over the tokens. -/
theorem Passes.scan {F : List Token → α × List Token}
    (h : ∃ ts, c.rest = ts ++ (F c.rest).2 ∧
      (Plain (ts.map Token.kind) ((F c.rest).2.map Token.kind) →
        Q (ts.map Token.kind) (F c.rest).1)) :
    Passes c (fun c => .ok ((F c.rest).1, { c with rest := (F c.rest).2 })) Q := by
  rintro - _ _ ⟨⟩
  exact ⟨rfl, h⟩

theorem passes_after? (hne : k ≠ .eof) (hp : ∀ c, Passes c p Q) :
    Passes c (Parser.after? k p) fun ks o =>
      ks = [] ∧ o = none ∨ ∃ ls v, ks = k :: ls ∧ o = some v ∧ Q ls v := by
  refine .accept hne (fun _ => ?_) fun _ => .pure (.inl ⟨rfl, rfl⟩)
  refine Passes.map ((hp _).mono fun ls v h => ?_)
  exact .inr ⟨ls, v, rfl, rfl, h⟩

/-! ## Lists -/

/-- Elements with commas between them, and possibly behind the last one. -/
inductive Listed (Q : List Kind → α → Prop) : List Kind → List α → Prop
  | nil : Listed Q [] []
  | last {ks : List Kind} {v : α} (h : Q ks v) : Listed Q ks [v]
  | cons {ks ls : List Kind} {v : α} {vs : List α} (h : Q ks v) (hs : Listed Q ls vs) :
    Listed Q (ks ++ .comma :: ls) (v :: vs)

/-- Elements with a separator between them. -/
inductive Chained (sep : Kind) (Q : List Kind → α → Prop) : List Kind → List α → Prop
  | last {ks : List Kind} {v : α} (h : Q ks v) : Chained sep Q ks [v]
  | cons {ks ls : List Kind} {v : α} {vs : List α} (h : Q ks v) (hs : Chained sep Q ls vs) :
    Chained sep Q (ks ++ sep :: ls) (v :: vs)

theorem passes_commaList {close : Kind} {element : Parser α} (h : ∀ c, Passes c element Q)
    (n : Nat) : Passes c (Parser.commaList close element n) (Listed Q) := by
  induction n generalizing c with
  | zero => exact .fail
  | succ n ih =>
    refine .peek fun k _ => ?_
    split
    · exact .pure .nil
    · refine (h c).bind fun v c' => .accept (by simp) (fun _ => ?_) fun _ => ?_
      · refine ih.bind fun vs c' => .pure fun ls hls ks hks => ?_
        rw [List.append_nil]
        exact .cons hks hls
      · refine .pure fun ks hks => ?_
        rw [List.append_nil]
        exact .last hks

theorem passes_sepBy1 {sep : Kind} {element : Parser α} (hsep : sep ≠ .eof)
    (h : ∀ c, Passes c element Q) (n : Nat) :
    Passes c (Parser.sepBy1 sep element n) (Chained sep Q) := by
  induction n generalizing c with
  | zero => exact .fail
  | succ n ih =>
    refine (h c).bind fun v c' => .accept hsep (fun _ => ?_) fun _ => ?_
    · refine ih.bind fun vs c' => .pure fun ls hls ks hks => ?_
      rw [List.append_nil]
      exact .cons hks hls
    · refine .pure fun ks hks => ?_
      rw [List.append_nil]
      exact .last hks

/-! ## Going forward -/

theorem Passes.forward (h : ∀ c, Passes c p Q) : Forward p :=
  fun c => (h c).mono fun _ _ _ => trivial

theorem Forward.pure (v : α) : Forward (Pure.pure v : Parser α) :=
  fun _ => .pure trivial

theorem Forward.fail (cause : Cause) : Forward (Parser.fail cause : Parser α) :=
  fun _ => .fail

theorem Forward.bind (hp : Forward p) (hf : ∀ v, Forward (f v)) : Forward (p >>= f) :=
  fun c => (hp c).bind fun v c' => (hf v c').mono fun _ _ _ _ _ => trivial

theorem Forward.map (u : α → β) (hp : Forward p) : Forward (u <$> p) :=
  fun c => (hp c).map

theorem Forward.peekAt {f : Kind → Parser β} (n : Nat) (h : ∀ k, Forward (f k)) :
    Forward (Parser.peekAt n >>= f) :=
  fun c => .peekAt n fun k _ => h k c

theorem Forward.peek {f : Kind → Parser β} (h : ∀ k, Forward (f k)) :
    Forward (Parser.peek >>= f) :=
  .peekAt 0 h

theorem Forward.peekDoc {f : Option String → Parser β} (h : ∀ d, Forward (f d)) :
    Forward (Parser.peekDoc >>= f) :=
  fun c => h _ c

theorem forward_skip {F : List Token → List Token} (h : ∀ ts, F ts <:+ ts) :
    Forward (Parser.skip F) := by
  intro c
  obtain ⟨ts, hts⟩ := h c.rest
  exact .scan (F := fun ts => ((), F ts)) ⟨ts, hts.symm, fun _ => trivial⟩

theorem forward_advance : Forward Parser.advance :=
  forward_skip List.tail_suffix

theorem forward_accept (k : Kind) : Forward (Parser.accept k) := by
  intro c heof v c' hp
  rw [Parser.accept] at hp
  split at hp
  · cases hp
    obtain ⟨ts, hts⟩ := List.tail_suffix c.rest
    exact ⟨rfl, ts, hts.symm, fun _ => trivial⟩
  · cases hp
    exact ⟨rfl, [], rfl, fun _ => trivial⟩

theorem expect_eq_ok_iff {c' : Cursor} :
    Parser.expect k c = .ok ((), c') ↔ c.kindAt 0 = k ∧ c' = c.advance := by
  rw [Parser.expect]
  split
  · next hk => simp [hk, eq_comm]
  · next hk => simp [hk]

theorem forward_expect (k : Kind) : Forward (Parser.expect k) := by
  intro c heof v c' hp
  obtain ⟨-, rfl⟩ := expect_eq_ok_iff.1 hp
  obtain ⟨ts, hts⟩ := List.tail_suffix c.rest
  exact ⟨rfl, ts, hts.symm, fun _ => trivial⟩

theorem forward_after? (k : Kind) (hp : Forward p) : Forward (Parser.after? k p) := by
  refine (forward_accept k).bind fun b => ?_
  split
  · exact hp.map some
  · exact .pure _

theorem forward_commaList (close : Kind) (h : Forward p) (n : Nat) :
    Forward (Parser.commaList close p n) :=
  fun _ => (passes_commaList h n).mono fun _ _ _ => trivial

/-- One round of a loop over items. -/
theorem itemsUntil_round {item : Parser (Option α)} {close : Kind} {n : Nat}
    (h : ¬(c.kindAt 0 = close ∨ c.kindAt 0 = .eof)) :
    Parser.itemsUntil close item (n + 1) c = (do
      let x ← item
      let xs ← Parser.itemsUntil close item n
      pure (x.toList ++ xs)) c := by
  show (if c.kindAt 0 = close ∨ c.kindAt 0 = .eof then _ else _ : Parser (List α)) c = _
  rw [if_neg h]

/-- A loop over items is over in front of the closing token. -/
theorem itemsUntil_done {item : Parser (Option α)} {close : Kind} {n : Nat}
    (h : c.kindAt 0 = close ∨ c.kindAt 0 = .eof) :
    Parser.itemsUntil close item (n + 1) c = .ok ([], c) := by
  show (if c.kindAt 0 = close ∨ c.kindAt 0 = .eof then _ else _ : Parser (List α)) c = _
  rw [if_pos h]
  rfl

theorem forward_itemsUntil {item : Parser (Option α)} (close : Kind) (h : Forward item) (n : Nat) :
    Forward (Parser.itemsUntil close item n) := by
  induction n with
  | zero => exact .fail _
  | succ n ih =>
    refine .peek fun k => ?_
    split
    · exact .pure _
    · exact h.bind fun x => ih.bind fun xs => .pure _

end

end Ambient
