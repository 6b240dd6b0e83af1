import Ambient.Parser.Skip
import Ambient.Proofs.Tree.Like

/-!
# Two runs side by side

Two sources are twins when their tokens are the same one by one, except for the text of template
literals, and the texts that a tree can keep are related (`Twin`). A parser does the same on both
(`Twin.Agree`): it succeeds on both with results that are related and stands in front of the same
token then, or it fails on both at the same token, and never because a bound was reached.

Everything that is known of a single run comes from the same lemmas, for a source is its own twin
(`Twin.self`): each position that a parser reaches is the position of a token, no loop turns without
passing a token, and every bound above the number of tokens gives the same result.
-/

namespace Ambient

/-! ## Positions -/

/-- The cursor behind the first `i` tokens. -/
def Lexed.cursorAt (l : Lexed) (i : Nat) : Cursor :=
  ⟨l.tokens.drop i, l.eof⟩

/-- The tokens from one position to another. -/
def Lexed.between (l : Lexed) (i j : Nat) : List Token :=
  (l.tokens.drop i).take (j - i)

/-- The source from one token to another, as a tree keeps it. -/
def Lexed.written (l : Lexed) (i j : Nat) : String :=
  Parser.written (l.between i j).reverse

theorem Lexed.cursorAt_zero (l : Lexed) : l.cursorAt 0 = l.cursor :=
  rfl

theorem Lexed.advance_cursorAt (l : Lexed) (i : Nat) :
    (l.cursorAt i).advance = l.cursorAt (i + 1) := by
  rw [Cursor.advance, cursorAt, cursorAt, List.tail_drop]

theorem Lexed.cursorAt_of_length_le (l : Lexed) {i : Nat} (h : l.tokens.length ≤ i) :
    l.cursorAt i = l.cursorAt l.tokens.length := by
  rw [cursorAt, cursorAt, List.drop_of_length_le h, List.drop_length]

/-! ## Texts -/

/-- The tokens from one position to another are passed by the reader of initializers, behind an equals
sign, or by that of computed names or of binding patterns, from a bracket on. Nothing else keeps the
text of more than one token. -/
inductive Lexed.Keeps (l : Lexed) : Nat → Nat → Prop
  | initializer {i j : Nat} {s : String} (hequals : (l.cursorAt i).kindAt 0 = .eq)
    (h : Parser.expression (l.cursorAt (i + 1)) = .ok (s, l.cursorAt j)) : l.Keeps (i + 1) j
  | computedName {i j : Nat} {s : String} (hopen : (l.cursorAt i).kindAt 0 = .lbracket)
    (h : Parser.computedName (l.cursorAt i) = .ok (s, l.cursorAt j)) : l.Keeps i j
  | pattern {i j : Nat} {s : String}
    (hopen : (l.cursorAt i).kindAt 0 = .lbrace ∨ (l.cursorAt i).kindAt 0 = .lbracket)
    (h : Parser.pattern (l.cursorAt i) = .ok (s, l.cursorAt j)) : l.Keeps i j

/-! ## Tokens -/

/-- Kinds that differ in the text of a template literal only. -/
inductive Kind.Like (S : String → String → Prop) : Kind → Kind → Prop
  | same (k : Kind) : Kind.Like S k k
  | template {s t : String} (h : S s t) : Kind.Like S (.template s) (.template t)

/-- Causes that tell of kinds that differ in the text of a template literal only. -/
inductive Cause.Like (S : String → String → Prop) : Cause → Cause → Prop
  | same (c : Cause) : Cause.Like S c c
  | found (f : Kind → Cause) {s t : String} (h : S s t) :
    Cause.Like S (f (.template s)) (f (.template t))

theorem Cause.Like.eq {S : String → String → Prop} {c d : Cause} (h : c.Like S d)
    (hS : ∀ s t, S s t → s = t) : c = d := by
  cases h with
  | same _ => rfl
  | found f h => rw [hS _ _ h]

theorem Cause.Like.of_kind {S : String → String → Prop} {k m : Kind} (f : Kind → Cause)
    (h : k.Like S m) : (f k).Like S (f m) := by
  cases h with
  | same _ => exact .same _
  | template h => exact .found f h

/-- Tokens of two sources that correspond, neither of them the end of a source. -/
structure Token.Like (S : String → String → Prop) (t u : Token) : Prop where
  kind : t.kind.Like S u.kind
  doc : t.doc = u.doc
  ne_eof : t.kind ≠ .eof

/-- Two sources whose tokens correspond one by one. -/
structure Twin (S : String → String → Prop) (l m : Lexed) : Prop where
  joins : Joins S
  tokens : List.Forall₂ (Token.Like S) l.tokens m.tokens
  eof : l.eof.kind = .eof ∧ m.eof.kind = .eof
  doc : l.eof.doc = m.eof.doc
  written {i j : Nat} (h : l.Keeps i j) (hij : i ≤ j) (hj : j ≤ l.tokens.length) :
    S (l.written i j) (m.written i j)

/-- Texts of template literals that stand in the same place of two sources. -/
def Lexed.Templates (l m : Lexed) (s t : String) : Prop :=
  ∃ i n, (l.cursorAt i).kindAt n = .template s ∧ (m.cursorAt i).kindAt n = .template t

/-- Sources with the same kinds of tokens have the same template literals. -/
theorem Lexed.Templates.eq {l m : Lexed} {s t : String} (h : l.Templates m s t)
    (hkind : ∀ i n, (l.cursorAt i).kindAt n = (m.cursorAt i).kindAt n) : s = t := by
  obtain ⟨i, n, hs, ht⟩ := h
  rw [← hkind, hs] at ht
  exact Kind.template.inj ht

/-- A source is its own twin. -/
theorem Twin.self {l : Lexed} (ht : ∀ t ∈ l.tokens, t.kind ≠ .eof) (he : l.eof.kind = .eof) :
    Twin (· = ·) l l where
  joins := joins_eq
  tokens := List.forall₂_same.2 fun t h => ⟨.same _, rfl, ht t h⟩
  eof := ⟨he, he⟩
  doc := rfl
  written _ _ _ := rfl

/-- Kinds that reserved words and symbols have. -/
def Kind.isFixed : Kind → Bool
  | .keyword _ | .symbol _ => true
  | _ => false

variable {S : String → String → Prop} {l m : Lexed}

theorem Kind.Like.eq_iff {k k' x : Kind} (h : k.Like S k') (hx : ∀ s, x ≠ .template s) :
    k = x ↔ k' = x := by
  cases h with
  | same _ => exact Iff.rfl
  | template _ =>
    constructor
    · intro h
      exact absurd h.symm (hx _)
    · intro h
      exact absurd h.symm (hx _)

namespace Twin

variable (tw : Twin S l m)
include tw

theorem length_eq : l.tokens.length = m.tokens.length :=
  tw.tokens.length_eq

theorem drop (i : Nat) : List.Forall₂ (Token.Like S) (l.tokens.drop i) (m.tokens.drop i) :=
  List.forall₂_drop i tw.tokens

theorem kindAt_like (i n : Nat) : ((l.cursorAt i).kindAt n).Like S ((m.cursorAt i).kindAt n) := by
  have h (ts us : List Token) (hts : List.Forall₂ (Token.Like S) ts us) (n : Nat) :
      (ts.getD n l.eof).kind.Like S (us.getD n m.eof).kind := by
    induction hts generalizing n with
    | nil =>
      rw [List.getD_nil, List.getD_nil, tw.eof.1, tw.eof.2]
      exact .same _
    | cons ht _ ih =>
      cases n with
      | zero => exact ht.kind
      | succ n => exact ih n
  exact h _ _ (tw.drop i) n

/-- Kinds in the same place differ in the texts of template literals there only. -/
theorem kindAt (i n : Nat) :
    ((l.cursorAt i).kindAt n).Like (l.Templates m) ((m.cursorAt i).kindAt n) := by
  have h := tw.kindAt_like i n
  generalize hk : (l.cursorAt i).kindAt n = k at h
  generalize hk' : (m.cursorAt i).kindAt n = k' at h
  cases h with
  | same _ => exact .same _
  | template _ => exact .template ⟨i, n, hk, hk'⟩

theorem template {s t : String} (h : l.Templates m s t) : S s t := by
  obtain ⟨i, n, hs, ht⟩ := h
  have h := tw.kindAt_like i n
  rw [hs, ht] at h
  cases h with
  | same _ => exact tw.joins.refl s
  | template h => exact h

theorem doc_current (i : Nat) : (l.cursorAt i).current.doc = (m.cursorAt i).current.doc := by
  have h := tw.drop i
  simp only [Cursor.current, Lexed.cursorAt]
  generalize l.tokens.drop i = ts at h ⊢
  generalize m.tokens.drop i = us at h ⊢
  cases h with
  | nil => exact tw.doc
  | cons ht _ => exact ht.doc

/-- The end of the source stands behind the last token only. -/
theorem lt_of_kindAt_ne {i : Nat} (h : (l.cursorAt i).kindAt 0 ≠ .eof) : i < l.tokens.length := by
  by_contra hi
  apply h
  rw [Cursor.kindAt, Lexed.cursorAt, List.drop_of_length_le (Nat.le_of_not_lt hi), List.getD_nil]
  exact tw.eof.1

end Twin

/-! ## Runs -/

/-- How two runs end: with related results in front of the same token, which is not one of the
first `n`, or with an error at the same token. -/
inductive Ends (S : String → String → Prop) (l m : Lexed) (n : Nat) {α β : Type}
    (R : α → β → Prop) : Except ParseError (α × Cursor) → Except ParseError (β × Cursor) → Prop
  | ok {a : α} {b : β} {j : Nat} (hn : n ≤ j) (hj : j ≤ l.tokens.length) (h : R a b) :
    Ends S l m n R (.ok (a, l.cursorAt j)) (.ok (b, m.cursorAt j))
  | error {c d : Cause} {k : Nat} (hk : k ≤ l.tokens.length) (h : c.Like (l.Templates m) d)
    (hc : c ≠ .exhausted) (hd : d ≠ .exhausted) :
    Ends S l m n R (.error ⟨c, (l.cursorAt k).current.start⟩)
      (.error ⟨d, (m.cursorAt k).current.start⟩)

/-- From the position `i`, two parsers do the same on two sources, and pass the first `n` tokens
when they succeed. -/
def Twin.Agree (_ : Twin S l m) (i n : Nat) {α β : Type} (p : Parser α) (q : Parser β)
    (R : α → β → Prop) : Prop :=
  i ≤ l.tokens.length → Ends S l m n R (p (l.cursorAt i)) (q (m.cursorAt i))

section Agree

variable {tw : Twin S l m} {i j n : Nat} {α β γ δ : Type} {p p' : Parser α} {q q' : Parser β}
  {R R' : α → β → Prop} {f : α → Parser γ} {g : β → Parser δ} {Q : γ → δ → Prop}

theorem Twin.Agree.mono (h : tw.Agree i n p q R) (hj : j ≤ n) (hR : ∀ a b, R a b → R' a b) :
    tw.Agree i j p q R' := by
  intro hi
  have h := h hi
  generalize p (l.cursorAt i) = x at h ⊢
  generalize q (m.cursorAt i) = y at h ⊢
  cases h with
  | ok hn hk hab => exact .ok (Nat.le_trans hj hn) hk (hR _ _ hab)
  | error hk hc h₁ h₂ => exact .error hk hc h₁ h₂

theorem Twin.Agree.weaken (h : tw.Agree i n p q R) (hj : j ≤ n) : tw.Agree i j p q R :=
  h.mono hj fun _ _ h => h

theorem Twin.Agree.pure {a : α} {b : β} (h : R a b) (hn : n ≤ i) :
    tw.Agree i n (pure a : Parser α) (pure b : Parser β) R :=
  fun hi => .ok hn hi h

/-- Runs one after the other. -/
theorem Twin.Agree.bind (hp : tw.Agree i j p q R)
    (hf : ∀ a b k, j ≤ k → R a b → tw.Agree k n (f a) (g b) Q) :
    tw.Agree i n (p >>= f) (q >>= g) Q := by
  intro hi
  have h := hp hi
  show Ends S l m n Q (p (l.cursorAt i) >>= fun r => f r.1 r.2)
    (q (m.cursorAt i) >>= fun r => g r.1 r.2)
  generalize p (l.cursorAt i) = x at h
  generalize q (m.cursorAt i) = y at h
  cases h with
  | ok hn hj hab => exact hf _ _ _ hn hab hj
  | error hk hc h₁ h₂ => exact .error hk hc h₁ h₂

/-- Runs whose results do not matter, one after the other. -/
theorem Twin.Agree.then {p q : Parser Unit} {p' : Parser γ} {q' : Parser δ}
    {U : Unit → Unit → Prop} (hp : tw.Agree i j p q U)
    (hf : ∀ k, j ≤ k → tw.Agree k n p' q' Q) :
    tw.Agree i n (p >>= fun _ => p') (q >>= fun _ => q') Q :=
  hp.bind fun _ _ k hk _ => hf k hk

theorem Twin.Agree.map {u : α → γ} {v : β → δ} (hp : tw.Agree i n p q R)
    (h : ∀ a b, R a b → Q (u a) (v b)) : tw.Agree i n (u <$> p) (v <$> q) Q := by
  rw [map_eq_pure_bind, map_eq_pure_bind]
  exact hp.bind fun a b k hk hab => .pure (h a b hab) hk

/-! ## One token -/

theorem Twin.Agree.fail {c d : Cause} (h : c.Like (l.Templates m) d) (hc : c ≠ .exhausted)
    (hd : d ≠ .exhausted) :
    tw.Agree i n (Parser.fail c : Parser α) (Parser.fail d : Parser β) R :=
  fun hi => .error hi h hc hd

/-- What is done depending on the kind of a token. The text of a template literal may have no
influence. -/
theorem Twin.Agree.peekAt {f : Kind → Parser γ} {g : Kind → Parser δ} (d : Nat)
    (hg : ∀ s t, g (.template s) = g (.template t))
    (h : ∀ k, (l.cursorAt i).kindAt d = k → tw.Agree i n (f k) (g k) Q) :
    tw.Agree i n (Parser.peekAt d >>= f) (Parser.peekAt d >>= g) Q := by
  intro hi
  have hk := tw.kindAt i d
  show Ends S l m n Q (f _ _) (g _ _)
  have hfg : g ((m.cursorAt i).kindAt d) = g ((l.cursorAt i).kindAt d) := by
    generalize (l.cursorAt i).kindAt d = k at hk
    generalize (m.cursorAt i).kindAt d = k' at hk
    cases hk with
    | same _ => rfl
    | template _ => exact hg _ _
  rw [hfg]
  exact h _ rfl hi

theorem Twin.Agree.peek {f : Kind → Parser γ} {g : Kind → Parser δ}
    (hg : ∀ s t, g (.template s) = g (.template t))
    (h : ∀ k, (l.cursorAt i).kindAt 0 = k → tw.Agree i n (f k) (g k) Q) :
    tw.Agree i n (Parser.peek >>= f) (Parser.peek >>= g) Q :=
  .peekAt 0 hg h

/-- What is done depending on the kind of a token, with the text of a template literal. -/
theorem Twin.Agree.peekAt_like {f : Kind → Parser γ} {g : Kind → Parser δ} (d : Nat)
    (h : ∀ k k', k.Like (l.Templates m) k' → tw.Agree i n (f k) (g k') Q) :
    tw.Agree i n (Parser.peekAt d >>= f) (Parser.peekAt d >>= g) Q :=
  fun hi => h _ _ (tw.kindAt i d) hi

/-- The same for the next token. -/
theorem Twin.Agree.peek_like {f : Kind → Parser γ} {g : Kind → Parser δ}
    (h : ∀ k k', (l.cursorAt i).kindAt 0 = k → k.Like (l.Templates m) k' →
      (k ≠ .eof → i < l.tokens.length) → tw.Agree i n (f k) (g k') Q) :
    tw.Agree i n (Parser.peek >>= f) (Parser.peek >>= g) Q :=
  fun hi => h _ _ rfl (tw.kindAt i 0) tw.lt_of_kindAt_ne hi

theorem Twin.Agree.peekDoc {f : Option String → Parser γ} {g : Option String → Parser δ}
    (h : ∀ d, tw.Agree i n (f d) (g d) Q) :
    tw.Agree i n (Parser.peekDoc >>= f) (Parser.peekDoc >>= g) Q := by
  intro hi
  show Ends S l m n Q (f _ _) (g _ _)
  rw [← tw.doc_current i]
  exact h _ hi

variable (tw) in
/-- The next token is passed, unless it is the end of the source. -/
theorem Twin.agree_advance (i : Nat) :
    tw.Agree i (min (i + 1) l.tokens.length) Parser.advance Parser.advance fun _ _ => True := by
  intro hi
  show Ends S l m _ _ (.ok ((), (l.cursorAt i).advance)) (.ok ((), (m.cursorAt i).advance))
  rw [l.advance_cursorAt, m.advance_cursorAt]
  by_cases h : i < l.tokens.length
  · exact .ok (Nat.min_le_left _ _) h trivial
  · have hl : l.tokens.length ≤ i + 1 := by omega
    rw [l.cursorAt_of_length_le hl, m.cursorAt_of_length_le (tw.length_eq ▸ hl), ← tw.length_eq]
    exact .ok (Nat.min_le_right _ _) (Nat.le_refl _) trivial

theorem Twin.Agree.advance {p' : Parser γ} {q' : Parser δ} (hi : i < l.tokens.length)
    (h : ∀ k, i + 1 ≤ k → tw.Agree k n p' q' Q) :
    tw.Agree i n (Parser.advance >>= fun _ => p') (Parser.advance >>= fun _ => q') Q :=
  (tw.agree_advance i).then fun k hk => h k (by omega)

/-- A token of a fixed kind is passed if it stands next. -/
theorem Twin.Agree.acceptAt {f : Bool → Parser γ} {g : Bool → Parser δ} {k : Kind}
    (hk : k.isFixed = true)
    (ht : (l.cursorAt i).kindAt 0 = k → tw.Agree (i + 1) n (f true) (g true) Q)
    (hf : (l.cursorAt i).kindAt 0 ≠ k → tw.Agree i n (f false) (g false) Q) :
    tw.Agree i n (Parser.accept k >>= f) (Parser.accept k >>= g) Q := by
  intro hi
  have hkind := (tw.kindAt i 0).eq_iff (x := k) (by rintro s rfl; cases hk)
  show Ends S l m n Q (Parser.accept k _ >>= fun r => f r.1 r.2)
    (Parser.accept k _ >>= fun r => g r.1 r.2)
  rw [Parser.accept, Parser.accept]
  by_cases h : (l.cursorAt i).kindAt 0 = k
  · rw [if_pos h, if_pos (hkind.1 h), l.advance_cursorAt, m.advance_cursorAt]
    refine ht h (tw.lt_of_kindAt_ne ?_)
    rw [h]
    rintro rfl
    cases hk
  · rw [if_neg h, if_neg (mt hkind.2 h)]
    exact hf h hi

/-- The same where only the order of the positions matters. -/
theorem Twin.Agree.accept {f : Bool → Parser γ} {g : Bool → Parser δ} {k : Kind}
    (hk : k.isFixed = true) (ht : ∀ j, i + 1 ≤ j → tw.Agree j n (f true) (g true) Q)
    (hf : (l.cursorAt i).kindAt 0 ≠ k → tw.Agree i n (f false) (g false) Q) :
    tw.Agree i n (Parser.accept k >>= f) (Parser.accept k >>= g) Q :=
  .acceptAt hk (fun _ => ht _ (Nat.le_refl _)) hf

variable (tw) in
/-- A token of a fixed kind that may stand next. -/
theorem Twin.agree_accept (i : Nat) {k : Kind} (hk : k.isFixed = true) :
    tw.Agree i i (Parser.accept k) (Parser.accept k) (· = ·) := by
  have h : tw.Agree i i (Parser.accept k >>= Pure.pure) (Parser.accept k >>= Pure.pure) (· = ·) :=
    .accept hk (fun _ hj => .pure rfl (by omega)) fun _ => .pure rfl (Nat.le_refl _)
  rwa [bind_pure] at h

variable (tw) in
/-- A token of a fixed kind that has to stand next. -/
theorem Twin.agree_expect (i : Nat) {k : Kind} (hk : k.isFixed = true) :
    tw.Agree i (i + 1) (Parser.expect k) (Parser.expect k) fun _ _ => True := by
  intro hi
  have hkind := tw.kindAt i 0
  have hiff := hkind.eq_iff (x := k) (by rintro s rfl; cases hk)
  rw [Parser.expect, Parser.expect]
  by_cases h : (l.cursorAt i).kindAt 0 = k
  · rw [if_pos h, if_pos (hiff.1 h), l.advance_cursorAt, m.advance_cursorAt]
    refine .ok (Nat.le_refl _) (tw.lt_of_kindAt_ne ?_) trivial
    rw [h]
    rintro rfl
    cases hk
  · rw [if_neg h, if_neg (mt hiff.2 h)]
    exact .error hi (.of_kind _ hkind) (by simp) (by simp)

theorem Twin.Agree.expect {p' : Parser γ} {q' : Parser δ} {k : Kind} (hk : k.isFixed = true)
    (h : ∀ j, i + 1 ≤ j → tw.Agree j n p' q' Q) :
    tw.Agree i n (Parser.expect k >>= fun _ => p') (Parser.expect k >>= fun _ => q') Q :=
  (tw.agree_expect i hk).then h

/-- Something behind a token of a fixed kind that may stand next. -/
theorem Twin.Agree.after? {k : Kind} (hk : k.isFixed = true)
    (h : ∀ j, i + 1 ≤ j → tw.Agree j j p q R) :
    tw.Agree i i (Parser.after? k p) (Parser.after? k q) (Option.Rel R) := by
  refine .accept hk (fun j hj => ?_) fun _ => .pure .none (Nat.le_refl _)
  exact ((h j hj).map fun a b hab => Option.Rel.some hab).weaken (by omega)

/-! ## Loops -/

theorem forall₂_toList {a : Option α} {b : Option β} (h : Option.Rel R a b) :
    List.Forall₂ R a.toList b.toList := by
  cases h with
  | none => exact .nil
  | some h => exact .cons h .nil

/-- Items up to a closing token. Each of them passes a token. -/
theorem Twin.Agree.itemsUntil {close : Kind} {item : Parser (Option α)} {item' : Parser (Option β)}
    (hclose : ∀ s, close ≠ .template s)
    (h : ∀ j, i ≤ j → j < l.tokens.length → tw.Agree j (j + 1) item item' (Option.Rel R))
    {b b' : Nat} (hb : l.tokens.length < b + i) (hb' : l.tokens.length < b' + i) :
    tw.Agree i i (Parser.itemsUntil close item b) (Parser.itemsUntil close item' b')
      (List.Forall₂ R) := by
  -- the bounds stay above the number of tokens that are left
  induction b generalizing i b' with
  | zero => exact fun hi => absurd hb (by omega)
  | succ b ih =>
    cases b' with
    | zero => exact fun hi => absurd hb' (by omega)
    | succ b' =>
      refine .peek_like fun k k' _ hk hlt => ?_
      have hstop : (k = close ∨ k = .eof) ↔ (k' = close ∨ k' = .eof) :=
        or_congr (hk.eq_iff hclose) (hk.eq_iff (by simp))
      by_cases hc : k = close ∨ k = .eof
      · rw [if_pos hc, if_pos (hstop.1 hc)]
        exact .pure .nil (Nat.le_refl _)
      · rw [if_neg hc, if_neg (mt hstop.2 hc)]
        have hi : i < l.tokens.length := hlt fun he => hc (.inr he)
        refine (h i (Nat.le_refl _) hi).bind fun x y j hj hxy => ?_
        refine Twin.Agree.weaken ?_ (show i ≤ j by omega)
        refine (ih (fun k hk => h k (by omega)) (by omega) (by omega)).bind fun xs ys k hk hxs => ?_
        exact .pure (List.rel_append (forall₂_toList hxy) hxs) hk

/-- Elements with commas between them up to a closing token. -/
theorem Twin.Agree.commaList {close : Kind} {element : Parser α} {element' : Parser β}
    (hclose : ∀ s, close ≠ .template s)
    (h : ∀ j, i ≤ j → tw.Agree j j element element' R)
    {b b' : Nat} (hb : l.tokens.length < b + i) (hb' : l.tokens.length < b' + i) :
    tw.Agree i i (Parser.commaList close element b) (Parser.commaList close element' b')
      (List.Forall₂ R) := by
  induction b generalizing i b' with
  | zero => exact fun hi => absurd hb (by omega)
  | succ b ih =>
    cases b' with
    | zero => exact fun hi => absurd hb' (by omega)
    | succ b' =>
      refine .peek_like fun k k' _ hk hlt => ?_
      have hstop : (k = close ∨ k = .eof) ↔ (k' = close ∨ k' = .eof) :=
        or_congr (hk.eq_iff hclose) (hk.eq_iff (by simp))
      by_cases hc : k = close ∨ k = .eof
      · rw [if_pos hc, if_pos (hstop.1 hc)]
        exact .pure .nil (Nat.le_refl _)
      · rw [if_neg hc, if_neg (mt hstop.2 hc)]
        refine (h i (Nat.le_refl _)).bind fun x y j hj hxy => ?_
        refine .accept rfl (fun k hk => ?_) fun _ => .pure (.cons hxy .nil) hj
        -- the comma is the token that this round has passed
        have hrest := ih (i := k) (fun k' hk' => h k' (by omega)) (by omega)
          (show l.tokens.length < b' + k by omega)
        exact hrest.bind fun xs ys k' hk' hxs => .pure (.cons hxy hxs) (by omega)

/-- One element or more with a separator between neighbours. -/
theorem Twin.Agree.sepBy1 {sep : Kind} {element : Parser α} {element' : Parser β}
    (hsep : sep.isFixed = true) (h : ∀ j, i ≤ j → tw.Agree j (j + 1) element element' R)
    {b b' : Nat} (hb : l.tokens.length < b + i) (hb' : l.tokens.length < b' + i) :
    tw.Agree i (i + 1) (Parser.sepBy1 sep element b) (Parser.sepBy1 sep element' b')
      (List.Forall₂ R) := by
  induction b generalizing i b' with
  | zero => exact fun hi => absurd hb (by omega)
  | succ b ih =>
    cases b' with
    | zero => exact fun hi => absurd hb' (by omega)
    | succ b' =>
      refine (h i (Nat.le_refl _)).bind fun x y j hj hxy => ?_
      refine .accept hsep (fun k hk => ?_) fun _ => .pure (.cons hxy .nil) hj
      have hrest := ih (i := k) (fun k' hk' => h k' (by omega)) (by omega)
        (show l.tokens.length < b' + k by omega)
      exact hrest.bind fun xs ys k' hk' hxs => .pure (.cons hxy hxs) (by omega)

end Agree

end Ambient
