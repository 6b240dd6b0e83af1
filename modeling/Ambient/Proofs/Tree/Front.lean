import Ambient.Proofs.Tree.Balance
import Ambient.Proofs.Tree.Spelling

/-!
# How types begin

The first lexeme of a legible type tells that a type starts there, and the one behind a first word
cannot be taken for what follows a name (`Ty.leads`). The readers that look ahead rest on this: a
type in parentheses is no parameter, an element of a tuple without a name is not taken for a named
one, and a type is not taken for a statement about an argument.
-/

namespace Ambient

namespace Kind

/-- Kinds that a type can start with. -/
def startsType : Kind → Bool
  | .ident _ | .string _ | .number _ | .template _ | .keyword _ => true
  | .symbol .minus | .symbol .lparen | .symbol .lbrace | .symbol .lbracket
  | .symbol .langle => true
  | _ => false

/-- Identifiers and the word `this` can be what a function tells about. -/
def isSubject (k : Kind) : Bool :=
  k.isIdent || k == .keyword .thisKw

/-- Kinds that can stand behind a name that starts a type and is not the whole type. -/
def followsName : Kind → Bool
  | .symbol .dot | .symbol .langle | .symbol .lbracket | .symbol .pipe | .symbol .amp
  | .keyword .extendsKw | .keyword .symbolKw => true
  | _ => false

/-- Kinds that can stand behind a word that starts a type and is not the whole type. -/
def followsWord (word k : Kind) : Bool :=
  k.followsName || (!word.isSubject && k.startsType)

theorem startsType_of_wordText? {k : Kind} {s : String} (h : k.wordText? = some s) :
    k.startsType = true := by
  cases k <;> simp [wordText?] at h <;> rfl

/-- What follows a word inside a type is not taken for what follows a name. -/
theorem followsWord_ne {w k : Kind} (h : followsWord w k = true) :
    k ≠ .colon ∧ k ≠ .question ∧ k ≠ .comma ∧ k ≠ .rparen := by
  refine ⟨?_, ?_, ?_, ?_⟩ <;> rintro rfl <;> simp [followsWord, followsName, startsType] at h

theorem followsWord_isSubject {w k : Kind} (h : followsWord w k = true)
    (hw : w.isSubject = true) : k.isSubject = false ∧ k ≠ .keyword .isKw := by
  rw [followsWord, hw, Bool.not_true, Bool.false_and, Bool.or_false] at h
  unfold followsName at h
  split at h <;> first | exact ⟨rfl, by simp⟩ | simp at h

end Kind

/-- The lexemes start like a type. -/
def Leads (ls : List Lexeme) : Prop :=
  ∃ l r, ls = l :: r ∧ l.doc = none ∧ l.kind.startsType = true ∧
    (l.kind.isWord = true → ∀ m ∈ r.head?, l.kind.followsWord m.kind = true)

namespace Leads

variable {ls ms : List Lexeme} {xs : List (List Lexeme)}

theorem append (h : Leads ls) (hm : ∀ m ∈ ms.head?, m.kind.followsName = true) :
    Leads (ls ++ ms) := by
  obtain ⟨l, r, rfl, hd, hs, hr⟩ := h
  refine ⟨l, r ++ ms, rfl, hd, hs, fun hw m hmem => ?_⟩
  cases r with
  | nil =>
    rw [Kind.followsWord, hm m hmem]
    rfl
  | cons m' r => exact hr hw m hmem

theorem word {l : Lexeme} (hd : l.doc = none) (hs : l.kind.startsType = true)
    (hw : l.kind.isSubject = false) (hm : ∀ m ∈ ms.head?, m.kind.startsType = true) :
    Leads (l :: ms) :=
  ⟨l, ms, rfl, hd, hs, fun _ m hmem => by simp [Kind.followsWord, hw, hm m hmem]⟩

theorem noWord {l : Lexeme} (hd : l.doc = none) (hs : l.kind.startsType = true)
    (hw : l.kind.isWord = false) : Leads (l :: ms) :=
  ⟨l, ms, rfl, hd, hs, fun h => by simp [hw] at h⟩

theorem single {l : Lexeme} (hd : l.doc = none) (hs : l.kind.startsType = true) : Leads [l] :=
  ⟨l, [], rfl, hd, hs, by simp⟩

theorem enclosed (c : Bool) (h : Leads ls) : Leads (Ambient.enclosed c ls) := by
  cases c
  · exact h
  · exact noWord rfl rfl rfl

theorem separated {s : Symbol} (hs : (Kind.symbol s).followsName = true) (h : Leads ls) :
    Leads (Ambient.separated s (ls :: xs)) := by
  cases xs with
  | nil => exact h
  | cons y xs =>
    rw [Ambient.separated, List.append_assoc]
    exact h.append (by simpa using hs)

theorem angled (h : Leads ls) : Leads (ls ++ angledLexemes xs) := by
  refine h.append ?_
  cases xs with
  | nil => simp [angledLexemes]
  | cons x xs => simp [angledLexemes, Kind.followsName]

theorem startsType (h : Leads ls) : StartsWith (fun k => k.startsType = true) ls := by
  obtain ⟨l, r, rfl, -, hs, -⟩ := h
  exact ⟨l, r, rfl, hs⟩

theorem ne_nil (h : Leads ls) : ls ≠ [] := by
  obtain ⟨l, r, rfl, -⟩ := h
  simp

/-- The kind at the front, whatever stands behind the type. -/
theorem kindAt_zero (h : Leads ls) (us : List Lexeme) :
    (kindAt (ls ++ us) 0).startsType = true := by
  obtain ⟨l, r, rfl, -, hs, -⟩ := h
  exact hs

/-- The kind behind a word at the front. -/
theorem kindAt_one (h : Leads ls) (us : List Lexeme)
    (hw : (kindAt (ls ++ us) 0).isWord = true) :
    ls.length = 1 ∨ (kindAt (ls ++ us) 0).followsWord (kindAt (ls ++ us) 1) = true := by
  obtain ⟨l, r, rfl, -, -, hr⟩ := h
  cases r with
  | nil => exact .inl rfl
  | cons m r => exact .inr (hr hw m rfl)

end Leads

theorem StartsWith.head {P : Kind → Prop} {ls : List Lexeme} (h : StartsWith P ls) :
    ∀ m ∈ ls.head?, P m.kind := by
  obtain ⟨l, r, rfl, hP⟩ := h
  rintro m ⟨⟩
  exact hP

/-! ## Names -/

theorem Word.startsWith {s : String} (h : Word s) :
    StartsWith (fun k => k.startsType = true) (lexemesOf s) := by
  obtain ⟨l, hl, -, hk⟩ := h.lexeme
  exact ⟨l, [], hl, Kind.startsType_of_wordText? hk⟩

theorem Dotted.lexemes {Head : String → Prop} (hHead : ∀ a, Head a → Word a) {s : String}
    (h : Dotted Head s) : ∃ a l r, Head a ∧ lexemesOf s = l :: r ∧ l.doc = none ∧
      l.kind.wordText? = some a ∧ Spelled a l.kind ∧ ∀ m ∈ r.head?, m.kind = .symbol .dot := by
  obtain ⟨a, ws, ps, k, ks, ha, -, hs, hsp, hka, hk, -, -⟩ := h.kept hHead
  have hkinds := hs.map_kind
  rw [hk] at hkinds
  obtain ⟨l, r, hl, rfl, hr⟩ := List.map_eq_cons_iff.1 hkinds
  refine ⟨a, l, r, ha, hl, hs.doc_head l (by rw [hl]; rfl), hka, hsp, fun m hm => ?_⟩
  cases ks with
  | nil => simp [trailKinds] at hr; simp [hr] at hm
  | cons k' ks =>
    obtain ⟨m', r', rfl, hm', -⟩ := List.map_eq_cons_iff.1 (hr.trans (by rw [trailKinds]; rfl))
    obtain rfl : m' = m := by simpa using hm
    exact hm'

theorem DottedPath.startsWith {s : String} (h : DottedPath s) :
    StartsWith (fun k => k.startsType = true) (lexemesOf s) := by
  obtain ⟨a, l, r, -, hl, -, hk, -⟩ := Dotted.lexemes (fun _ => Binder.word) h
  exact ⟨l, r, hl, Kind.startsType_of_wordText? hk⟩

theorem TypeName.leads {s : String} (h : TypeName s) : Leads (lexemesOf s) := by
  obtain ⟨a, l, r, -, hl, hd, hk, -, hr⟩ := Dotted.lexemes (fun _ => Ident.word) h
  refine ⟨l, r, hl, hd, Kind.startsType_of_wordText? hk, fun _ m hm => ?_⟩
  simp [Kind.followsWord, Kind.followsName, hr m hm]

theorem Query.startsWith {s : String} (h : Query s) :
    StartsWith (fun k => k.startsType = true) (lexemesOf s) := by
  rcases h with h | ⟨-, ⟨l, r, hl, hk⟩, -⟩
  · exact h.startsWith
  · exact ⟨l, r, hl, by rw [hk]; rfl⟩

theorem Signature.startsWith (sig : Signature) :
    StartsWith (fun k => k = .lparen ∨ k = .langle) sig.lexemes := by
  obtain ⟨typeParams, receiver, params⟩ := sig
  rw [Signature.lexemes]
  cases typeParams with
  | nil => exact ⟨.sym .lparen, _, rfl, .inl rfl⟩
  | cons p ps => exact ⟨.sym .langle, _, rfl, .inr rfl⟩

theorem Signature.head_startsType (sig : Signature) (ms : List Lexeme) :
    ∀ m ∈ (sig.lexemes ++ ms).head?, m.kind.startsType = true := by
  obtain ⟨l, r, hl, hk⟩ := sig.startsWith
  rw [hl]
  rintro m ⟨⟩
  rcases hk with hk | hk <;> rw [hk] <;> rfl

/-! ## Types -/

/-- The word `symbol` stands at the front, and not in parentheses. -/
theorem Ty.startsWith_symbol : (t : Ty) → t.startsSymbol = true →
    t.looserThanPostfix = false ∧ StartsWith (· = .keyword .symbolKw) t.lexemes
  | .primitive .symbol, _ => ⟨rfl, _, _, rfl, rfl⟩
  | .array t, h => by
    rw [startsSymbol, Bool.and_eq_true] at h
    obtain ⟨hl, l, r, ht, hk⟩ := t.startsWith_symbol h.2
    exact ⟨rfl, l, r ++ [.sym .lbracket, .sym .rbracket], by simp [lexemes, enclosed, hl, ht], hk⟩
  | .indexAccess t index, h => by
    rw [startsSymbol, Bool.and_eq_true] at h
    obtain ⟨hl, l, r, ht, hk⟩ := t.startsWith_symbol h.2
    exact ⟨rfl, l, r ++ ([.sym .lbracket] ++ index.lexemes ++ [.sym .rbracket]),
      by simp [lexemes, enclosed, hl, ht], hk⟩

/-- **A type starts like a type.** -/
theorem Ty.leads : (t : Ty) → t.Legible → t.isPredicate = false → Leads t.lexemes
  | .named name args, h, _ => by
    rw [Ty.Legible] at h
    exact h.1.leads.angled
  | .primitive p, _, _ => .single rfl rfl
  | .stringLiteral s, _, _ => .single rfl rfl
  | .numberLiteral text, h, _ => by
    rw [Ty.Legible] at h
    rw [Ty.lexemes]
    rcases h with h | ⟨n, h, rfl⟩
    · rw [Spelled.lexemesOf_eq h]
      exact .single rfl rfl
    · rw [h.kept_minus.lexemesOf_eq]
      exact .noWord rfl rfl rfl
  | .booleanLiteral b, _, _ => .single rfl rfl
  | .union [], h, _ => by simp [Ty.Legible] at h
  | .union (t :: ts), h, _ => by
    rw [Ty.Legible, legibleTys] at h
    exact .separated rfl ((t.leads h.2.2.1.2 h.2.2.1.1).enclosed _)
  | .intersection [], h, _ => by simp [Ty.Legible] at h
  | .intersection (t :: ts), h, _ => by
    rw [Ty.Legible, legibleTys] at h
    exact .separated rfl ((t.leads h.2.2.1.2 h.2.2.1.1).enclosed _)
  | .function sig result, _, _ => by
    rw [Ty.lexemes]
    obtain ⟨l, r, hl, hk⟩ := sig.startsWith
    obtain ⟨l', r', hl', hd⟩ := sig.undocumented
    obtain ⟨rfl, rfl⟩ := List.cons.inj (hl.symm.trans hl')
    rw [hl]
    rcases hk with hk | hk
    · exact .noWord hd (by rw [hk]; rfl) (by rw [hk]; rfl)
    · exact .noWord hd (by rw [hk]; rfl) (by rw [hk]; rfl)
  | .constructor isAbstract sig result, _, _ => by
    simp only [Ty.lexemes, List.append_assoc]
    cases isAbstract
    · exact .word rfl rfl rfl (sig.head_startsType _)
    · exact .word rfl rfl rfl (by simp [Kind.startsType])
  | .object members, _, _ => .noWord rfl rfl rfl
  | .array t, h, _ => by
    rw [Ty.Legible] at h
    exact ((t.leads h.2 h.1).enclosed _).append (by simp [Kind.followsName])
  | .tuple es, _, _ => .noWord rfl rfl rfl
  | .typeOf value, h, _ => by
    rw [Ty.Legible] at h
    exact .word rfl rfl rfl h.startsWith.head
  | .keyOf t, h, _ => by
    rw [Ty.Legible] at h
    exact .word rfl rfl rfl ((t.leads h.2 h.1).enclosed _).startsType.head
  | .operator .readonly t, h, _ => by
    rw [Ty.Legible] at h
    exact .word rfl rfl rfl ((t.leads h.2.2 h.2.1).enclosed _).startsType.head
  | .operator .unique t, h, _ => by
    rw [Ty.Legible] at h
    -- The operator is a name by itself. It is told by the word `symbol` behind it.
    obtain ⟨hl, l, r, ht, hk⟩ := t.startsWith_symbol (h.1 rfl)
    rw [Ty.lexemes, hl]
    refine ⟨_, t.lexemes, rfl, rfl, rfl, fun _ m hm => ?_⟩
    obtain rfl : l = m := by simpa [ht] using hm
    rw [hk]
    rfl
  | .indexAccess t index, h, _ => by
    rw [Ty.Legible] at h
    rw [Ty.lexemes, List.append_assoc, List.append_assoc]
    exact ((t.leads h.1.2 h.1.1).enclosed _).append (by simp [Kind.followsName])
  | .conditional check super yes no, h, _ => by
    rw [Ty.Legible] at h
    simp only [Ty.lexemes, List.append_assoc]
    exact ((check.leads h.1.2 h.1.1).enclosed _).append (by simp [Kind.followsName])
  | .mapped .., _, _ => .noWord rfl rfl rfl
  | .infer name, h, _ => by
    rw [Ty.Legible] at h
    exact .word rfl rfl rfl h.word.startsWith.head
  | .template text, h, _ => by
    rw [Ty.Legible] at h
    rw [Ty.lexemes, h.lexemesOf_eq]
    exact .single rfl rfl
  | .imported module qualifier args, _, _ => .word rfl rfl rfl (by simp [Kind.startsType])
  | .parenthesized t, _, _ => .noWord rfl rfl rfl
  | .this, _, _ => .single rfl rfl

end Ambient
