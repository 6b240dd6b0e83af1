import Ambient.Proofs.Parser.AliasFront
import Ambient.Proofs.Token.Meaning

/-!
# Places of quoted literals

A quoted literal is read as a type, as the name of a member, and as the name of a module, and what is
printed of it is its quoted value (`QuotedInPlace`). Whether that means what the literal meant depends
on its escapes (`means_quote_iff`).
-/

namespace Ambient

open Text (quote)

/-- How a quoted literal with the value `v` is read in each place where the parser looks for one, and
how what is read there is printed: as the quoted value. The name of the module `global` is the
exception, for it is printed as a word. -/
structure QuotedInPlace (v : String) : Prop where
  literalType {t : Token} (ht : t.kind = .string v) (n : Nat) (ty : TyReader) (inSuper : Bool)
    (ts : List Token) (eof : Token) :
    Parser.primary n ty inSuper ⟨t :: ts, eof⟩ = .ok (.stringLiteral v, ⟨ts, eof⟩)
  print_literalType (level : Nat) : (Ty.stringLiteral v).print level = quote v
  /-- The names of properties, parameters and members of enumerations. -/
  name {t : Token} (ht : t.kind = .string v) (ts : List Token) (eof : Token) :
    Parser.propertyName ⟨t :: ts, eof⟩ = .ok (quote v, ⟨ts, eof⟩)
  imported {t₁ t₂ t : Token} (h₁ : t₁.kind = .keyword .importKw) (h₂ : t₂.kind = .lparen)
    (ht : t.kind = .string v) {n : Nat} {ty : TyReader} {ts : List Token} {eof : Token} {type : Ty}
    {c : Cursor} (h : Parser.imported n ty ⟨t₁ :: t₂ :: t :: ts, eof⟩ = .ok (type, c)) :
    ∃ qualifier args, type = .imported v qualifier args
  print_imported (qualifier : Option String) (args : List Ty) (level : Nat) :
    ∃ behind, (Ty.imported v qualifier args).print level = "import(" ++ quote v ++ ")" ++ behind
  ambientModule {t₁ t : Token} (h₁ : t₁.kind = .keyword .moduleKw) (ht : t.kind = .string v)
    {block : Parser (List Item)} {ts : List Token} {eof : Token} {i : Item} {c : Cursor}
    (h : Parser.ambientModule block ⟨t₁ :: t :: ts, eof⟩ = .ok (i, c)) :
    ∃ items, i = .ambientModule v items
  moduleHead (h : v ≠ "global") : moduleHead v = "module " ++ quote v ++ " \x7b\n"

theorem quotedInPlace (v : String) : QuotedInPlace v := by
  have hpeek {α : Type} {t : Token} (ht : t.kind = .string v) (f : Kind → Parser α)
      (ts : List Token) (eof : Token) :
      (Parser.peek >>= f) ⟨t :: ts, eof⟩ = f (.string v) ⟨t :: ts, eof⟩ := by
    rw [← ht]
    rfl
  constructor
  case literalType =>
    intro t ht n ty inSuper ts eof
    rw [Parser.primary, hpeek ht]
    rfl
  case print_literalType => exact fun level => rfl
  case name =>
    intro t ht ts eof
    rw [Parser.propertyName, hpeek ht]
    rfl
  case imported =>
    intro t₁ t₂ t h₁ h₂ ht n ty ts eof type c h
    rw [Parser.imported, Parser.bind_apply, Parser.expect_eq h₁] at h
    dsimp only at h
    rw [Parser.bind_apply, Parser.expect_eq h₂] at h
    dsimp only at h
    rw [hpeek ht] at h
    obtain ⟨_, _, -, h⟩ := Parser.bind_eq_ok h
    obtain ⟨_, _, -, h⟩ := Parser.bind_eq_ok h
    obtain ⟨qualifier, _, -, h⟩ := Parser.bind_eq_ok h
    obtain ⟨args, _, -, h⟩ := Parser.bind_eq_ok h
    cases h
    exact ⟨qualifier, args, rfl⟩
  case print_imported =>
    intro qualifier args level
    exact ⟨_, by rw [Ty.print, String.append_assoc]⟩
  case ambientModule =>
    intro t₁ t h₁ ht block ts eof i c h
    rw [Parser.ambientModule, Parser.bind_apply, Parser.expect_eq h₁] at h
    dsimp only at h
    rw [hpeek ht] at h
    obtain ⟨_, _, -, h⟩ := Parser.bind_eq_ok h
    obtain ⟨b, _, -, h⟩ := Parser.bind_eq_ok h
    cases b with
    | true =>
      cases h
      exact ⟨[], rfl⟩
    | false =>
      obtain ⟨items, _, -, h⟩ := Parser.bind_eq_ok h
      cases h
      exact ⟨items, rfl⟩
  case moduleHead => exact fun h => if_neg h

/-- **What is printed of a quoted literal means what the literal means if and only if the literal has
short escapes only.** Whatever stands behind it, the literal is one token. Its value is what is read
of it in every source and in every place, and what is printed is the quoted value. -/
theorem means_quote_iff {lit : List Char} {us : List Nat} (h : Literal.Means lit us) :
    ∃ v : String,
      (∀ rest, lexChars (lit ++ rest) =
        (lexChars rest).cons { kind := .string v, text := lit, start := 0 }) ∧
      (∀ source, ∀ t ∈ (lex source).tokens, t.text = lit → t.kind = .string v) ∧
      QuotedInPlace v ∧
      (Literal.Means (quote v).toList us ↔ shortEscapes lit = true) := by
  obtain ⟨v, hstands, hvalue⟩ := h.value
  refine ⟨v, fun rest => lexChars_append (hstands rest), fun source t ht htext => ?_,
    quotedInPlace v, ?_⟩
  · exact kind_of_text_eq ht htext hstands
  · rw [means_quote, hvalue]

/-- A character that is escaped by its number is not read back as that character. -/
theorem means_quote_hex :
    Literal.Means "\"\\x41\"".toList [65] ∧
      ∃ v, (lex "\"\\x41\"").tokens.map Token.kind = [.string v] ∧
        ¬ Literal.Means (quote v).toList [65] := by
  have hescape : Escape ['x', '4', '1'] ['"'] [65] := .hex rfl
  have hmeans : Literal.Means "\"\\x41\"".toList [65] := .quoted (.inl rfl) (.escape hescape .close)
  obtain ⟨v, hlex, -, -, hiff⟩ := means_quote_iff hmeans
  refine ⟨hmeans, v, ?_, fun h => absurd (hiff.1 h) (by decide)⟩
  exact congrArg (fun l : Lexed => l.tokens.map Token.kind) (hlex [])

end Ambient
