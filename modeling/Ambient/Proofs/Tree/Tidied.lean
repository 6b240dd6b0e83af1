import Ambient.Token.Basic
import Ambient.Parser.Skip

/-!
# Tokens that are written anew

A type that was read is not always written with the tokens that it was read from. `Tidied` lists all
that may change: a sign in front of the first operand of a union or intersection, a comma behind
the last element of a list and empty angle brackets are left out, a semicolon is put in front of a
closing brace, and parentheses are put around an operand that starts with a word like `keyof`. All
other tokens stay, in their order.
-/

namespace Ambient

/-- How loosely a type behind the token may bind: 3 for any type, 1 for a member of a union, and 0
where no sign can stand in front. -/
def Kind.admits : Kind → Nat
  | .symbol .lparen | .symbol .langle | .symbol .lbracket | .symbol .comma | .symbol .colon
  | .symbol .question | .symbol .ellipsis => 3
  | .keyword .extendsKw | .keyword .inKw | .keyword .asKw => 3
  | .symbol .pipe => 1
  | _ => 0

/-- Words in front of an operand or of the name of an inferred type. -/
def Kind.isPrefix : Kind → Bool
  | .keyword .keyofKw | .keyword .readonlyKw | .keyword .inferKw => true
  | .ident name => name == "unique"
  | _ => false

/-- Tokens and the same tokens written anew. The number tells how loosely a type may bind that
starts at the first of them. -/
inductive Tidied : Nat → List Kind → List Kind → Prop
  | nil (n : Nat) : Tidied n [] []
  | keep {n : Nat} (k : Kind) {ks ls : List Kind} (h : Tidied k.admits ks ls) :
    Tidied n (k :: ks) (k :: ls)
  /-- A sign in front of the first member of a union. -/
  | pipe {n : Nat} {ks ls : List Kind} (hn : 2 ≤ n) (h : Tidied 1 ks ls) :
    Tidied n (.symbol .pipe :: ks) ls
  /-- A sign in front of the first member of an intersection. -/
  | amp {n : Nat} {ks ls : List Kind} (hn : 1 ≤ n) (h : Tidied 0 ks ls) :
    Tidied n (.symbol .amp :: ks) ls
  /-- A comma behind the last element. -/
  | comma {n : Nat} {s : Symbol} {ks ls : List Kind} (hs : s = .rangle ∨ s = .rbracket)
    (h : Tidied 0 (.symbol s :: ks) ls) : Tidied n (.comma :: .symbol s :: ks) ls
  /-- Angle brackets with nothing in them. -/
  | angles {n : Nat} {ks ls : List Kind} (h : Tidied 0 ks ls) :
    Tidied n (.langle :: .rangle :: ks) ls
  /-- A semicolon at the end of a mapped type. -/
  | semicolon {n : Nat} {ks ls : List Kind} (h : Tidied 0 ks ls) :
    Tidied n (.rbrace :: ks) (.semicolon :: .rbrace :: ls)
  /-- Parentheses around an operand. -/
  | parens {n : Nat} {ks us ls vs : List Kind} (hus : ∃ k ∈ us.head?, k.isPrefix = true)
    (h : Tidied 0 ks us) (hvs : Tidied 0 ls vs) :
    Tidied n (ks ++ ls) (.lparen :: (us ++ .rparen :: vs))

namespace Tidied

variable {n m : Nat} {ks ls us vs : List Kind}

theorem mono (h : Tidied n ks us) (hnm : n ≤ m) : Tidied m ks us := by
  cases h with
  | nil => exact .nil m
  | keep k h => exact .keep k h
  | pipe hn h => exact .pipe (Nat.le_trans hn hnm) h
  | amp hn h => exact .amp (Nat.le_trans hn hnm) h
  | comma hs h => exact .comma hs h
  | angles h => exact .angles h
  | semicolon h => exact .semicolon h
  | parens hus h hvs => exact .parens hus h hvs

/-- Tokens behind others are written behind them. -/
theorem append (h : Tidied n ks us) (hls : Tidied 0 ls vs) : Tidied n (ks ++ ls) (us ++ vs) := by
  induction h with
  | nil n => exact hls.mono (Nat.zero_le n)
  | keep k _ ih => exact .keep k ih
  | pipe hn _ ih => exact .pipe hn ih
  | amp hn _ ih => exact .amp hn ih
  | comma hs _ ih => exact .comma hs ih
  | angles _ ih => exact .angles ih
  | semicolon _ ih => exact .semicolon ih
  | parens hus h _ _ ih =>
    rw [List.append_assoc, List.cons_append, List.append_assoc, List.cons_append]
    exact .parens hus h ih

/-- Tokens that stay as they are. -/
theorem refl (n : Nat) (ks : List Kind) : Tidied n ks ks := by
  induction ks generalizing n with
  | nil => exact .nil n
  | cons k ks ih => exact .keep k (ih _)

/-- One token more at the end. -/
theorem append_singleton (h : Tidied n ks us) (k : Kind) : Tidied n (ks ++ [k]) (us ++ [k]) :=
  h.append (.refl 0 [k])

end Tidied

end Ambient
