import Ambient.Proofs.Parser.Operand
import Ambient.Proofs.Parser.YieldsDecls

/-!
# Printing a file and reading it again

A legible file is read back as it was printed, but for parentheses around types, if no conditional
type in it stands where the word `extends` is not taken up (`File.clear`); otherwise it is refused.
The printer writes parentheses around a conditional type that is itself the operand of `extends`. It
writes none around a type that only ends with one, as a function type does.

A file that was read from a source whose literals are closed and whose brackets have partners is
always clear, and it is legible up to a few corners (`File.Settled`). So printing it a second time
changes nothing (`parse_print_settled`).
-/

namespace Ambient

/-- **A printed file is read back, up to parentheses, exactly if it is clear.** -/
theorem parse_print_erased {f : File} (h : f.Legible) :
    (f.clear = true → ∃ g, parse f.print = .ok g ∧ g.erased = f.erased) ∧
      (f.clear = false → ∃ e, parse f.print = .error e) := by
  constructor
  · intro hclear
    exact ⟨f.reread, (parse_print h f.reread).2 ⟨hclear, rfl⟩, f.erased_reread⟩
  · intro hclear
    cases hparse : parse f.print with
    | error e => exact ⟨e, rfl⟩
    | ok g =>
      have hread := ((parse_print h g).1 hparse).1
      rw [hclear] at hread
      cases hread

/-- A function type whose result is a conditional type. -/
def Ty.arrowToConditional : Ty :=
  .function ⟨[], none, []⟩
    (.conditional (.named "B" []) (.named "C" []) (.named "D" []) (.named "E" []))

/-- A file with one alias, for a conditional type with the given operand. -/
def File.withOperand (t : Ty) : File :=
  .alias "X" (.conditional (.named "A" []) t (.named "F" []) (.named "G" []))

theorem File.legible_withOperand {t : Ty} (h : t.Legible) (hp : t.isPredicate = false) :
    (File.withOperand t).Legible := by
  refine legible_alias (.inl ⟨'X', [], rfl, rfl⟩) ?_ rfl
  rw [Ty.Legible]
  exact ⟨Ty.legible_named ⟨'A', [], rfl, rfl⟩, ⟨hp, h⟩,
    Ty.legible_named ⟨'F', [], rfl, rfl⟩,
    Ty.legible_named ⟨'G', [], rfl, rfl⟩⟩

theorem Ty.legible_arrowToConditional : Ty.arrowToConditional.Legible := by
  have hhead : Signature.Headed ⟨[], none, []⟩ := .inr (.inr (by simp))
  have hsig : Signature.Legible ⟨[], none, []⟩ := by
    simp [Signature.Legible, legibleTypeParams, legibleOpt, legibleParams]
  rw [arrowToConditional, Ty.Legible, Ty.Legible]
  exact ⟨hhead, hsig, legible_named ⟨'B', [], rfl, rfl⟩,
    legible_named ⟨'C', [], rfl, rfl⟩,
    legible_named ⟨'D', [], rfl, rfl⟩,
    legible_named ⟨'E', [], rfl, rfl⟩⟩

/-- The word `extends` behind the arrow is not taken up in the operand, unless parentheses stand
around the function type. -/
theorem parse_print_erased_arrow :
    (∃ e, parse "type X = A extends () => B extends C ? D : E ? F : G;\n" = .error e) ∧
      ∃ g, parse "type X = A extends (() => B extends C ? D : E) ? F : G;\n" = .ok g ∧
        g.erased = (File.withOperand .arrowToConditional).erased := by
  have hbare := File.legible_withOperand Ty.legible_arrowToConditional rfl
  have hlegible : (Ty.parenthesized .arrowToConditional).Legible := by
    rw [Ty.Legible]
    exact ⟨rfl, Ty.legible_arrowToConditional⟩
  have henclosed := File.legible_withOperand hlegible rfl
  exact ⟨(parse_print_erased hbare).2 (by decide), (parse_print_erased henclosed).1 (by decide)⟩

/-! ## Files that were read -/

/-- **Printing what was read is stable.** A settled file of a regular source is read back as it is
printed, up to parentheses around types, and what is read back is printed as the same text. -/
theorem parse_print_settled {source : String} {f : File} (hs : Regular source)
    (h : parse source = .ok f) (hsettled : f.Settled) :
    ∃ g, parse f.print = .ok g ∧ g.erased = f.erased ∧ g.print = f.print := by
  obtain ⟨hclear, hlegible⟩ := hs.legible h
  have hread : parse f.print = .ok f.reread := (parse_print (hlegible hsettled) _).2 ⟨hclear, rfl⟩
  exact ⟨f.reread, hread, f.erased_reread, f.print_reread⟩

/-- A sign, empty angle brackets and blanks between the tokens are not printed. -/
theorem parse_print_settled_keyof :
    ∃ f g, parse "type A = |  keyof  keyof B<>; let n = f(1,'2')" = .ok f ∧
      f.print = "type A = keyof (keyof B);\ndeclare let n = f(1,'2');\n" ∧
      parse f.print = .ok g ∧ g.erased = f.erased ∧ g.print = f.print := by
  have hparse : parse "type A = |  keyof  keyof B<>; let n = f(1,'2')" = .ok
      ⟨[.decl (.typeAlias ⟨"A", none, [], .keyOf (.keyOf (.named "B" []))⟩),
        .decl (.vars ⟨none, .letBound, [⟨"n", none, some "f(1,'2')"⟩]⟩)]⟩ := rfl
  have hkinds : (lex "type A = |  keyof  keyof B<>; let n = f(1,'2')").tokens.map Token.kind =
      [.keyword .typeKw, .ident "A", .eq, .symbol .pipe, .keyword .keyofKw, .keyword .keyofKw,
        .ident "B", .langle, .rangle, .semicolon, .keyword .letKw, .ident "n", .eq, .ident "f",
        .lparen, .number "1", .comma, .string "2", .rparen] := rfl
  have hclosed : ((lex "type A = |  keyof  keyof B<>; let n = f(1,'2')").tokens.all fun t =>
      t.kind != .string "2" || closesString t.text) = true := by decide
  have hregular : Regular "type A = |  keyof  keyof B<>; let n = f(1,'2')" := by
    refine ⟨fun t ht => ?_, ?_⟩
    · have hmem := List.mem_map_of_mem (f := Token.kind) ht
      rw [hkinds] at hmem
      refine ⟨fun v hv => ?_, fun s hs => ?_⟩
      · obtain rfl : v = "2" := by simpa [hv] using hmem
        simpa [hv] using List.all_eq_true.1 hclosed t ht
      · simp [hs] at hmem
    · rw [hkinds]
      iterate 14 refine .cons rfl (by simp) ?_
      have harguments : Bracketed true [.number "1", .comma, .string "2"] :=
        .cons rfl (by simp) (.cons rfl (by simp) (.cons rfl (by simp) .nil))
      exact .pair rfl harguments .nil
  have hinitializer : settledInitializer (some "f(1,'2')") := by
    rintro _ ⟨⟩ r
    rw [show (kinds "f(1,'2')".toList).getLast? = some .rparen from rfl]
    simp
  have hdoc : settledDoc none := by simp [settledDoc]
  obtain ⟨g, hg⟩ := parse_print_settled hregular hparse
    ⟨⟨hdoc, trivial, trivial⟩, ⟨hdoc, by simpa using ⟨trivial, hinitializer⟩⟩, trivial⟩
  exact ⟨_, g, hparse, rfl, hg⟩

end Ambient
