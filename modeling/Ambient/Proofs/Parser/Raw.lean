import Ambient.Proofs.Parser.Bindings
import Ambient.Proofs.Token.Comments
import Ambient.Proofs.Token.Ended
import Ambient.Proofs.Token.References
import Ambient.Proofs.Tree.Settled

/-!
# Texts that are kept as written

An initializer, a computed name and a pattern are kept as the source has them from their first token
to their last one. Such a text has the tokens that it has in the source (`verbatim_written`), unless
the last one is a reference, which goes on to the end of its line, or a literal that nothing closes.
A reference at the end can still be told from the text (`getLast?_kinds_written`).
-/

namespace Ambient

open Text (isSpace trim trimEnd trimEnd_cons trimEnd_cons_of_not_space trimEnd_isPrefix)

/-! ## Tokens side by side -/

section

variable {cs : List Char} {us e vs : List Token} (h : (lexChars cs).tokens = us ++ e ++ vs)
include h

theorem mem_of_tokens {t : Token} (ht : t ∈ e) : t ∈ (lexChars cs).tokens := by
  rw [h]
  exact List.mem_append_left vs (List.mem_append_right us ht)

/-- **Tokens of a source are kept as written**, if the last one is no reference and no literal without
an end. -/
theorem verbatim_written {P : List Kind → Prop}
    (hlast : ∀ t ∈ e.getLast?, t.Ended ∧ ∀ r, t.kind ≠ .reference r)
    (hP : P (e.map Token.kind)) : Verbatim P (Parser.written e.reverse) := by
  have htrim : trim (Token.span e) = Token.span e := by
    cases e with
    | nil => rfl
    | cons t ts =>
      refine trim_span (fun u hu => mem_of_tokens h hu) fun u hu => ?_
      obtain ⟨hended, href⟩ := hlast u hu
      exact hended.closedBy (mem_of_tokens h (List.mem_of_getLast? hu)) href
  obtain ⟨ps, hps, hkinds⟩ := kept_span h hlast
  rw [Parser.written, List.reverse_reverse, htrim]
  exact ⟨ps, hps, by rw [String.toList_ofList, htrim], by rw [hkinds]; exact hP⟩

/-- A reference at the end of some tokens stands at the end of their text, too. -/
theorem getLast?_kinds_written {t : Token} (ht : t ∈ e.getLast?) {r : String}
    (hr : t.kind = .reference r) :
    (kinds (Parser.written e.reverse).toList).getLast? = some (.reference r) := by
  have hne : e ≠ [] := List.ne_nil_of_mem (List.mem_of_getLast? ht)
  obtain ⟨qs, ps, rs, hpieces, htext, hkinds, -, hps⟩ := exists_pieces h hne
  have hcuts := cuts_pieces cs
  rw [hpieces, List.append_assoc, cuts_append, cuts_append] at hcuts
  replace hcuts := hcuts.2.1
  rcases List.eq_nil_or_concat ps with rfl | ⟨as, p, rfl⟩
  · exact absurd (List.map_eq_nil_iff.1 hkinds.symm) hne
  rw [List.concat_eq_append] at hcuts hps htext
  obtain ⟨u, hu, hk, -⟩ := hps p (by rw [List.getLast?_concat]; rfl)
  obtain rfl : u = t := Option.mem_unique hu ht
  rw [hr] at hk
  obtain ⟨has, hp⟩ := cuts_append.1 hcuts
  have hstands : p.Stands (textOf rs ++ []) := hp.1
  obtain ⟨hhead, halone⟩ := hstands.trimmed hk
  obtain ⟨body, hbody⟩ := List.head?_eq_some_iff.1 hhead
  have hslash : isSpace '/' = false := by decide
  have htrim : trim (Token.span e) = textOf as ++ trimEnd p.text := by
    obtain ⟨t₀, ts, rfl⟩ := List.exists_cons_of_ne_nil hne
    rw [trim, trimStart_span ts (mem_of_tokens h List.mem_cons_self), ← htext, textOf_append,
      textOf_cons, textOf_nil, List.append_nil, hbody, Text.trimEnd_append_visible _ hslash]
  have hcut : Cuts (as ++ [⟨trimEnd p.text, p.content⟩]) [] := by
    refine cuts_append.2 ⟨has.congr ?_, by simpa [Cuts] using halone⟩
    simp [hbody, trimEnd_cons_of_not_space hslash]
  have htext' : textOf (as ++ [⟨trimEnd p.text, p.content⟩]) = textOf as ++ trimEnd p.text := by
    simp
  have hpieces' := hcut.pieces_append
  rw [List.append_nil, htext', ← htrim] at hpieces'
  rw [Parser.written, List.reverse_reverse, String.toList_ofList, kinds, hpieces',
    show pieces [] = [] from rfl, List.append_nil, kindsOf_append]
  simp [kindsOf, Piece.kind?, hk]

end

end Ambient
