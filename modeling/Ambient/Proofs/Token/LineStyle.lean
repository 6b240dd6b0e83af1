import Ambient.Proofs.Parser.Twin
import Ambient.Proofs.Text.LineStyle
import Ambient.Proofs.Token.Positions
import Mathlib.Data.List.TakeWhile

/-!
# Pieces in two styles of line endings

A source and the same source with a carriage return before each line feed are cut into pieces that
correspond (`pieces_restyled`), as long as no quoted literal reaches over the end of a line. Only
the texts of template literals differ, and they cannot be told apart once all line endings are
written in one way. A comment of one line takes the carriage return behind it in, so that
corresponding pieces may end on either side of one; the characters of a piece are the same when the
carriage returns are dropped (`Piece.Restyled`), and that tells where the pieces end (`crlf_cut`).
-/

namespace Ambient

open Text (isSpace crlf dropReturns crlf_cons crlf_newline dropReturns_cons dropReturns_crlf)

/-! ## The characters that a token takes after its first one -/

theorem blockBody_cons {c : Char} {cs : List Char} (h : c = '*' → cs.head? ≠ some '/') :
    blockBody (c :: cs) = (c :: (blockBody cs).1, (blockBody cs).2) := by
  rw [blockBody]
  rintro ds rfl rfl
  exact h rfl rfl

theorem numberRest_crlf (prev : Char) (cs : List Char) :
    numberRest prev (crlf cs) = numberRest prev cs := by
  have hn (p : Char) : continuesNumber p '\n' = false := by simp [continuesNumber]
  have hr (p : Char) : continuesNumber p '\r' = false := by simp [continuesNumber]
  induction cs generalizing prev with
  | nil => rfl
  | cons c cs ih =>
    by_cases hc : c = '\n'
    · subst hc
      rw [crlf_newline, numberRest, numberRest]
      simp only [hn, hr]
      rfl
    · rw [crlf_cons hc, numberRest, numberRest, ih]

theorem stringRest_crlf {quote : Char} (hq : quote ≠ '\n') (hb : quote ≠ '\\') {cs : List Char}
    (h : '\n' ∉ (stringRest quote cs).1) : stringRest quote (crlf cs) = stringRest quote cs := by
  fun_induction stringRest quote cs with
  | case1 => rfl
  | case2 => rfl
  | case3 c cs r ih =>
    simp only [List.mem_cons, not_or] at h
    rw [crlf_cons (by decide), crlf_cons (fun e => h.2.1 e.symm), stringRest, ih h.2.2]
  | case4 cs => rw [crlf_cons hq, stringRest_cons hb, if_pos rfl]
  | case5 c cs h₁ h₂ hc r ih =>
    simp only [List.mem_cons, not_or] at h
    rw [crlf_cons (fun e => h.1 e.symm), stringRest_cons (ne_backslash h₁ h₂), if_neg hc, ih h.2]

theorem templateRest_crlf (cs : List Char) : templateRest (crlf cs) = crlf (templateRest cs) := by
  fun_induction templateRest cs with
  | case1 => rfl
  | case2 => rfl
  | case3 c cs ih =>
    have hslash : '\\' ≠ '\n' := by decide
    rw [crlf_cons hslash, crlf_cons hslash]
    by_cases hc : c = '\n'
    · -- the backslash takes the carriage return in, and the line feed goes on its own
      subst hc
      rw [crlf_newline, crlf_newline, templateRest, templateRest_cons (by decide),
        if_neg (by decide), ih]
    · rw [crlf_cons hc, crlf_cons hc, templateRest, ih]
  | case4 cs => rfl
  | case5 c cs h₁ h₂ hc ih =>
    have hb : c ≠ '\\' := ne_backslash h₁ h₂
    by_cases hn : c = '\n'
    · subst hn
      rw [crlf_newline, crlf_newline, templateRest_cons (by decide), if_neg (by decide),
        templateRest_cons hb, if_neg hc, ih]
    · rw [crlf_cons hn, crlf_cons hn, templateRest_cons hb, if_neg hc, ih]

/-- What a text starts with in the other style. -/
theorem head?_crlf {c : Char} (hn : c ≠ '\n') (hr : c ≠ '\r') (cs : List Char) :
    (crlf cs).head? = some c ↔ cs.head? = some c := by
  cases cs with
  | nil => rfl
  | cons d ds =>
    by_cases hd : d = '\n'
    · subst hd
      rw [crlf_newline]
      constructor
      · rintro ⟨⟩
        exact absurd rfl hr
      · rintro ⟨⟩
        exact absurd rfl hn
    · rw [crlf_cons hd]
      rfl

theorem blockBody_crlf (cs : List Char) :
    blockBody (crlf cs) = (crlf (blockBody cs).1, (blockBody cs).2) := by
  fun_induction blockBody cs with
  | case1 => rfl
  | case2 cs =>
    rw [crlf_cons (by decide), crlf_cons (by decide), blockBody]
    rfl
  | case3 c cs h r ih =>
    by_cases hn : c = '\n'
    · subst hn
      rw [crlf_newline, blockBody_cons (by rintro ⟨⟩), blockBody_cons (by rintro ⟨⟩), ih,
        crlf_newline]
    · have hstar : c = '*' → (crlf cs).head? ≠ some '/' := by
        rintro rfl he
        obtain ⟨ds, hds⟩ := List.head?_eq_some_iff.1
          ((head?_crlf (by decide) (by decide) cs).1 he)
        exact h ds rfl hds
      rw [crlf_cons hn, blockBody_cons hstar, ih, crlf_cons hn]

/-- A line up to its line feed has a carriage return at its end, if there is a line feed. -/
theorem lineRest_crlf (cs : List Char) :
    lineRest (crlf cs) = lineRest cs ++ if '\n' ∈ cs then ['\r'] else [] := by
  induction cs with
  | nil => rfl
  | cons c cs ih =>
    by_cases hn : c = '\n'
    · subst hn
      rw [crlf_newline, if_pos List.mem_cons_self]
      rfl
    · have hmem : '\n' ∈ c :: cs ↔ '\n' ∈ cs := by
        rw [List.mem_cons]
        exact or_iff_right fun e => hn e.symm
      have hc : (c != '\n') = true := by simpa using hn
      have hline (ds : List Char) : lineRest (c :: ds) = c :: lineRest ds := by
        rw [lineRest, List.takeWhile_cons, if_pos hc]
        rfl
      rw [crlf_cons hn, hline, hline, ih, List.cons_append]
      simp only [hmem]

/-! ## References -/

theorem isPrefixOf_append_return {pattern : List Char} (hp : '\r' ∉ pattern) (cs : List Char) :
    pattern.isPrefixOf (cs ++ ['\r']) = pattern.isPrefixOf cs := by
  rw [Bool.eq_iff_iff, List.isPrefixOf_iff_prefix, List.isPrefixOf_iff_prefix]
  constructor
  · intro h
    rcases List.prefix_concat_iff.1 h with rfl | h
    · exact absurd (List.mem_append_right cs List.mem_cons_self) hp
    · exact h
  · exact fun h => h.trans (List.prefix_append _ _)

theorem after?_append_return {pattern : List Char} (hp : '\r' ∉ pattern) (hne : pattern ≠ [])
    (cs : List Char) : after? pattern (cs ++ ['\r']) = (after? pattern cs).map (· ++ ['\r']) := by
  induction cs with
  | nil =>
    have hfront : pattern.isPrefixOf ['\r'] = false := by
      rw [← List.nil_append ['\r'], isPrefixOf_append_return hp]
      cases pattern with
      | nil => exact absurd rfl hne
      | cons d ds => rfl
    have hempty : pattern.isEmpty = false := by simpa using hne
    simp [after?, hfront, hempty]
  | cons c cs ih =>
    have hfront := isPrefixOf_append_return hp (c :: cs)
    rw [List.cons_append] at hfront
    rw [List.cons_append, after?, after?, hfront]
    by_cases h : pattern.isPrefixOf (c :: cs) = true
    · have hlen : pattern.length ≤ (c :: cs).length :=
        (List.isPrefixOf_iff_prefix.1 h).length_le
      rw [if_pos h, if_pos h, ← List.cons_append, List.drop_append_of_le_length hlen]
      rfl
    · rw [if_neg h, if_neg h, ih]

theorem attributeValue?_append_return (name : String) (hn : '\r' ∉ name.toList) (cs : List Char) :
    attributeValue? name (cs ++ ['\r']) = attributeValue? name cs := by
  have hp : '\r' ∉ name.toList ++ ['=', '"'] := by simp [hn]
  rw [attributeValue?, attributeValue?, after?_append_return hp (by simp)]
  cases after? (name.toList ++ ['=', '"']) cs with
  | none => rfl
  | some r =>
    by_cases hq : '"' ∈ r
    · have htake : (r ++ ['\r']).takeWhile (· != '"') = r.takeWhile (· != '"') := by
        rw [List.takeWhile_append, if_neg]
        intro h
        have hall := (List.takeWhile_prefix (· != '"')).eq_of_length h
        have hquote := List.takeWhile_eq_self_iff.1 hall '"' hq
        simp at hquote
      simp [hq, htake]
    · simp [hq]

/-- A carriage return at the end of a line makes no difference to a reference in it. -/
theorem reference?_append_return (line : List Char) :
    reference? (line ++ ['\r']) = reference? line := by
  have hcontent : (line ++ ['\r']).dropWhile (fun c => c == ' ' || c == '\t') =
      line.dropWhile (fun c => c == ' ' || c == '\t') ++ ['\r'] := by
    rw [List.dropWhile_append]
    split
    · next h =>
      rw [List.isEmpty_iff.1 h]
      rfl
    · rfl
  have htrim (cs : List Char) : "<reference".toList.isPrefixOf (Text.trimStart (cs ++ ['\r'])) =
      "<reference".toList.isPrefixOf (Text.trimStart cs) := by
    rw [Text.trimStart, List.dropWhile_append]
    split
    · next h =>
      rw [Text.trimStart, List.isEmpty_iff.1 h]
      rfl
    · exact isPrefixOf_append_return (by decide) _
  have hpath (cs : List Char) := attributeValue?_append_return "path" (by decide) cs
  have htypes (cs : List Char) := attributeValue?_append_return "types" (by decide) cs
  have hlib (cs : List Char) := attributeValue?_append_return "lib" (by decide) cs
  simp only [reference?, hcontent, htrim, List.findSome?, hpath, htypes, hlib]

/-! ## Pieces -/

/-- What pieces mean that differ in the text of a template literal only. -/
inductive Content.Like (S : String → String → Prop) : Content → Content → Prop
  | skipped : Content.Like S .skipped .skipped
  | doc (d : String) : Content.Like S (.doc d) (.doc d)
  | token {k k' : Kind} (h : k.Like S k') : Content.Like S (.token k) (.token k')

theorem Content.Like.refl (S : String → String → Prop) (x : Content) : x.Like S x := by
  cases x with
  | skipped => exact .skipped
  | doc d => exact .doc d
  | token k => exact .token (.same k)

/-- Pieces with the same characters but for carriage returns that mean the same, whatever the style
of line endings. -/
structure Piece.Restyled (p p' : Piece) : Prop where
  text : dropReturns p'.text = p.text
  content : p.content.Like SameEndings p'.content

namespace Piece

theorem Restyled.of_eq {p p' : Piece} (h : p' = p) (hr : '\r' ∉ p.text) : p.Restyled p' := by
  subst h
  exact ⟨Text.dropReturns_eq_self hr, .refl _ _⟩

theorem not_mem_of_prefix {as bs : List Char} (h : as <+: bs) (hr : '\r' ∉ bs) : '\r' ∉ as :=
  fun he => hr (h.subset he)

theorem dropReturns_lineRest {cs : List Char} (hr : '\r' ∉ cs) :
    dropReturns (lineRest (crlf cs)) = lineRest cs := by
  have hline : '\r' ∉ lineRest cs := not_mem_of_prefix (List.takeWhile_prefix _) hr
  rw [lineRest_crlf, Text.dropReturns_append, Text.dropReturns_eq_self hline]
  split
  · exact List.append_nil _
  · exact List.append_nil _

theorem reference?_crlf (cs : List Char) :
    reference? (lineRest (crlf cs)) = reference? (lineRest cs) := by
  rw [lineRest_crlf]
  split
  · exact reference?_append_return _
  · rw [List.append_nil]

theorem lineComment_restyled {cs : List Char} (hr : '\r' ∉ cs) :
    (lineComment cs).Restyled (lineComment (crlf cs)) := by
  by_cases hslash : cs.head? = some '/'
  · obtain ⟨ds, rfl⟩ := List.head?_eq_some_iff.1 hslash
    have hd : '\r' ∉ ds := fun he => hr (List.mem_cons_of_mem _ he)
    rw [crlf_cons (by decide)]
    constructor
    · simp only [lineComment]
      rw [dropReturns_cons (by decide), dropReturns_cons (by decide), dropReturns_cons (by decide),
        dropReturns_lineRest hd]
    · simp only [lineComment, reference?_crlf]
      exact .refl _ _
  · have hplain (es : List Char) (he : es.head? ≠ some '/') :
        lineComment es = ⟨'/' :: '/' :: lineRest es, .skipped⟩ := by
      rw [lineComment]
      rintro ds rfl
      exact he rfl
    rw [hplain cs hslash, hplain _ (mt (head?_crlf (by decide) (by decide) cs).1 hslash)]
    constructor
    · show dropReturns ('/' :: '/' :: lineRest (crlf cs)) = '/' :: '/' :: lineRest cs
      rw [dropReturns_cons (by decide), dropReturns_cons (by decide), dropReturns_lineRest hr]
    · exact .skipped

theorem content_blockComment_of_head {cs : List Char} (h : (blockBody cs).1.head? ≠ some '*') :
    (blockComment cs).content = .skipped := by
  simp only [blockComment]
  split
  · next hb =>
    rw [hb] at h
    exact absurd rfl h
  · rfl

theorem content_blockComment_congr {cs ds body body' : List Char}
    (h : (blockBody cs).1 = '*' :: body) (h' : (blockBody ds).1 = '*' :: body')
    (hc : Text.cleanDoc body = Text.cleanDoc body') :
    (blockComment cs).content = (blockComment ds).content := by
  simp only [blockComment, h, h', hc]

theorem blockComment_restyled {cs : List Char} (hr : '\r' ∉ cs) :
    (blockComment cs).Restyled (blockComment (crlf cs)) := by
  have hfront : (blockBody cs).1 <+: cs := (List.prefix_append _ _).trans ( blockBody_prefix cs)
  have hbody := not_mem_of_prefix hfront hr
  have hfirst : (blockBody (crlf cs)).1 = crlf (blockBody cs).1 := by rw [blockBody_crlf]
  constructor
  · have hclose : dropReturns (if (blockBody cs).2 then ['*', '/'] else []) =
        if (blockBody cs).2 then ['*', '/'] else [] := by
      split <;> rfl
    simp only [blockComment, blockBody_crlf]
    rw [List.cons_append, List.cons_append, dropReturns_cons (by decide),
      dropReturns_cons (by decide), Text.dropReturns_append, dropReturns_crlf hbody, hclose]
    rfl
  · have hcontent : (blockComment (crlf cs)).content = (blockComment cs).content := by
      by_cases hstar : (blockBody cs).1.head? = some '*'
      · obtain ⟨body, hb⟩ := List.head?_eq_some_iff.1 hstar
        have hc : '\r' ∉ body := by
          rw [hb] at hbody
          exact fun he => hbody (List.mem_cons_of_mem _ he)
        rw [hb, crlf_cons (by decide)] at hfirst
        exact content_blockComment_congr hfirst hb (Text.cleanDoc_crlf hc)
      · have hstar' : (blockBody (crlf cs)).1.head? ≠ some '*' := by
          rw [hfirst]
          exact mt (head?_crlf (by decide) (by decide) _).1 hstar
        rw [content_blockComment_of_head hstar, content_blockComment_of_head hstar']
    rw [hcontent]
    exact .refl _ _

theorem slash_restyled {cs : List Char} (hr : '\r' ∉ cs) :
    (slash cs).Restyled (slash (crlf cs)) := by
  cases cs with
  | nil => exact .of_eq rfl (by decide)
  | cons c cs =>
    have hcs : '\r' ∉ cs := fun he => hr (List.mem_cons_of_mem c he)
    by_cases hn : c = '\n'
    · subst hn
      show (ofSymbol ['/'] .slash).Restyled (ofSymbol ['/'] .slash)
      exact .of_eq rfl (by decide)
    · rw [crlf_cons hn]
      by_cases hslash : c = '/'
      · subst hslash
        exact lineComment_restyled hcs
      · by_cases hstar : c = '*'
        · subst hstar
          exact blockComment_restyled hcs
        · have hplain (ds : List Char) : slash (c :: ds) = ofSymbol ['/'] .slash := by
            rw [slash]
            · rintro es ⟨⟩
              exact hslash rfl
            · rintro es ⟨⟩
              exact hstar rfl
          rw [hplain, hplain]
          exact .of_eq rfl (by decide)

theorem dots_crlf (cs : List Char) : dots (crlf cs) = dots cs := by
  cases cs with
  | nil => rfl
  | cons c cs =>
    by_cases hn : c = '\n'
    · subst hn
      rfl
    · rw [crlf_cons hn]
      by_cases hdot : c = '.'
      · subst hdot
        cases cs with
        | nil => rfl
        | cons d ds =>
          by_cases hd : d = '\n'
          · subst hd
            rfl
          · rw [crlf_cons hd]
            by_cases hdot : d = '.'
            · subst hdot
              rfl
            · have hplain (es : List Char) : dots ('.' :: d :: es) = ofSymbol ['.', '.'] .dot := by
                rw [dots]
                rintro fs ⟨⟩
                exact hdot rfl
              rw [hplain, hplain]
      · have hplain (es : List Char) : dots (c :: es) = ofSymbol ['.'] .dot := by
          rw [dots]
          · rintro fs ⟨⟩
            exact hdot rfl
          · rintro fs ⟨⟩
            exact hdot rfl
        rw [hplain, hplain]

theorem equals_crlf (cs : List Char) : equals (crlf cs) = equals cs := by
  cases cs with
  | nil => rfl
  | cons c cs =>
    by_cases hn : c = '\n'
    · subst hn
      rfl
    · rw [crlf_cons hn]
      by_cases hangle : c = '>'
      · subst hangle
        rfl
      · have hplain (es : List Char) : equals (c :: es) = ofSymbol ['='] .eq := by
          rw [equals]
          rintro fs ⟨⟩
          exact hangle rfl
        rw [hplain, hplain]

theorem wordOrNumber_crlf (c : Char) (cs : List Char) :
    wordOrNumber c (crlf cs) = wordOrNumber c cs := by
  have hn : isIdentRest '\n' = false := by decide
  have hr : isIdentRest '\r' = false := by decide
  rw [wordOrNumber, wordOrNumber, numberRest_crlf, Text.takeWhile_crlf_of_stop hn hr]

/-- The first piece of a text that starts with no line feed, in both styles. -/
theorem first_restyled {c : Char} {cs : List Char} (hc : c ≠ '\n') (hr : '\r' ∉ c :: cs)
    (hs : ∀ v, (first c cs).content = .token (.string v) → '\n' ∉ (first c cs).text) :
    (first c cs).Restyled (first c (crlf cs)) := by
  have hcr : c ≠ '\r' := fun e => hr (e ▸ List.mem_cons_self)
  have hcs : '\r' ∉ cs := fun he => hr (List.mem_cons_of_mem c he)
  have htext := not_mem_of_prefix ( text_prefix c cs) hr
  by_cases hspace : isSpace c = true
  · have hfirst (ds : List Char) : first c ds = ⟨c :: ds.takeWhile isSpace, .skipped⟩ :=
      if_pos hspace
    have hrun := not_mem_of_prefix (List.takeWhile_prefix isSpace) hcs
    rw [hfirst, hfirst, Text.takeWhile_crlf (by decide) (by decide)]
    refine ⟨?_, .skipped⟩
    show dropReturns (c :: crlf (cs.takeWhile isSpace)) = c :: cs.takeWhile isSpace
    rw [dropReturns_cons hcr, dropReturns_crlf hrun]
  by_cases hquote : c = '"' ∨ c = '\''
  · have hfirst (ds : List Char) : first c ds =
        ofKind (c :: (stringRest c ds).1) (.string (String.ofList (stringRest c ds).2)) := by
      simp only [first, if_neg hspace, if_pos hquote]
    have hline : '\n' ∉ (stringRest c cs).1 := by
      rw [hfirst] at hs
      exact fun he => hs _ rfl (List.mem_cons_of_mem c he)
    have hb : c ≠ '\\' := by
      rintro rfl
      simp at hquote
    rw [hfirst] at htext
    rw [hfirst, hfirst, stringRest_crlf hc hb hline]
    exact .of_eq rfl htext
  by_cases htemplate : c = '\x60'
  · have hfirst (ds : List Char) : first c ds =
        ofKind (c :: templateRest ds) (.template (String.ofList (c :: templateRest ds))) := by
      simp only [first, if_neg hspace, if_neg hquote, if_pos htemplate]
    rw [hfirst] at htext ⊢
    rw [hfirst, templateRest_crlf]
    have hrest : '\r' ∉ templateRest cs := not_mem_of_prefix ( templateRest_prefix cs) hcs
    refine ⟨?_, .token (.template ?_)⟩
    · show dropReturns (c :: crlf (templateRest cs)) = c :: templateRest cs
      rw [dropReturns_cons hcr, dropReturns_crlf hrest]
    · rw [← crlf_cons hc]
      exact sameEndings_crlf htext (by simpa using hc)
  -- what is left looks ahead by two characters at most, comments apart
  have hfirst (ds : List Char) : first c ds =
      if c = '/' then slash ds else if c = '.' then dots ds else if c = '=' then equals ds
      else (Symbol.ofChar? c).elim (wordOrNumber c ds) (ofSymbol [c]) := by
    simp only [first, if_neg hspace, if_neg hquote, if_neg htemplate]
    cases Symbol.ofChar? c <;> rfl
  rw [hfirst] at htext ⊢
  rw [hfirst, dots_crlf, equals_crlf, wordOrNumber_crlf]
  by_cases hslash : c = '/'
  · rw [if_pos hslash, if_pos hslash]
    exact slash_restyled hcs
  · rw [if_neg hslash] at htext
    rw [if_neg hslash, if_neg hslash]
    exact .of_eq rfl htext

/-- White space at the front of a text, in both styles. In the other style it starts with a carriage
return, which a comment in front of it may have taken in. -/
theorem first_restyled_newline {cs : List Char} (hr : '\r' ∉ cs) :
    (first '\n' cs).Restyled (first '\r' ('\n' :: crlf cs)) ∧
      (first '\n' cs).Restyled (first '\n' (crlf cs)) := by
  have hrun := not_mem_of_prefix (List.takeWhile_prefix isSpace) hr
  have hcrlf := Text.takeWhile_crlf (show isSpace '\n' = true by decide) (by decide) cs
  constructor
  · refine ⟨?_, .skipped⟩
    show dropReturns ('\r' :: '\n' :: (crlf cs).takeWhile isSpace) = '\n' :: cs.takeWhile isSpace
    rw [hcrlf, Text.dropReturns_return, dropReturns_cons (by decide), dropReturns_crlf hrun]
  · refine ⟨?_, .skipped⟩
    show dropReturns ('\n' :: (crlf cs).takeWhile isSpace) = '\n' :: cs.takeWhile isSpace
    rw [hcrlf, dropReturns_cons (by decide), dropReturns_crlf hrun]

end Piece

/-! ## All pieces of a text -/

/-- The first piece of a text and what is left behind it. -/
theorem exists_pieces_cons (c : Char) (cs : List Char) :
    ∃ rest, (Piece.first c cs).text ++ rest = c :: cs ∧
      pieces (c :: cs) = Piece.first c cs :: pieces rest := by
  obtain ⟨rest, hrest⟩ := Piece.text_prefix c cs
  refine ⟨rest, hrest, ?_⟩
  obtain ⟨d, ds, hd⟩ := List.exists_cons_of_ne_nil (Piece.text_ne_nil c cs)
  have hcs : cs = ds ++ rest := by
    rw [hd] at hrest
    exact (List.cons.inj hrest).2.symm
  have hdrop : cs.drop ((Piece.first c cs).text.length - 1) = rest := by
    rw [hd, List.length_cons, Nat.add_sub_cancel, hcs, List.drop_left]
  rw [pieces_cons, hdrop]

/-- What is left of a text in the other style behind some characters: what is left in the first
style, or that without the carriage return at its front. -/
def Text.CrlfRest (cs ds : List Char) : Prop :=
  ds = crlf cs ∨ ∃ es, cs = '\n' :: es ∧ ds = '\n' :: crlf es

/-- The first pieces of what is left, and what is left then. -/
theorem exists_restyled_first {c : Char} {cs ds : List Char} (h : Text.CrlfRest (c :: cs) ds)
    (hr : '\r' ∉ c :: cs)
    (hs : ∀ v, (Piece.first c cs).content = .token (.string v) → '\n' ∉ (Piece.first c cs).text) :
    ∃ d es, ds = d :: es ∧ (Piece.first c cs).Restyled (Piece.first d es) ∧
      ∃ front, front ++ ds = crlf (c :: cs) ∧ dropReturns front = [] := by
  by_cases hc : c = '\n'
  · subst hc
    have hnewline := Piece.first_restyled_newline fun he => hr (List.mem_cons_of_mem _ he)
    rcases h with rfl | ⟨es, hes, rfl⟩
    · exact ⟨_, _, crlf_newline cs, hnewline.1, [], rfl, rfl⟩
    · obtain rfl := (List.cons.inj hes).2
      exact ⟨_, _, rfl, hnewline.2, ['\r'], rfl, rfl⟩
  · rcases h with rfl | ⟨es, hes, -⟩
    · exact ⟨_, _, crlf_cons hc cs, Piece.first_restyled hc hr hs, [], rfl, rfl⟩
    · exact absurd (List.cons.inj hes).1 hc

/-- **The pieces of a text in two styles correspond.** -/
theorem pieces_restyled {cs ds : List Char} (hr : '\r' ∉ cs)
    (hs : ∀ p ∈ pieces cs, ∀ v, p.content = .token (.string v) → '\n' ∉ p.text)
    (h : Text.CrlfRest cs ds) : List.Forall₂ Piece.Restyled (pieces cs) (pieces ds) := by
  induction hlen : cs.length using Nat.strongRecOn generalizing cs ds with
  | ind n ih =>
    subst hlen
    cases cs with
    | nil =>
      rcases h with rfl | ⟨es, hes, -⟩
      · exact .nil
      · cases hes
    | cons c cs =>
      obtain ⟨rest, hrest, hpieces⟩ := exists_pieces_cons c cs
      rw [hpieces] at hs ⊢
      obtain ⟨d, es, rfl, hfirst, front, hfront, hempty⟩ :=
        exists_restyled_first h hr (hs _ List.mem_cons_self)
      obtain ⟨rest', hrest', hpieces'⟩ := exists_pieces_cons d es
      rw [hpieces']
      refine .cons hfirst ?_
      -- both pieces have the same characters, which tells how far the second one reaches
      have htext : front ++ (Piece.first d es).text ++ rest' =
          crlf ((Piece.first c cs).text ++ rest) := by
        rw [List.append_assoc, hrest', hfront, hrest]
      have hsame : dropReturns (front ++ (Piece.first d es).text) = (Piece.first c cs).text := by
        rw [Text.dropReturns_append, hempty, hfirst.text, List.nil_append]
      have hcut := Text.crlf_cut (by rwa [hrest]) htext hsame
      have hleft : Text.CrlfRest rest rest' := by
        rcases hcut with ⟨-, hrest'⟩ | ⟨es, hes, -, hrest'⟩
        · exact .inl hrest'
        · exact .inr ⟨es, hes, hrest'⟩
      have hlt : rest.length < (c :: cs).length := by
        have hpos := List.length_pos_of_ne_nil (Piece.text_ne_nil c cs)
        have hsum := congrArg List.length hrest
        rw [List.length_append] at hsum
        omega
      have hr' : '\r' ∉ rest := by
        rw [← hrest] at hr
        exact fun he => hr (List.mem_append_right _ he)
      exact ih rest.length hlt hr' (fun p hp => hs p (List.mem_cons_of_mem _ hp)) hleft rfl

end Ambient
