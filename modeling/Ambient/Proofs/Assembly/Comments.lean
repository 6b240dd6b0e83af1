import Ambient.Proofs.Assembly.Qualify
import Ambient.Proofs.Token.Comments

/-!
# Comments of an assembled module

Two texts from outside get into a module as comments: the version of the compiler into the header
comment, and the documentation of the brand in front of its property. Neither the assembly nor the
printer looks at them (`Policy.exists_print_assembled`), and neither of them is changed on its way.

So they add nothing to the tokens of the module, as long as they do not close their comments
(`assemble_comments`). A text with a closing mark does.
-/

namespace Ambient

open Text

/-! ## The header -/

theorem toList_append_six (a b c d e f : String) :
    (a ++ b ++ c ++ d ++ e ++ f).toList =
      a.toList ++ (b.toList ++ (c.toList ++ (d.toList ++ (e.toList ++ f.toList)))) := by
  simp

/-- What the header comment has behind the version, without its closing mark. -/
def headerEnd : List Char :=
  ".\n *\n * Generated by dts-rewrap from typescript.d.ts. Do not edit; every run\n".toList ++
    (" * replaces this file.\n *\n".toList ++
      (" * The declarations are Copyright (c) Microsoft Corporation and licensed\n".toList ++
        " * under the Apache License, Version 2.0.\n ".toList))

/-- What the header comment has between its marks. -/
def headerBody (version : Option String) : List Char :=
  "\n * TypeScript compiler declarations".toList ++
    ((version.elim "" (", version " ++ ·)).toList ++ headerEnd)

theorem toList_headerComment (version : Option String) :
    (headerComment version).toList =
      '/' :: '*' :: (" eslint-disable ".toList ++ '*' :: '/' :: '\n' :: '/' :: '*' ::
        (headerBody version ++ ['*', '/'])) := by
  have hfront : "/* eslint-disable */\n/*\n * TypeScript compiler declarations".toList =
      '/' :: '*' :: (" eslint-disable ".toList ++ '*' :: '/' :: '\n' :: '/' :: '*' ::
        "\n * TypeScript compiler declarations".toList) := by decide
  have hlast : " * under the Apache License, Version 2.0.\n */".toList =
      " * under the Apache License, Version 2.0.\n ".toList ++ ['*', '/'] := by decide
  unfold headerComment headerBody headerEnd
  rw [toList_append_six, hfront, hlast]
  simp only [List.append_assoc, List.cons_append]

theorem closesComment_headerEnd : closesComment headerEnd = false := by
  decide

/-- Up to the end of a version nothing closes the comment if the version does not. -/
theorem closesComment_headerFront {v : List Char} (hv : closesComment v = false) :
    closesComment ("\n * TypeScript compiler declarations".toList ++ (", version ".toList ++ v)) =
      false := by
  have hfront : closesComment "\n * TypeScript compiler declarations".toList = false := by
    decide
  have hcomma : closesComment (',' :: " version".toList) = false := by decide
  have hword : ", version ".toList = (',' :: " version".toList) ++ [' '] := by decide
  have hversion : closesComment (' ' :: v) = false := closesComment_cons hv (by simp)
  rw [hword, List.append_assoc]
  exact closesComment_append hfront (closesComment_append hcomma hversion (by simp)) (by simp)

theorem closesComment_headerBody {version : Option String}
    (h : ∀ v ∈ version, closesComment v.toList = false) :
    closesComment (headerBody version) = false := by
  have hhead : headerEnd.head? ≠ some '/' := by decide
  unfold headerBody
  cases version with
  | none =>
    rw [Option.elim_none, String.toList_empty, List.nil_append]
    exact closesComment_append (by decide) closesComment_headerEnd hhead
  | some v =>
    rw [Option.elim_some, String.toList_append, ← List.append_assoc]
    exact closesComment_append (closesComment_headerFront (h v rfl)) closesComment_headerEnd hhead

/-- **The header comment is no token** if the version does not close it. -/
theorem kinds_headerComment {version : Option String}
    (h : ∀ v ∈ version, closesComment v.toList = false) (next : List Char) :
    kinds ((headerComment version).toList ++ next) = kinds next := by
  have hfirst : closesComment " eslint-disable ".toList = false := by decide
  rw [toList_headerComment]
  simp only [List.cons_append, List.append_assoc, List.nil_append]
  rw [kinds_comment hfirst, kinds_cons_blank rfl, kinds_comment (closesComment_headerBody h)]

/-- **Behind the first closing mark in a version everything is code,** up to the end of the
header. -/
theorem kinds_headerComment_closed {a b : String} (ha : closesComment a.toList = false)
    (next : List Char) :
    kinds ((headerComment (some (a ++ "*/" ++ b))).toList ++ next) =
      kinds (b.toList ++ (headerEnd ++ '*' :: '/' :: next)) := by
  have hfirst : closesComment " eslint-disable ".toList = false := by decide
  have hbody : headerBody (some (a ++ "*/" ++ b)) =
      ("\n * TypeScript compiler declarations".toList ++ (", version ".toList ++ a.toList)) ++
        '*' :: '/' :: (b.toList ++ headerEnd) := by
    unfold headerBody
    rw [Option.elim_some, String.toList_append, String.toList_append, String.toList_append,
      show "*/".toList = ['*', '/'] from rfl]
    simp only [List.append_assoc, List.cons_append, List.nil_append]
  rw [toList_headerComment, hbody]
  simp only [List.cons_append, List.append_assoc, List.nil_append]
  rw [kinds_comment hfirst, kinds_cons_blank rfl, ← List.append_assoc _ a.toList,
    ← List.append_assoc _ (_ ++ a.toList), kinds_comment (closesComment_headerFront ha)]

/-! ## The brand -/

/-- The brand with another text for its documentation. -/
def BrandConfig.withDoc (b : BrandConfig) (doc : String) : BrandConfig :=
  { b with doc }

/-- The choices with another text for the documentation of the brand. -/
def Config.withBrandDoc (c : Config) (doc : String) : Config :=
  { c with brand := c.brand.withDoc doc }

/-- An interface with the brand as its last member. -/
def Interface.branded (i : Interface) (b : BrandConfig) : Interface :=
  { i with members := i.members ++ [b.member] }

theorem join_append (as bs : List String) :
    String.join (as ++ bs) = String.join as ++ String.join bs := by
  induction as with
  | nil => simp
  | cons a as ih =>
    rw [List.cons_append, String.join_cons, String.join_cons, ih, String.append_assoc]

theorem printMemberLines_append (level : Nat) (ms ns : List Member) :
    printMemberLines level (ms ++ ns) = printMemberLines level ms ++ printMemberLines level ns := by
  induction ms with
  | nil => rfl
  | cons m ms ih =>
    obtain ⟨doc, shape⟩ := m
    rw [List.cons_append, printMemberLines, printMemberLines, ih, List.cons_append]

/-- Behind the documentation of the brand stands the property. -/
def BrandConfig.line (b : BrandConfig) (level : Nat) : String :=
  indent level ++
    MemberShape.print level (.property b.property (some (.primitive .undefined)) false false) ++ ";\n"

theorem join_printMemberLines_brand (level : Nat) (ms : List Member) (b : BrandConfig) :
    String.join (printMemberLines level (ms ++ [b.member])) =
      String.join (printMemberLines level ms) ++ printDoc level b.doc ++ b.line level := by
  rw [printMemberLines_append, join_append]
  simp only [BrandConfig.member, BrandConfig.line, printMemberLines, printDoc?, Option.elim_some,
    String.join_cons, String.join_nil, String.append_assoc, String.append_empty]

/-- A branded interface is printed in two parts, around the documentation of the brand. -/
theorem Interface.exists_print_branded (p : Place) (level : Nat) (i : Interface)
    (b : BrandConfig) :
    ∃ front back : String, ∀ doc, (i.branded (b.withDoc doc)).print p level =
      front ++ printDoc (level + 1) doc ++ back := by
  refine ⟨printDoc? level i.doc ++ indent level ++ p.words false ++ "interface " ++ i.name ++
    angled (printTypeParams i.typeParams) ++ listAfter " extends " (printTys 0 i.supers) ++
    " \x7b\n" ++ String.join (printMemberLines (level + 1) i.members),
    b.line (level + 1) ++ (indent level ++ "\x7d\n"), fun doc => ?_⟩
  unfold branded Interface.print
  rw [join_printMemberLines_brand]
  simp only [BrandConfig.withDoc, BrandConfig.line, String.append_assoc]

theorem printItems_append (p : Place) (level : Nat) (is js : List Item) :
    printItems p level (is ++ js) = printItems p level is ++ printItems p level js := by
  rw [printItems, List.map_append, join_append, printItems, printItems]

/-- A module around a branded interface is printed in two parts behind its header comment. -/
theorem OutputModule.exists_print_branded (m : OutputModule) (n : WrappingNamespace)
    (before after : List Item) (i : Interface) (b : BrandConfig) :
    ∃ front back : String, ∀ header doc,
      OutputModule.print
        { m with
          header := some header
          wrapping? := some
            { n with items := before ++ .decl (.interface (i.branded (b.withDoc doc))) :: after } } =
      header ++ front ++ printDoc 2 doc ++ back := by
  obtain ⟨head, tail, hprint⟩ := i.exists_print_branded .module 1 b
  refine ⟨"\n" ++ String.join (m.imports.map (·.print ++ "\n")) ++
      (if m.items.isEmpty then "" else "\n" ++ printItems .module 0 m.items) ++ "\n" ++
      ("export namespace " ++ n.name ++ " \x7b\n" ++ printItems .module 1 before ++ head),
    tail ++ printItems .module 1 after ++
      String.join (n.statements.map fun s => indent 1 ++ s.print ++ "\n") ++ "\x7d\n",
    fun header doc => ?_⟩
  have hbranded (is : List Item) :
      printItems .module 1 (.decl (.interface (i.branded (b.withDoc doc))) :: is) =
        head ++ printDoc 2 doc ++ tail ++ printItems .module 1 is := by
    rw [printItems, List.map_cons, String.join_cons, ← printItems, Item.print, Decl.print, hprint]
  unfold print WrappingNamespace.print
  dsimp only [Option.elim_some]
  rw [printItems_append, hbranded]
  simp only [String.append_assoc]

/-- A namespace can be branded with one text if it can be branded with another one. -/
theorem WrappingNamespace.branded_withDoc {n n' : WrappingNamespace} {b : BrandConfig}
    {doc : String} (h : n.branded (b.withDoc doc) = .ok n') :
    ∃ (before : List Item) (i : Interface) (after : List Item), ∀ doc',
      n.branded (b.withDoc doc') =
        .ok { n with items := before ++ .decl (.interface (i.branded (b.withDoc doc'))) :: after } := by
  rw [branded] at h
  cases hi : findInterface? (b.withDoc doc).interface n.items with
  | none =>
    rw [hi] at h
    cases h
  | some i =>
    obtain ⟨before, after, hitems, hbefore, hname, -⟩ := replaceInterface_of_find hi i
    refine ⟨before, i, after, fun doc' => ?_⟩
    rw [branded]
    rw [show findInterface? (b.withDoc doc').interface n.items = some i from hi]
    rw [← replaceInterface_append hbefore hname (i.branded (b.withDoc doc')) after, ← hitems]
    rfl

/-- **The comments of a module are apart from its code.** Whatever the version and the text of the
brand are, the module is made of the same two parts, with the header comment in front of them and
the documentation of the brand between them. -/
theorem Policy.exists_print_assembled {p : Policy} {config : Config} {version : Option String}
    {doc : String} {path : Path} {of : DeclKind → List Decl} {m : OutputModule}
    (h : p.assembled (config.withBrandDoc doc) version path of = .ok m) :
    ∃ front back : String, ∀ version' doc', ∃ m',
      p.assembled (config.withBrandDoc doc') version' path of = .ok m' ∧
        m'.print = headerComment version' ++ front ++ printDoc 2 doc' ++ back := by
  rw [Policy.assembled] at h
  cases hrules : (applyRules (config.withBrandDoc doc).wrapper (config.withBrandDoc doc).rules
      (p.hoistedModule (config.withBrandDoc doc) path of)).2.outcome with
  | error e =>
    rw [hrules] at h
    cases h
  | ok u =>
    rw [hrules] at h
    cases hbrand : (p.wrappingOf (config.withBrandDoc doc) of).branded
        (config.withBrandDoc doc).brand with
    | error e =>
      rw [hbrand] at h
      cases h
    | ok n =>
      -- neither the rules nor the search for the interface looks at the text
      obtain ⟨before, i, after, hbranded⟩ := WrappingNamespace.branded_withDoc hbrand
      obtain ⟨front, back, hprint⟩ := OutputModule.exists_print_branded
        (applyRules config.wrapper config.rules (p.hoistedModule config path of)).1
        { p.wrappingOf config of with
          statements :=
            [{ utility := config.mergeUtility, target := config.wrapper
               source := config.compilerAlias }] } before after i config.brand
      refine ⟨front, back, fun version' doc' => ⟨_, ?_, hprint (headerComment version') doc'⟩⟩
      have hrules' : (applyRules (config.withBrandDoc doc').wrapper
          (config.withBrandDoc doc').rules
          (p.hoistedModule (config.withBrandDoc doc') path of)).2.outcome = .ok u := hrules
      have hbranded' := hbranded doc'
      rw [Policy.assembled, hrules']
      show (p.wrappingOf (config.withBrandDoc doc) of).branded (config.brand.withDoc doc') >>= _ =
        _
      rw [hbranded']
      rfl

/-! ## Modules -/

theorem toList_append_four (a b c d : String) :
    (a ++ b ++ c ++ d).toList = a.toList ++ (b ++ c ++ d).toList := by
  simp

/-- The tokens of a printed module, without its header comment. -/
theorem kinds_print {s front back : String} {version : Option String} {doc : String}
    (hs : s = headerComment version ++ front ++ printDoc 2 doc ++ back)
    (hversion : ∀ v ∈ version, closesComment v.toList = false) :
    (lex s).tokens.map Token.kind = kinds (front ++ printDoc 2 doc ++ back).toList := by
  rw [map_kind_lex, hs, toList_append_four, kinds_headerComment hversion]

/-- The tokens of two parts with a documentation comment between them. -/
theorem kinds_printDoc {front back doc : String} (hdoc : closesComment doc.toList = false)
    (hfront : endsBlank (front ++ indent 2).toList = true) :
    kinds (front ++ printDoc 2 doc ++ back).toList =
      kinds (front ++ indent 2).toList ++ kinds back.toList := by
  obtain ⟨body, hbody, hprint⟩ := exists_toList_printDoc hdoc 2
  have hslash : isSpace '/' = false := rfl
  rw [String.append_assoc, String.toList_append, String.toList_append, hprint, ← List.append_assoc,
    ← String.toList_append, kinds_append_of_endsBlank hfront hslash, kinds_comment hbody,
    kinds_cons_blank rfl]

/-- **The comments of a module add nothing to its code.** Whether a module is assembled depends
neither on the version nor on the text of the brand, and it is made of the same two parts with every
version and text. Its tokens are the same

1. with any two versions that do not close the header comment, whatever the source and the
   configuration are;
2. with any two texts for the brand that do not close its comment, if the part in front of it leaves
   no literal and no comment open. A name with a quotation mark in the configuration opens one, and
   then the text of the brand can close it.

Of a version that closes the header comment, what stands behind the closing mark is code. -/
theorem assemble_comments {config : Config} {p : Policy} {version : Option String} {doc : String}
    {file : File} {path : Path} {m : OutputModule}
    (h : (assemble (config.withBrandDoc doc) p version file path).outcome = .ok m) :
    ∃ front back : String,
      (∀ v d, ∃ m', (assemble (config.withBrandDoc d) p v file path).outcome = .ok m' ∧
        m'.print = headerComment v ++ front ++ printDoc 2 d ++ back) ∧
      (∀ v₁ v₂ d₁ d₂ m₁ m₂,
        (assemble (config.withBrandDoc d₁) p v₁ file path).outcome = .ok m₁ →
        (assemble (config.withBrandDoc d₂) p v₂ file path).outcome = .ok m₂ →
        (∀ v ∈ v₁, closesComment v.toList = false) → (∀ v ∈ v₂, closesComment v.toList = false) →
        (d₁ = d₂ ∨ closesComment d₁.toList = false ∧ closesComment d₂.toList = false ∧
          endsBlank (front ++ indent 2).toList = true) →
        (lex m₁.print).tokens.map Token.kind = (lex m₂.print).tokens.map Token.kind) ∧
      ∀ a b d m', closesComment a.toList = false →
        (assemble (config.withBrandDoc d) p (some (a ++ "*/" ++ b)) file path).outcome = .ok m' →
        (lex m'.print).tokens.map Token.kind =
          kinds (b.toList ++
            (headerEnd ++ '*' :: '/' :: (front ++ printDoc 2 d ++ back).toList)) := by
  -- without a namespace there is no module
  have hblocks : file.blocks config.sourceNamespace ≠ [] := (assembled_of_assemble h).1
  have houtcome (v : Option String) (d : String) :=
    outcome_assemble (config.withBrandDoc d) p v file path hblocks
  rw [houtcome] at h
  obtain ⟨front, back, hprint⟩ := Policy.exists_print_assembled h
  have hshape (v : Option String) (d : String) : ∃ m',
      (assemble (config.withBrandDoc d) p v file path).outcome = .ok m' ∧
        m'.print = headerComment v ++ front ++ printDoc 2 d ++ back := by
    rw [houtcome]
    exact hprint v d
  have hunique {v : Option String} {d : String} {m' : OutputModule}
      (hm' : (assemble (config.withBrandDoc d) p v file path).outcome = .ok m') :
      m'.print = headerComment v ++ front ++ printDoc 2 d ++ back := by
    obtain ⟨m'', hm'', hprint''⟩ := hshape v d
    obtain rfl : m' = m'' := Except.ok.inj (hm'.symm.trans hm'')
    exact hprint''
  refine ⟨front, back, hshape, ?_, ?_⟩
  · intro v₁ v₂ d₁ d₂ m₁ m₂ hm₁ hm₂ hv₁ hv₂ hd
    rw [kinds_print (hunique hm₁) hv₁, kinds_print (hunique hm₂) hv₂]
    rcases hd with rfl | ⟨hd₁, hd₂, hfront⟩
    · rfl
    · rw [kinds_printDoc hd₁ hfront, kinds_printDoc hd₂ hfront]
  · intro a b d m' ha hm'
    rw [map_kind_lex, hunique hm', toList_append_four, kinds_headerComment_closed ha]

/-! ## The two parts of a module -/

/-- Where two texts differ in one character only, the parts around it are told by them. -/
theorem append_cons_inj {α : Type} {a b : α} (hab : a ≠ b) {x x' y y' : List α}
    (ha : x ++ a :: y = x' ++ a :: y') (hb : x ++ b :: y = x' ++ b :: y') : x = x' := by
  -- where only one of the fronts has ended, its first character is the same in both texts
  induction x generalizing x' with
  | nil =>
    cases x' with
    | nil => rfl
    | cons c x' => exact absurd ((List.cons.inj ha).1.trans (List.cons.inj hb).1.symm) hab
  | cons c x ih =>
    cases x' with
    | nil => exact absurd ((List.cons.inj ha).1.symm.trans (List.cons.inj hb).1) hab
    | cons c' x' =>
      rw [(List.cons.inj ha).1, ih (List.cons.inj ha).2 (List.cons.inj hb).2]

/-- The part of a module in front of the brand is told by the module with two texts. -/
theorem front_unique {front front' back back' : String} (header : String)
    (ha : header ++ front ++ printDoc 2 "a" ++ back = header ++ front' ++ printDoc 2 "a" ++ back')
    (hb : header ++ front ++ printDoc 2 "b" ++ back = header ++ front' ++ printDoc 2 "b" ++ back') :
    front = front' := by
  have hdoc (c : Char) (hc : c = 'a' ∨ c = 'b') : (printDoc 2 (String.singleton c)).toList =
      "        /** ".toList ++ c :: " */\n".toList := by
    rcases hc with rfl | rfl <;> decide
  have hparts (c : Char) (hc : c = 'a' ∨ c = 'b') (f b : String) :
      (header ++ f ++ printDoc 2 (String.singleton c) ++ b).toList =
        (header.toList ++ (f.toList ++ "        /** ".toList)) ++
          c :: (" */\n".toList ++ b.toList) := by
    rw [String.toList_append, String.toList_append, String.toList_append, hdoc c hc]
    simp only [List.append_assoc, List.cons_append]
  have ha := congrArg String.toList ha
  have hb := congrArg String.toList hb
  rw [show "a" = String.singleton 'a' from rfl, hparts _ (.inl rfl), hparts _ (.inl rfl)] at ha
  rw [show "b" = String.singleton 'b' from rfl, hparts _ (.inr rfl), hparts _ (.inr rfl)] at hb
  have hfront := append_cons_inj (by decide) ha hb
  exact String.toList_inj.1 (List.append_cancel_right (List.append_cancel_left hfront))

/-- A namespace with nothing but the interface to brand. -/
def oneNode : File :=
  ⟨[.decl (.ns ⟨"ts", none, [.decl (.interface ⟨"Node", none, [], [], []⟩)]⟩)]⟩

/-- The comments can be changed, but not to a version that closes the header comment. -/
theorem assemble_comments_oneNode :
    let config : Config := { qualify := some [] }
    let assembled := fun (version : Option String) (doc : String) =>
      (assemble (config.withBrandDoc doc) Policy.builtin version oneNode config.output).outcome
    ∃ m₁ m₂ m₃, assembled (some "5.4") "Brand" = .ok m₁ ∧ assembled none "A\nbrand" = .ok m₂ ∧
      (lex m₁.print).tokens.map Token.kind = (lex m₂.print).tokens.map Token.kind ∧
      assembled (some "5 */ leak") "Brand" = .ok m₃ ∧
      .ident "leak" ∈ (lex m₃.print).tokens.map Token.kind := by
  intro config assembled
  obtain ⟨front, back, hshape, hsame, hclosed⟩ :=
    @assemble_comments config Policy.builtin none "a" oneNode config.output _ rfl
  obtain ⟨m₁, hm₁, -⟩ := hshape (some "5.4") "Brand"
  obtain ⟨m₂, hm₂, -⟩ := hshape none "A\nbrand"
  obtain ⟨m₃, hm₃, -⟩ := hshape (some ("5 " ++ "*/" ++ " leak")) "Brand"
  refine ⟨m₁, m₂, m₃, hm₁, hm₂, ?_, hm₃, ?_⟩
  · have hfront : front = "\nimport * as tsCompiler from \"typescript\";\n" ++
        "import \x7b ObjectUtils \x7d from \"../utils\";\n\nexport namespace ts \x7b\n" ++
        "    export interface Node \x7b\n" := by
      obtain ⟨ma, hma, ha⟩ := hshape none "a"
      obtain ⟨mb, hmb, hb⟩ := hshape none "b"
      cases hma
      cases hmb
      refine @front_unique front _ back ("        _compilerBrand: undefined;\n    \x7d\n" ++
        "    ObjectUtils.assign(ts, tsCompiler);\n\x7d\n") (headerComment none) ?_ ?_
      · rw [← ha]
        decide +kernel
      · rw [← hb]
        decide +kernel
    refine hsame _ _ _ _ _ _ hm₁ hm₂ (by decide) (by simp) (.inr ⟨?_, ?_, ?_⟩)
    · decide
    · decide
    · rw [hfront]
      decide +kernel
  · have hend : headerEnd = '.' :: headerEnd.tail := by decide +kernel
    have hleak : Piece.Stands ⟨"leak".toList, .token (.ident "leak")⟩ ['.'] :=
      ⟨'l', ['e', 'a', 'k'], rfl, rfl⟩
    have htext : " leak".toList = ' ' :: "leak".toList := rfl
    rw [hclosed _ _ _ _ (by decide) hm₃, htext, List.cons_append, kinds_cons_blank rfl,
      kinds, (hleak.congr (by rw [hend]; rfl)).pieces_append]
    exact List.mem_cons_self

end Ambient
