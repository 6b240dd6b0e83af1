import Ambient.Module.Output
import Ambient.Proofs.Parser.Outline

/-!
# Reading a module back

A module is printed around its declarations with text that is none: a header comment, imports, and
at the end of the wrapping namespace the statements that are run when the module is loaded. Each of
them is a part of an outline that is passed (`OutputModule.outline`), so that the module is read
back as its declarations and one namespace (`OutputModule.parse_print`).
-/

namespace Ambient

open Text (quote)

/-! ## Outlines of modules -/

/-- An import is a statement. -/
def Import.part : Import → Part
  | .all name module =>
    .statement .file none (.keyword .importKw) ([.sym .star, .kw .asKw] ++ lexemesOf name ++
      [.kw .fromKw, { kind := .string module }])
  | .only names module =>
    .statement .file none (.keyword .importKw) ([.sym .lbrace] ++
      separated .comma (names.map lexemesOf) ++
      [.sym .rbrace, .kw .fromKw, { kind := .string module }])

/-- Nothing in a statement that is run starts an item. -/
def Merge.part (s : Merge) : Part :=
  .strays (lexemesOf s.utility ++ [.sym .dot, { kind := .ident "assign" }, .sym .lparen] ++
    lexemesOf s.target ++ [.sym .comma] ++ lexemesOf s.source ++ [.sym .rparen, .sym .semicolon])

/-- The wrapping namespace holds its items and its statements. -/
def WrappingNamespace.part (n : WrappingNamespace) : Part :=
  .ns .body n.name none (n.items.map (.item .module) ++ n.statements.map Merge.part)

/-- The parts of a module behind its header. -/
def OutputModule.outline (m : OutputModule) : List Part :=
  m.imports.map Import.part ++ m.items.map (.item .module) ++
    m.wrapping?.toList.map WrappingNamespace.part

/-- The declarations of a module, as a file. -/
def OutputModule.contents (m : OutputModule) : File where
  items := m.items ++ m.wrapping?.toList.map fun n => .decl (.ns ⟨n.name, none, n.items⟩)

theorem itemsOf_map_item (p : Place) (is : List Item) : itemsOf (is.map (.item p)) = is := by
  induction is with
  | nil => rfl
  | cons i is ih =>
    rw [List.map_cons, itemsOf, ih]
    rfl

/-- Parts none of which is an item. -/
theorem itemsOf_eq_nil {xs : List Part} (h : ∀ x ∈ xs, x.item? = none) : itemsOf xs = [] := by
  induction xs with
  | nil => rfl
  | cons x xs ih =>
    rw [itemsOf, h x List.mem_cons_self, ih fun y hy => h y (List.mem_cons_of_mem x hy)]
    rfl

theorem lexemesParts_map_item (p : Place) (is : List Item) :
    lexemesParts (is.map (.item p)) = is.flatMap (Item.lexemes p) := by
  induction is with
  | nil => rfl
  | cons i is ih =>
    rw [List.map_cons, lexemesParts, ih, List.flatMap_cons, Part.lexemes]

/-- **Imports and statements add no item to a module.** -/
theorem OutputModule.itemsOf_outline (m : OutputModule) : itemsOf m.outline = m.contents.items := by
  have himports : itemsOf (m.imports.map Import.part) = [] := by
    refine itemsOf_eq_nil fun x hx => ?_
    obtain ⟨i, -, rfl⟩ := List.mem_map.1 hx
    cases i <;> rfl
  have hstatements (ss : List Merge) : itemsOf (ss.map Merge.part) = [] := by
    refine itemsOf_eq_nil fun x hx => ?_
    obtain ⟨s, -, rfl⟩ := List.mem_map.1 hx
    rfl
  have hwrapping (n : WrappingNamespace) :
      itemsOf [n.part] = [.decl (.ns ⟨n.name, none, n.items⟩)] := by
    rw [itemsOf, WrappingNamespace.part, Part.item?, itemsOf_append, itemsOf_map_item,
      hstatements, List.append_nil]
    rfl
  rw [outline, itemsOf_append, itemsOf_append, himports, itemsOf_map_item, contents,
    List.nil_append]
  cases m.wrapping? with
  | none => rfl
  | some n => rw [Option.toList_some, List.map_singleton, hwrapping, List.map_singleton]

/-! ## Legible modules -/

/-- An import of names that are words. -/
def Import.Legible : Import → Prop
  | .all name _ => Word name
  | .only names _ => ∀ n ∈ names, Word n

/-- A statement about names that are identifiers. -/
structure Merge.Legible (s : Merge) : Prop where
  utility : Ident s.utility
  target : Ident s.target
  source : Ident s.source

/-- A wrapping namespace whose parts tell what they are. -/
structure WrappingNamespace.Legible (n : WrappingNamespace) : Prop where
  name : DottedPath n.name
  items : ∀ i ∈ n.items, i.Legible
  statements : ∀ s ∈ n.statements, s.Legible

/-- A module whose parts tell what they are. The header is no token. -/
structure OutputModule.Legible (m : OutputModule) : Prop where
  header : ∀ h ∈ m.header, ∀ next, Spells (h ++ "\n") [] next
  imports : ∀ i ∈ m.imports, i.Legible
  items : ∀ i ∈ m.items, i.Legible
  wrapping : ∀ n ∈ m.wrapping?, n.Legible

theorem legibleParts_iff {xs : List Part} : legibleParts xs ↔ ∀ x ∈ xs, x.Legible := by
  induction xs with
  | nil => simp [legibleParts]
  | cons x xs ih => rw [legibleParts, ih, List.forall_mem_cons]

theorem forall_separated {P : Lexeme → Prop} {s : Symbol} (hs : P (.sym s)) {lss : List (List Lexeme)}
    (h : ∀ ls ∈ lss, ∀ l ∈ ls, P l) : ∀ l ∈ separated s lss, P l := by
  induction lss with
  | nil => simp [separated]
  | cons x xs ih =>
    have ih' := ih fun y hy => h y (List.mem_cons_of_mem x hy)
    cases xs with
    | nil => exact h x List.mem_cons_self
    | cons y xs =>
      rw [separated, List.forall_mem_append, List.forall_mem_append, List.forall_mem_singleton]
      exact ⟨⟨h x List.mem_cons_self, hs⟩, ih'⟩

theorem Import.legible_part {i : Import} (h : i.Legible) : i.part.Legible := by
  have hword {s : String} (hs : Word s) : ∀ l ∈ lexemesOf s, l.kind ≠ .semicolon := by
    obtain ⟨l, hl, -, hk⟩ := hs.lexeme
    rw [hl, List.forall_mem_singleton]
    rintro he
    rw [he] at hk
    cases hk
  cases i with
  | all name module =>
    rw [part, Part.Legible]
    refine ⟨.inl rfl, List.forall_mem_append.2 ⟨List.forall_mem_append.2 ⟨?_, hword h⟩, ?_⟩⟩
    · simp
    · simp
  | only names module =>
    rw [part, Part.Legible]
    refine ⟨.inl rfl, List.forall_mem_append.2 ⟨List.forall_mem_append.2 ⟨?_, ?_⟩, ?_⟩⟩
    · simp
    · refine forall_separated (by simp) fun ls hls => ?_
      obtain ⟨s, hs, rfl⟩ := List.mem_map.1 hls
      exact hword (h s hs)
    · simp

theorem Merge.legible_part {s : Merge} (h : s.Legible) : s.part.Legible := by
  obtain ⟨u, hu, -, hku⟩ := h.utility.lexeme
  obtain ⟨t, ht, -, hkt⟩ := h.target.lexeme
  obtain ⟨r, hr, -, hkr⟩ := h.source.lexeme
  rw [part, Part.Legible, hu, ht, hr]
  constructor
  · simp [hku, hkt, hkr, Kind.isStray]
  · simp

theorem WrappingNamespace.legible_part {n : WrappingNamespace} (h : n.Legible) :
    n.part.Legible := by
  rw [part, Part.Legible, legibleParts_append, legibleParts_iff, legibleParts_iff]
  refine ⟨h.name, fun x hx => ?_, fun x hx => ?_⟩
  · obtain ⟨i, hi, rfl⟩ := List.mem_map.1 hx
    rw [Part.Legible]
    exact h.items i hi
  · obtain ⟨s, hs, rfl⟩ := List.mem_map.1 hx
    exact Merge.legible_part (h.statements s hs)

theorem OutputModule.legible_outline {m : OutputModule} (h : m.Legible) :
    legibleParts m.outline := by
  rw [outline, legibleParts_append, legibleParts_append, legibleParts_iff, legibleParts_iff,
    legibleParts_iff]
  refine ⟨⟨fun x hx => ?_, fun x hx => ?_⟩, fun x hx => ?_⟩
  · obtain ⟨i, hi, rfl⟩ := List.mem_map.1 hx
    exact Import.legible_part (h.imports i hi)
  · obtain ⟨i, hi, rfl⟩ := List.mem_map.1 hx
    rw [Part.Legible]
    exact h.items i hi
  · obtain ⟨n, hn, rfl⟩ := List.mem_map.1 hx
    exact WrappingNamespace.legible_part (h.wrapping n (Option.mem_toList.1 hn))

/-! ## Printed modules spell their outlines -/

/-- An import as a line. -/
theorem Import.spells {i : Import} (h : i.Legible) {next : List Char} :
    Spells (i.print ++ "\n") i.part.lexemes next := by
  have hblank {next : List Char} : Delimited (" from ".toList ++ next) :=
    .fixed ⟨' ', rfl, by decide⟩
  cases i with
  | all name module =>
    have hline : Spells ((all name module).print ++ "\n")
        ([.kw .importKw, .sym .star, .kw .asKw] ++ lexemesOf name ++ [.kw .fromKw] ++
          [{ kind := .string module }] ++ [.sym .semicolon] ++ []) next :=
      (((((Spells.fixed rfl).append (Word.atom h |>.spells _ hblank)).append (.fixed rfl)).append
        (.quote module)).append (.fixed rfl)).append (.fixed rfl)
    simpa [part, Part.lexemes, documented, Place.lexemes, Place.file, lexemesIf, Lexeme.kw] using hline
  | only names module =>
    have hnames : SpellsAll names (names.map lexemesOf) :=
      List.forall₂_map_right_iff.2 (List.forall₂_same.2 fun n hn next hd => (h n hn).atom.spells _ hd)
    have hbrace {next : List Char} : Delimited (" \x7d from ".toList ++ next) :=
      .fixed ⟨' ', rfl, by decide⟩
    have hline : Spells ((only names module).print ++ "\n")
        ([.kw .importKw, .sym .lbrace] ++ separated .comma (names.map lexemesOf) ++
          [.sym .rbrace, .kw .fromKw] ++ [{ kind := .string module }] ++ [.sym .semicolon] ++ [])
        next :=
      (((((Spells.fixed rfl).append (hnames.intercalate hbrace ⟨',', rfl, by decide⟩ rfl)).append
        (.fixed rfl)).append (.quote module)).append (.fixed rfl)).append (.fixed rfl)
    simpa [part, Part.lexemes, documented, Place.lexemes, Place.file, lexemesIf, Lexeme.kw] using hline

/-- An identifier ends in front of a dot. -/
theorem Ident.spells_dot {s : String} (h : Ident s) (next : List Char) :
    Spells s (lexemesOf s) ('.' :: next) := by
  rw [Spelled.lexemesOf_eq h]
  refine .token (h.of_blank rfl (fun d hd => .inr ⟨rfl, ?_⟩) fun he => absurd he (by simp)) (by simp)
  simpa using hd.symm

/-- A statement as a line of the namespace. -/
theorem Merge.spells {s : Merge} (h : s.Legible) {next : List Char} :
    Spells (indent 1 ++ s.print ++ "\n") s.part.lexemes next := by
  have hcomma {next : List Char} : Delimited (", ".toList ++ next) := .fixed ⟨',', rfl, by decide⟩
  have hclose {next : List Char} : Delimited (");".toList ++ next) := .fixed ⟨')', rfl, by decide⟩
  have hline : Spells (indent 1 ++ s.print ++ "\n") ([] ++ (lexemesOf s.utility ++
      [.sym .dot, { kind := .ident "assign" }, .sym .lparen] ++ lexemesOf s.target ++
      [.sym .comma] ++ lexemesOf s.source ++ [.sym .rparen, .sym .semicolon]) ++ []) next :=
    ((Spells.indent 1).append ((((((h.utility.spells_dot _).append (.fixed rfl)).append
      (h.target.atom.spells _ hcomma)).append (.fixed rfl)).append
      (h.source.atom.spells _ hclose)).append (.fixed rfl))).append (.fixed rfl)
  rwa [List.nil_append, List.append_nil] at hline

/-- Lines that spell a part each. -/
theorem spells_parts {α : Type} {print : α → String} {part : α → Part} {xs : List α}
    (h : ∀ x ∈ xs, ∀ next, Spells (print x) (part x).lexemes next) {next : List Char} :
    Spells (String.join (xs.map print)) (lexemesParts (xs.map part)) next := by
  induction xs with
  | nil => exact .nil
  | cons x xs ih =>
    rw [List.map_cons, String.join_cons, List.map_cons, lexemesParts]
    exact (h x List.mem_cons_self _).append (ih fun y hy => h y (List.mem_cons_of_mem x hy))

theorem WrappingNamespace.spells {n : WrappingNamespace} (h : n.Legible) {next : List Char} :
    Spells n.print n.part.lexemes next := by
  have hname {next : List Char} : Delimited (" \x7b\n".toList ++ next) := .fixed ⟨' ', rfl, by decide⟩
  have hlines : Spells n.print ([.kw .exportKw, .kw .namespaceKw] ++ lexemesOf n.name ++
      [.sym .lbrace] ++ n.items.flatMap (Item.lexemes .module) ++
      lexemesParts (n.statements.map Merge.part) ++ [.sym .rbrace]) next :=
    (((((Spells.fixed rfl).append (h.name.atom.spells _ hname)).append (.fixed rfl)).append
      (spells_items .module 1 h.items)).append
      (spells_parts fun s hs _ => Merge.spells (h.statements s hs))).append (.fixed rfl)
  simpa [part, Part.lexemes, documented, Place.lexemes, Place.body, lexemesIf, lexemesParts_append,
    lexemesParts_map_item, Lexeme.kw] using hlines

/-- **A printed module spells its outline.** -/
theorem OutputModule.spells {m : OutputModule} (h : m.Legible) :
    Spells m.print (lexemesParts m.outline) [] := by
  have hheader {next : List Char} : Spells (m.header.elim "" (· ++ "\n")) [] next := by
    cases hh : m.header with
    | none => exact .nil
    | some header => exact h.header header (Option.mem_def.2 hh) next
  have hitems {next : List Char} :
      Spells (if m.items.isEmpty then "" else "\n" ++ printItems .module 0 m.items)
        (m.items.flatMap (Item.lexemes .module)) next := by
    cases hi : m.items with
    | nil => exact .nil
    | cons i is =>
      rw [← hi, show m.items.isEmpty = false by rw [hi]; rfl]
      have hbreak {next : List Char} : Spells "\n" [] next := .fixed rfl
      exact hbreak.append (spells_items .module 0 h.items)
  have hwrapping : Spells (m.wrapping?.elim "" ("\n" ++ ·.print))
      (lexemesParts (m.wrapping?.toList.map WrappingNamespace.part)) [] := by
    cases hw : m.wrapping? with
    | none => exact .nil
    | some n =>
      have hbreak {next : List Char} : Spells "\n" [] next := .fixed rfl
      have hn : Spells n.print _ [] := WrappingNamespace.spells (h.wrapping n (Option.mem_def.2 hw))
      simpa [lexemesParts] using hbreak.append hn
  rw [outline, lexemesParts_append, lexemesParts_append, lexemesParts_map_item]
  exact ((hheader.append (spells_parts fun i hi _ => Import.spells (h.imports i hi))).append
    hitems).append hwrapping

/-- **A legible module is read back as its declarations and its namespace.** -/
theorem OutputModule.parse_print {m : OutputModule} (h : m.Legible) (g : File) :
    parse m.print = .ok g ↔ m.contents.clear = true ∧ g = m.contents.reread := by
  have hread := Shows.parse_outline (legible_outline h) (spells h).shows g
  rwa [itemsOf_outline] at hread

end Ambient
