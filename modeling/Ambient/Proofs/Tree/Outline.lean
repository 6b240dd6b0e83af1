import Ambient.Proofs.Tree.LegibleDecl
import Ambient.Proofs.Tree.RereadDecl

/-!
# Outlines

A source holds more than declarations. Imports and exports from elsewhere are passed up to their
semicolon, and a token that starts nothing is passed alone. An outline says of a source, part by
part, what is an item, what is passed and what stands in which block. `itemsOf` keeps the items of
an outline, each in its block.

The braces of an outline are counted in two ways. The blocks of the outline have a brace at both
ends, and `behindBrace` looks for the brace at the other end by counting. Both find the same one if
no item and no statement has a brace without a partner (`behindBrace_lexemesParts`).
-/

namespace Ambient

/-! ## What is passed -/

/-- Reserved words that belong to an item, whether it starts with them or they come before it. -/
def Keyword.startsItem : Keyword → Bool
  | exportKw | declareKw | functionKw | interfaceKw | classKw | abstractKw | enumKw | constKw | letKw
  | varKw | typeKw | namespaceKw | moduleKw | importKw => true
  | _ => false

/-- Tokens that start nothing and are no brace. -/
def Kind.isStray : Kind → Bool
  | .keyword k => !k.startsItem
  | .symbol s => s ≠ .lbrace && s ≠ .rbrace
  | .eof => false
  | _ => true

/-- Tokens that start nothing, whatever stands behind them. The word `global` could have a block
behind it. -/
structure Strays (ls : List Lexeme) : Prop where
  stray : ∀ l ∈ ls, l.kind.isStray = true
  last : ∀ l ∈ ls.getLast?, l.kind ≠ .ident "global"

/-- A statement that is passed, up to its semicolon: an import, or an export from elsewhere behind
the word `export`. -/
structure PassedStatement (exported : Bool) (k : Kind) (ls : List Lexeme) : Prop where
  head : k = .keyword .importKw ∨ exported = true ∧ (k = .keyword .asKw ∨ k = .symbol .star)
  noSemicolon : ∀ l ∈ ls, l.kind ≠ .semicolon

/-! ## Outlines -/

/-- A part of a source. -/
inductive Part where
  /-- An item as it is printed at a place. -/
  | item (p : Place) (i : Item)
  /-- A statement that is passed, from a token of the kind on and without its semicolon. -/
  | statement (p : Place) (doc : Option String) (k : Kind) (ls : List Lexeme)
  /-- A list of names to export from another module. The module is not kept. -/
  | reexport (names : List (String × Option String)) (module : String)
  /-- Tokens that are passed one by one. -/
  | strays (ls : List Lexeme)
  /-- A namespace around parts. -/
  | ns (p : Place) (name : String) (doc : Option String) (parts : List Part)
  /-- An ambient module around parts. Its documentation is not kept. -/
  | ambientModule (p : Place) (name : String) (doc : Option String) (parts : List Part)

mutual

/-- The lexemes of a part. -/
def Part.lexemes : Part → List Lexeme
  | .item p i => i.lexemes p
  | .statement p doc k ls =>
    documented doc (p.lexemes false ++ { kind := k } :: (ls ++ [.sym .semicolon]))
  | .reexport names module =>
    .kw .exportKw :: .sym .lbrace :: (separated .comma (names.map exportedNameLexemes) ++
      [.sym .rbrace, .kw .fromKw, { kind := .string module }, .sym .semicolon])
  | .strays ls => ls
  | .ns p name doc parts =>
    documented (doc.map rereadDoc) (p.lexemes true ++ (.kw .namespaceKw :: (lexemesOf name ++
      (.sym .lbrace :: (lexemesParts parts ++ [.sym .rbrace])))))
  | .ambientModule p name doc parts =>
    documented doc (p.lexemes true ++ (moduleLexemes name ++
      (.sym .lbrace :: (lexemesParts parts ++ [.sym .rbrace]))))

/-- The lexemes of parts one after the other. -/
def lexemesParts : List Part → List Lexeme
  | [] => []
  | x :: xs => x.lexemes ++ lexemesParts xs

end

mutual

/-- The item that a part is, if it is one. -/
def Part.item? : Part → Option Item
  | .item _ i => some i
  | .statement .. | .strays _ => none
  | .reexport names _ => some (.exportStatement (.named names))
  | .ns _ name doc parts => some (.decl (.ns ⟨name, doc, itemsOf parts⟩))
  | .ambientModule _ name _ parts => some (.ambientModule name (itemsOf parts))

/-- The items among some parts. -/
def itemsOf : List Part → List Item
  | [] => []
  | x :: xs => x.item?.toList ++ itemsOf xs

end

mutual

/-- Whether each part tells what it is. -/
def Part.Legible : Part → Prop
  | .item _ i => i.Legible
  | .statement p _ k ls => PassedStatement p.exported k ls
  | .reexport names _ => (Export.named names).Legible
  | .strays ls => Strays ls
  | .ns _ name _ parts => DottedPath name ∧ legibleParts parts
  | .ambientModule _ _ _ parts => legibleParts parts

/-- Each part of a list. -/
def legibleParts : List Part → Prop
  | [] => True
  | x :: xs => x.Legible ∧ legibleParts xs

end

theorem itemsOf_append (xs ys : List Part) : itemsOf (xs ++ ys) = itemsOf xs ++ itemsOf ys := by
  induction xs with
  | nil => rfl
  | cons x xs ih => rw [List.cons_append, itemsOf, itemsOf, ih, List.append_assoc]

theorem lexemesParts_append (xs ys : List Part) :
    lexemesParts (xs ++ ys) = lexemesParts xs ++ lexemesParts ys := by
  induction xs with
  | nil => rfl
  | cons x xs ih => rw [List.cons_append, lexemesParts, lexemesParts, ih, List.append_assoc]

theorem legibleParts_append {xs ys : List Part} :
    legibleParts (xs ++ ys) ↔ legibleParts xs ∧ legibleParts ys := by
  induction xs with
  | nil => simp [legibleParts]
  | cons x xs ih => rw [List.cons_append, legibleParts, legibleParts, ih, and_assoc]

/-! ## Braces -/

/-- What stands behind the brace that closes the one that is open, `depth` more being open inside
it. -/
def behindBrace : (depth : Nat) → List Kind → Option (List Kind)
  | _, [] => none
  | depth, k :: ks =>
    match k with
    | .symbol .lbrace => behindBrace (depth + 1) ks
    | .symbol .rbrace =>
      match depth with
      | 0 => some ks
      | d + 1 => behindBrace d ks
    | _ => behindBrace depth ks

/-- The braces among the tokens are closed by each other. -/
def Braced (ks : List Kind) : Prop :=
  ∀ depth behind, behindBrace depth (ks ++ behind) = behindBrace depth behind

namespace Braced

variable {ks ls : List Kind}

theorem nil : Braced [] := fun _ _ => rfl

theorem append (hk : Braced ks) (hl : Braced ls) : Braced (ks ++ ls) := by
  intro depth behind
  rw [List.append_assoc, hk, hl]

theorem of_noBrace (h : ∀ k ∈ ks, k ≠ .lbrace ∧ k ≠ .rbrace) : Braced ks := by
  induction ks with
  | nil => exact nil
  | cons k ks ih =>
    intro depth behind
    obtain ⟨hopen, hclose⟩ := h k List.mem_cons_self
    rw [List.cons_append, behindBrace]
    · exact ih (fun l hl => h l (List.mem_cons_of_mem k hl)) depth behind
    · exact hopen
    · exact hclose

theorem braces (h : Braced ks) : Braced (.lbrace :: (ks ++ [.rbrace])) := by
  intro depth behind
  rw [List.cons_append, List.append_assoc]
  show behindBrace (depth + 1) (ks ++ ([Kind.rbrace] ++ behind)) = _
  rw [h]
  rfl

end Braced

mutual

/-- No item and no statement of a part has a brace without a partner. -/
def Part.Braced : Part → Prop
  | .item p i => Ambient.Braced ((i.lexemes p).map Lexeme.kind)
  | .statement _ _ _ ls => Ambient.Braced (ls.map Lexeme.kind)
  | .reexport names _ =>
    Ambient.Braced ((separated .comma (names.map exportedNameLexemes)).map Lexeme.kind)
  | .strays _ => True
  | .ns _ _ _ parts => bracedParts parts
  | .ambientModule _ _ _ parts => bracedParts parts

/-- Each part of a list. -/
def bracedParts : List Part → Prop
  | [] => True
  | x :: xs => x.Braced ∧ bracedParts xs

end

theorem map_kind_documented (d : Option String) (ls : List Lexeme) :
    (documented d ls).map Lexeme.kind = ls.map Lexeme.kind := by
  cases ls <;> rfl

theorem Place.braced (p : Place) (runtime : Bool) :
    Braced ((p.lexemes runtime).map Lexeme.kind) := by
  refine .of_noBrace ?_
  obtain ⟨exported, ambient⟩ := p
  cases exported <;> cases ambient <;> cases runtime <;> decide

theorem DottedPath.braced {name : String} (h : DottedPath name) :
    Braced ((lexemesOf name).map Lexeme.kind) := by
  have hword {k : Kind} {s : String} (hk : k.wordText? = some s) : k ≠ .lbrace ∧ k ≠ .rbrace := by
    constructor <;> rintro rfl <;> cases hk
  obtain ⟨a, ws, ps, k, ks, -, -, hkept, -, hk, hkinds, hws, -⟩ :=
    Dotted.kept (fun _ => Binder.word) h
  rw [hkept.map_kind, hkinds]
  refine .of_noBrace (List.forall_mem_cons.2 ⟨hword hk, fun l hl => ?_⟩)
  obtain ⟨k', hk', hl⟩ := List.mem_flatMap.1 hl
  obtain ⟨w, -, hw⟩ := List.mem_map.1 (hws ▸ List.mem_map_of_mem (f := Kind.wordText?) hk')
  rcases List.mem_cons.1 hl with rfl | hl
  · decide
  · rw [List.mem_singleton.1 hl]
    exact hword hw.symm

theorem braced_moduleLexemes (name : String) : Braced ((moduleLexemes name).map Lexeme.kind) := by
  unfold moduleLexemes
  split <;> exact .of_noBrace (by simp)

mutual

theorem Part.braced_lexemes : (x : Part) → x.Legible → x.Braced →
    Ambient.Braced (x.lexemes.map Lexeme.kind)
  | .item p i, _, hb => by
    rw [Part.Braced] at hb
    rwa [Part.lexemes]
  | .statement p doc k ls, h, hb => by
    rw [Part.Legible] at h
    rw [Part.Braced] at hb
    have hk : Ambient.Braced [k] := by
      refine .of_noBrace ?_
      rcases h.head with rfl | ⟨-, rfl | rfl⟩ <;> simp
    rw [Part.lexemes, map_kind_documented, List.map_append, List.map_cons, List.map_append]
    exact (p.braced false).append (hk.append (hb.append (.of_noBrace (by simp))))
  | .reexport names module, _, hb => by
    have hword : Ambient.Braced [.keyword .exportKw] := .of_noBrace (by simp)
    have hends : Ambient.Braced [.keyword .fromKw, .string module, .semicolon] :=
      .of_noBrace (by simp)
    rw [Part.Braced] at hb
    simpa [Part.lexemes] using hword.append (hb.braces.append hends)
  | .strays ls, h, _ => by
    rw [Part.Legible] at h
    rw [Part.lexemes]
    refine .of_noBrace fun k hk => ?_
    obtain ⟨l, hl, rfl⟩ := List.mem_map.1 hk
    have hstray := h.stray l hl
    constructor <;> intro he <;> rw [he] at hstray <;> cases hstray
  | .ns p name doc parts, h, hb => by
    rw [Part.Legible] at h
    rw [Part.Braced] at hb
    have hparts := braced_lexemesParts parts h.2 hb
    simp only [Part.lexemes, map_kind_documented, List.map_append, List.map_cons, List.map_nil]
    have hword : Ambient.Braced [.keyword .namespaceKw] := .of_noBrace (by simp)
    exact (p.braced true).append (hword.append (h.1.braced.append hparts.braces))
  | .ambientModule p name doc parts, h, hb => by
    rw [Part.Legible] at h
    rw [Part.Braced] at hb
    have hparts := braced_lexemesParts parts h hb
    simp only [Part.lexemes, map_kind_documented, List.map_append, List.map_cons, List.map_nil]
    exact (p.braced true).append ((braced_moduleLexemes name).append hparts.braces)

theorem braced_lexemesParts : (xs : List Part) → legibleParts xs → bracedParts xs →
    Ambient.Braced ((lexemesParts xs).map Lexeme.kind)
  | [], _, _ => by
    rw [lexemesParts]
    exact .nil
  | x :: xs, h, hb => by
    rw [legibleParts] at h
    rw [bracedParts] at hb
    rw [lexemesParts, List.map_append]
    exact (x.braced_lexemes h.1 hb.1).append (braced_lexemesParts xs h.2 hb.2)

end

/-- **The brace at the end of a block is the one that counting finds.** -/
theorem behindBrace_lexemesParts {xs : List Part} (h : legibleParts xs) (hb : bracedParts xs)
    (us : List Lexeme) :
    behindBrace 0 ((lexemesParts xs ++ .sym .rbrace :: us).map Lexeme.kind) =
      some (us.map Lexeme.kind) := by
  rw [List.map_append, braced_lexemesParts xs h hb]
  rfl

end Ambient
