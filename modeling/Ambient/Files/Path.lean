import Ambient.Text.Lines

/-!
# Paths

A path is a text in which slashes separate names; names mean something only when a file tree is
asked for them. `join` and `parent?` work on the text alone: repeated slashes, slashes at the end
and dots between names do not count as names, and `..` is a name like any other.
-/

namespace Ambient

/-- A path as written. -/
structure Path where
  text : String
  deriving DecidableEq, Repr

namespace Path

/-- Whether a path starts at the root of all paths. -/
def isAbsolute (p : Path) : Bool :=
  p.text.toList.head? = some '/'

/-- Whether a path has a slash at its end, and so means a directory. -/
def endsInSlash (p : Path) : Bool :=
  p.text.toList.getLast? = some '/'

/-- Whether a path has a NUL character, which no name can have. -/
def hasNul (p : Path) : Bool :=
  p.text.toList.contains '\x00'

/-- A path from another one. An absolute path stands for itself. -/
def join (p q : Path) : Path :=
  if q.isAbsolute then q
  else if p.text = "" ∨ p.endsInSlash then ⟨p.text ++ q.text⟩
  else ⟨p.text ++ "/" ++ q.text⟩

/-- Drops parts that are no names at the front of a list of parts from the last to the first. The
very first part of a path is a name even if it is a dot. -/
def dropEmpty : List (List Char) → List (List Char)
  | [] => []
  | [p] => [p]
  | p :: q :: ps => if p = [] ∨ p = ['.'] then dropEmpty (q :: ps) else p :: q :: ps

/-- A path from its parts from the last to the first. -/
def ofPartsRev : List (List Char) → List Char
  | [] => []
  | [p] => p
  | p :: q :: ps => ofPartsRev (q :: ps) ++ '/' :: p

/-- The path without its last name. The empty path and the root of all paths have none. -/
def parent? (p : Path) : Option Path :=
  match dropEmpty (Text.parts '/' p.text.toList).reverse with
  | [] | [[]] => none
  | [_] => some ⟨""⟩
  | _ :: ps =>
    match dropEmpty ps with
    | [[]] => some ⟨"/"⟩
    | qs => some ⟨String.ofList (ofPartsRev qs)⟩

/-- The directory to make a file in that gets the path. -/
def directory (p : Path) : Path :=
  match p.parent? with
  | none => ⟨"."⟩
  | some d => if d.text = "" then ⟨"."⟩ else d

/-- The parts of a path that count. Empty parts do not, nor do dots behind the first part. -/
def components (p : Path) : List (List Char) :=
  match Text.parts '/' p.text.toList with
  | [] => []
  | first :: others =>
    [first].filter (· ≠ []) ++ others.filter fun q => q ≠ [] ∧ q ≠ ['.']

/-- Whether two paths differ at most in how they are written: both start at the root or neither
does, and the same parts count. -/
def agrees (p q : Path) : Bool :=
  p.isAbsolute = q.isAbsolute ∧ p.components = q.components

/-- The names in a path, dots included. -/
def names (p : Path) : List String :=
  ((Text.parts '/' p.text.toList).filter (· ≠ [])).map String.ofList

/-- A path and its parents, as many as a bound allows. -/
def ancestorsUpTo : Nat → Path → List Path
  | 0, p => [p]
  | n + 1, p =>
    match p.parent? with
    | none => [p]
    | some q => p :: ancestorsUpTo n q

/-- A path, its parent, the parent of that, and so on. -/
def ancestors (p : Path) : List Path :=
  ancestorsUpTo p.text.length p

end Path

end Ambient
