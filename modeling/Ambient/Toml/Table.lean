/-!
# TOML documents

The values of a TOML document (`Value`), and tables while a document is read (`Table`). A table
remembers whether a header or a dotted key has named it, which decides what may still be added to
it: no key is set twice, no table has two headers, and dotted keys add only to tables that dotted
keys or deeper headers have made.
-/

namespace Ambient.Toml

/-- A value. -/
inductive Value where
  | string (s : String)
  | integer (n : Int)
  | float (x : Float)
  | boolean (b : Bool)
  | datetime
  | array (vs : List Value)
  | table (fields : List (String × Value))

instance : Inhabited Value := ⟨.table []⟩

mutual

/-- A table that is still open. -/
structure Table where
  /-- No header has named the table. -/
  implicit : Bool
  /-- A dotted key has made the table. -/
  dotted : Bool
  fields : List (String × Entry)

/-- What a key of an open table stands for. -/
inductive Entry where
  | value (v : Value)
  | table (t : Table)
  /-- The tables under a header in double brackets, from the last to the first. -/
  | tables (ts : List Table)

end

namespace Table

/-- An empty table with a header. -/
def fresh : Table := ⟨false, false, []⟩

/-- The entry of a key. -/
def get? (t : Table) (key : String) : Option Entry :=
  (t.fields.find? fun f => f.1 = key).map (·.2)

/-- The table with an entry, in the place of an older one with the same key or at the end. -/
def set (t : Table) (key : String) (e : Entry) : Table :=
  if (t.get? key).isSome then
    { t with fields := t.fields.map fun f => if f.1 = key then (key, e) else f }
  else { t with fields := t.fields ++ [(key, e)] }

/-- The table without a key. -/
def erase (t : Table) (key : String) : Table :=
  { t with fields := t.fields.filter fun f => f.1 ≠ key }

/-- Changes the table at the end of a path, making tables on the way where there are none. A path
of a header leads through the last one of several tables; a dotted key leads only through tables
that no header has named. -/
def modifyAt (dotted : Bool) (change : Table → Option Table) : List String → Table → Option Table
  | [], t => change t
  | key :: path, t =>
    match t.get? key with
    | none => do
      let inner ← modifyAt dotted change path ⟨true, dotted, []⟩
      some (t.set key (.table inner))
    | some (.value _) => none
    | some (.table inner) =>
      if dotted && !inner.implicit then none
      else do
        let inner ← modifyAt dotted change path inner
        some (t.set key (.table inner))
    | some (.tables []) => none
    | some (.tables (last :: ts)) => do
      let last ← modifyAt dotted change path last
      some (t.set key (.tables (last :: ts)))

/-- Sets a key, which may be dotted. -/
def insert (path : List String) (key : String) (v : Value) : Table → Option Table :=
  modifyAt true (fun t =>
    if t.dotted == path.isEmpty || (t.get? key).isSome then none
    else some (t.set key (.value v))) path

mutual

/-- A finished table as a value. -/
def toValue : Table → Value
  | ⟨_, _, fields⟩ => .table (fieldsToValues fields)

/-- The entries of a finished table as values, in their order. -/
def fieldsToValues : List (String × Entry) → List (String × Value)
  | [] => []
  | (key, e) :: fs => (key, entryToValue e) :: fieldsToValues fs

/-- One entry of a finished table as a value. -/
def entryToValue : Entry → Value
  | .value v => v
  | .table t => t.toValue
  | .tables ts => .array (tablesToValues ts).reverse

/-- The tables of an array as values, in the order they are kept in: the last one first. -/
def tablesToValues : List Table → List Value
  | [] => []
  | t :: ts => t.toValue :: tablesToValues ts

end

end Table

/-- A document while it is read: what is finished, and the table under the last header. -/
structure Draft where
  root : Table := .fresh
  current : Table := .fresh
  /-- The path of the last header, empty before the first one. -/
  path : List String := []
  /-- Whether the last header has double brackets. -/
  isArray : Bool := false

namespace Draft

/-- Puts the table under the last header into its place. -/
def close (d : Draft) : Option Table :=
  match d.path.getLast? with
  | none => some d.current
  | some key =>
    d.root.modifyAt false (fun t =>
      match t.get? key with
      | none => some (t.set key (if d.isArray then .tables [d.current] else .table d.current))
      | some (.tables ts) =>
        if d.isArray then some (t.set key (.tables (d.current :: ts))) else none
      | some _ => none) d.path.dropLast

/-- The table at the end of a path of headers. -/
def find? : Table → List String → Option Table
  | t, [] => some t
  | t, key :: path =>
    match t.get? key with
    | some (.table inner) => find? inner path
    | some (.tables (last :: _)) => find? last path
    | _ => none

/-- Starts the table of a header. A table that deeper headers have made keeps what they put
there. -/
def openTable (d : Draft) (path : List String) : Option Draft := do
  let closed ← d.close
  let key ← path.getLast?
  let root ← closed.modifyAt false some path.dropLast
  let parent ← find? root path.dropLast
  match parent.get? key with
  | none => some { root, path }
  | some (.table t) =>
    if t.implicit && !t.dotted then
      let root ← root.modifyAt false (fun t => some (t.erase key)) path.dropLast
      some { root, current := { t with implicit := false }, path }
    else none
  | some _ => none

/-- Starts a table of a header in double brackets. -/
def openArray (d : Draft) (path : List String) : Option Draft := do
  let root ← d.close
  let key ← path.getLast?
  let root ← root.modifyAt false (fun t =>
    match t.get? key with
    | none => some (t.set key (.tables []))
    | some (.tables _) => some t
    | some _ => none) path.dropLast
  some { root, path, isArray := true }

/-- Sets a key, which may be dotted, in the table under the last header. -/
def insert (d : Draft) (path : List String) (key : String) (v : Value) : Option Draft := do
  let current ← d.current.insert path key v
  some { d with current }

/-- The finished document. -/
def finish (d : Draft) : Option Value :=
  d.close.map Table.toValue

end Draft

end Ambient.Toml
