import PropertyTree.Document.Basic

/-!
# Tables of TOML

A text builds its tables step by step: key by key, with dotted keys that make tables on their way,
and under headers that open tables and arrays of tables.  What may still be added to a table
depends on how it came about, so a `Table` remembers that: `implicit` ones were only passed
through on the way to another one, and `dotted` ones were made by a dotted key.

A key must not be defined twice, a table must not be opened twice, and a dotted key must not reach
into a table that has been opened.
-/

namespace PropertyTree

namespace Toml

mutual

/-- What stands under a key. -/
inductive Item where
  | value (node : Document)
  | table (t : Table)
  | tables (ts : List Table)

/-- A table with its items in order. -/
inductive Table where
  | mk (implicit dotted : Bool) (items : List (String × Item))

end

namespace Table

/-- A table that was only passed through. -/
def implicit : Table → Bool
  | mk implicit _ _ => implicit

/-- A table that was made by a dotted key. -/
def dotted : Table → Bool
  | mk _ dotted _ => dotted

/-- The items of a table. -/
def items : Table → List (String × Item)
  | mk _ _ items => items

/-- An opened table without items. -/
def empty : Table := mk false false []

/-- The table with other items. -/
def withItems (t : Table) (items : List (String × Item)) : Table :=
  mk t.implicit t.dotted items

/-- The item under a key. -/
def get? (t : Table) (key : String) : Option Item :=
  t.items.lookup key

/-- Puts an item under a key, in the place of the one that is there or as the last one. -/
def put (t : Table) (key : String) (item : Item) : Table :=
  if (t.get? key).isSome then
    t.withItems (t.items.map fun e => if e.1 = key then (key, item) else e)
  else t.withItems (t.items ++ [(key, item)])

/-- Drops the item under a key. -/
def erase (t : Table) (key : String) : Table :=
  t.withItems (t.items.filter (·.1 != key))

/-- Changes the table at the end of a path, making tables on the way.  Of an array of tables the
last one is taken.  A dotted path must not pass through a table that was opened. -/
def update? (dotted : Bool) (change : Table → Option Table) : List String → Table → Option Table
  | [], t => change t
  | key :: rest, t =>
    match (t.get? key).getD (.table (mk true dotted [])) with
    | .value _ => none
    | .table child =>
      if dotted && !child.implicit then none
      else (update? dotted change rest child).map fun child => t.put key (.table child)
    | .tables ts =>
      match ts.getLast? with
      | none => none
      | some last =>
        (update? dotted change rest last).map fun last =>
          t.put key (.tables (ts.dropLast ++ [last]))

/-- Adds a value under a key that is not there yet. -/
def define? (key : String) (node : Document) (t : Table) : Option Table :=
  if (t.get? key).isSome then none else some (t.put key (.value node))

/-- Adds a value under a dotted key: the tables on the way and the last part.  A table that no
dotted key made takes no value from one. -/
def assign? (path : List String) (key : String) (node : Document) (t : Table) : Option Table :=
  update? true (fun t => if t.dotted == path.isEmpty then none else define? key node t) path t

end Table

mutual

/-- An item as a document. -/
def Item.toDocument : Item → Document
  | .value node => node
  | .table t => t.toDocument
  | .tables ts => .seq (tableDocuments ts)

/-- A table as a document. -/
def Table.toDocument : Table → Document
  | .mk _ _ items => .map (itemDocuments items)

/-- Tables as documents. -/
def tableDocuments : List Table → List Document
  | [] => []
  | t :: rest => t.toDocument :: tableDocuments rest

/-- The items of a table as entries. -/
def itemDocuments : List (String × Item) → List (Document × Document)
  | [] => []
  | (key, item) :: rest => (.text key, item.toDocument) :: itemDocuments rest

end

/-! ## Building a text's tables -/

/-- The tables of a text so far: the finished ones, and the one that keys are added to. -/
structure Builder where
  root : Table
  /-- The header of the open table; the open table is the root if there is none. -/
  header : Option (List String × String)
  /-- Whether the open table is the next one of an array. -/
  inArray : Bool
  current : Table

namespace Builder

/-- Nothing yet. -/
def start : Builder := ⟨.empty, none, false, .empty⟩

/-- Adds the open table to an array of tables. -/
def push? (key : String) (current : Table) (t : Table) : Option Table :=
  match (t.get? key).getD (.tables []) with
  | .tables ts => some (t.put key (.tables (ts ++ [current])))
  | _ => none

/-- Puts the open table in its place, which may hold a table that was only passed through. -/
def place? (key : String) (current : Table) (t : Table) : Option Table :=
  match t.get? key with
  | none => some (t.put key (.table current))
  | some (.table other) => if other.implicit then some (t.put key (.table current)) else none
  | some _ => none

/-- The root with the open table in its place. -/
def close? (b : Builder) : Option Table :=
  match b.header with
  | none => some b.current
  | some (path, key) =>
    b.root.update? false (if b.inArray then push? key b.current else place? key b.current) path

/-- Adds a value to the open table. -/
def assign? (b : Builder) (path : List String) (key : String) (node : Document) :
    Option Builder :=
  (b.current.assign? path key node).map fun current => { b with current }

/-- The table that a header opens: a new one, or one that was only passed through. -/
def opened? (key : String) (t : Table) : Option Table :=
  match t.get? key with
  | none => some .empty
  | some (.table other) =>
    if other.implicit && !other.dotted then some (Table.empty.withItems other.items) else none
  | some _ => none

/-- The table at the end of a path. -/
def tableAt? (path : List String) (root : Table) : Option (Table × Table) := do
  let root ← root.update? false some path
  let rec descend : List String → Table → Option Table
    | [], t => some t
    | key :: rest, t =>
      match t.get? key with
      | some (.table child) => descend rest child
      | some (.tables ts) => ts.getLast?.bind (descend rest)
      | _ => none
  return (← descend path root, root)

/-- Opens the table of a header. -/
def openTable? (b : Builder) (path : List String) (key : String) : Option Builder := do
  let (parent, root) ← tableAt? path (← b.close?)
  let current ← opened? key parent
  let root ← root.update? false (fun t => some (t.erase key)) path
  return { root, header := some (path, key), inArray := false, current }

/-- Opens the next table of an array of tables. -/
def openArray? (b : Builder) (path : List String) (key : String) : Option Builder := do
  let root ← (← b.close?).update? false (fun t =>
    match t.get? key with
    | none => some (t.put key (.tables []))
    | some (.tables _) => some t
    | some _ => none) path
  return { root, header := some (path, key), inArray := true, current := .empty }

end Builder

end Toml

end PropertyTree
