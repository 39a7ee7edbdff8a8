import PropertyTree.Value.Equality

/-!
# Tables: entries under keys of any kind

A `Table` is the list of entries of an any-keyed mapping.  Look-up takes the first entry whose key
equals the one asked for (`Value.equal`), insertion replaces the value of that entry or adds a new
entry at the end, and so keys keep the place and the form in which they were first inserted.

String keys have look-ups of their own, which compare the text and nothing else: the key `1` is not
found under the text `"1"`.
-/

namespace PropertyTree

/-- The entries of an any-keyed mapping, in the order in which their keys came. -/
abbrev Table := List (Value × Value)

namespace Table

/-! ## Look-up -/

/-- The value of the first entry whose key equals `key`. -/
def get? (table : Table) (key : Value) : Option Value :=
  (table.find? fun e => e.1.equal key).map Prod.snd

/-- The value of the first entry whose key is the string `key`. -/
def getText? (table : Table) (key : String) : Option Value :=
  (table.find? fun e => e.1.text? == some key).map Prod.snd

/-- Whether some key is the string `key`. -/
def containsText (table : Table) (key : String) : Bool :=
  (table.getText? key).isSome

/-! ## Change -/

/-- Stores a value under a key and returns the value it took the place of: the first entry with an
equal key keeps its key, and without one a new entry comes last. -/
def insert : Table → Value → Value → Option Value × Table
  | [], key, value => (none, [(key, value)])
  | (k, v) :: rest, key, value =>
    if k.equal key then (some v, (k, value) :: rest)
    else
      let (previous, rest) := insert rest key value
      (previous, (k, v) :: rest)

/-- The table after an insertion. -/
def put (table : Table) (key value : Value) : Table :=
  (table.insert key value).2

/-- Drops the first entry whose key is a string and returns its value. -/
def removeText : Table → String → Option Value × Table
  | [], _ => (none, [])
  | (k, v) :: rest, key =>
    if k.text? == some key then (some v, rest)
    else
      let (removed, rest) := removeText rest key
      (removed, (k, v) :: rest)

/-- Replaces the value of the first entry whose key passes a test. -/
def assign (test : Value → Bool) (value : Value) : Table → Table
  | [] => []
  | (k, v) :: rest => if test k then (k, value) :: rest else (k, v) :: assign test value rest

/-- Replaces the value under a key; `none` when there is no such key. -/
def replace? (table : Table) (key value : Value) : Option Table :=
  (table.get? key).map fun _ => table.assign (·.equal key) value

/-- Replaces the value under a string key; `none` when there is no such key. -/
def replaceText? (table : Table) (key : String) (value : Value) : Option Table :=
  (table.getText? key).map fun _ => table.assign (·.text? == some key) value

/-- Adds an entry with a default value under a string key that is missing. -/
def ensureText (table : Table) (key : String) (default : Value) : Table :=
  if table.containsText key then table else table ++ [(.text key, default)]

/-- Stores a value under a string key, in place of the first such entry or as a new one. -/
def putText (table : Table) (key : String) (value : Value) : Table :=
  (table.replaceText? key value).getD (table ++ [(.text key, value)])

/-- Gives every entry the same value. -/
def fill (table : Table) (value : Value) : Table :=
  table.map fun e => (e.1, value)

/-- The table built by inserting entries in turn. -/
def ofList (entries : List (Value × Value)) : Table :=
  entries.foldl (fun table e => table.put e.1 e.2) []

/-! ## Insertion returns what was stored -/

theorem insert_fst (table : Table) (key value : Value) :
    (table.insert key value).1 = table.get? key := by
  induction table with
  | nil => rfl
  | cons e rest ih =>
    obtain ⟨k, v⟩ := e
    by_cases h : k.equal key <;> simp_all [insert, get?]

theorem removeText_fst (table : Table) (key : String) :
    (table.removeText key).1 = table.getText? key := by
  induction table with
  | nil => rfl
  | cons e rest ih =>
    obtain ⟨k, v⟩ := e
    by_cases h : k.text? == some key <;> simp_all [removeText, getText?]

end Table

namespace Value

/-! ## Children under string keys, in either kind of mapping -/

/-- The child under a string key; nodes that are no mappings have none. -/
def child? : Value → String → Option Value
  | strMap fields, key => Fields.get? fields key
  | anyMap entries, key => Table.getText? entries key
  | _, _ => none

/-- Stores a child under a string key of a mapping; other nodes stay as they are. -/
def setChild : Value → String → Value → Value
  | strMap fields, key, child => strMap (Fields.insert fields key child)
  | anyMap entries, key, child => anyMap (Table.putText entries key child)
  | node, _, _ => node

/-- Replaces a child that is there; `none` when it is missing. -/
def replaceChild? (node : Value) (key : String) (child : Value) : Option Value :=
  (node.child? key).map fun _ => node.setChild key child

/-- The mapping that entries read from a document make: string-keyed if every key is a string, so
also when there are none, and any-keyed otherwise. -/
def ofEntries (entries : List (Value × Value)) : Value :=
  match entries.mapM fun e => e.1.text?.map (·, e.2) with
  | some fields => strMap (Fields.ofList fields)
  | none => anyMap (Table.ofList entries)

end Value

end PropertyTree
