import PropertyTree.Document.Reading

/-!
# Reading records

A record is read from a map by the names of its fields.  `Record.ofEntries?` sorts the entries of
a map into the fields that the record knows, none of which may be repeated, and the other ones in
their order.  What becomes of the others is up to the record: some ignore them, some keep them
(`Record.extra?`).

Some records may also be written as a list of their fields in order, with the last ones left out;
`Reading.record?` accepts both forms.
-/

namespace PropertyTree

/-- The entries of a map by the field names of a record. -/
structure Record where
  /-- The fields that the record knows, each at most once. -/
  known : List (String × Reading)
  /-- The other entries in their order. -/
  others : List (String × Reading)

namespace Record

/-- Adds an entry; a field that is there already is a fault. -/
def add? (names : List String) (record : Record) (key : String) (value : Reading) :
    Option Record :=
  if names.contains key then
    if record.known.any (·.1 == key) then none
    else some { record with known := record.known ++ [(key, value)] }
  else some { record with others := record.others ++ [(key, value)] }

/-- The record of entries, whose keys must be leaves. -/
def ofEntries? (names : List String) (entries : List (Reading × Reading)) : Option Record :=
  entries.foldlM (fun record e => do record.add? names (← e.1.text?) e.2) ⟨[], []⟩

/-- The record of a list of fields in the order of their names. -/
def ofItems? (names : List String) (items : List Reading) : Option Record :=
  if names.length < items.length then none else some ⟨names.zip items, []⟩

/-- The node of a field. -/
def field? (record : Record) (name : String) : Option Reading :=
  (record.known.find? (·.1 == name)).map Prod.snd

/-- Reads a field that must be there. -/
def required? {α : Type} (record : Record) (name : String) (read : Reading → Option α) :
    Option α :=
  (record.field? name).bind read

/-- Reads a field that has a default when it is missing. -/
def withDefault? {α : Type} (record : Record) (name : String) (default : α)
    (read : Reading → Option α) : Option α :=
  match record.field? name with
  | none => some default
  | some node => read node

/-- An entry that is kept: data without tags in which no map repeats a key. -/
def kept? (e : String × Reading) : Option (String × Document) := do
  let buffered ← e.2.buffered?
  return (e.1, ← buffered.toReading.document?)

/-- The other entries as data, sorted by key; the last of several under one key stays. -/
def extra? (record : Record) : Option (List (String × Document)) :=
  (record.others.mapM kept?).map Fields.ofList

end Record

namespace Reading

/-- The record of a map. -/
def mapRecord? (names : List String) (node : Reading) : Option Record :=
  node.entries?.bind (Record.ofEntries? names)

/-- The record of a map or of a list of fields. -/
def record? (names : List String) (node : Reading) : Option Record :=
  match node.bare with
  | seq items => Record.ofItems? names items
  | node => node.mapRecord? names

/-- The items of a sequence, each read as the same. -/
def list? {α : Type} (read : Reading → Option α) (node : Reading) : Option (List α) :=
  node.items?.bind fun items => items.mapM read

end Reading

end PropertyTree
