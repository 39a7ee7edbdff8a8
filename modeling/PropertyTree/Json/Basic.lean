import PropertyTree.Value.Document

/-!
# JSON trees

A `Json` is a tree in which every object has distinct string keys, kept sorted.  `Json.ofReading?`
makes one of a tree as a text delivers it, the last of several members with one key winning, and
`Json.toValue` makes a property tree of it, in which every object is a string-keyed mapping.

`Json.toDocument` is the tree as a document, for whatever reads documents.
-/

namespace PropertyTree

/-- A tree of atoms, arrays and objects. -/
inductive Json where
  | atom (a : Atom)
  | array (items : List Json)
  | object (members : List (String × Json))
deriving Repr, Inhabited

namespace Json

mutual

/-- The tree as a text delivers it, with the members of objects by key. -/
def ofReading? : Reading → Option Json
  | .atom a => some (atom a)
  | .seq items => (ofReadings? items).map array
  | .map entries => (ofReadingEntries? entries).map fun members => object (Fields.ofList members)
  | _ => none

/-- The trees of items. -/
def ofReadings? : List Reading → Option (List Json)
  | [] => some []
  | item :: rest => do return (← ofReading? item) :: (← ofReadings? rest)

/-- The trees of members with their keys. -/
def ofReadingEntries? : List (Reading × Reading) → Option (List (String × Json))
  | [] => some []
  | (key, value) :: rest => do
    return (← key.text?, ← ofReading? value) :: (← ofReadingEntries? rest)

end

mutual

/-- The document of a tree. -/
def toDocument : Json → Document
  | atom a => .atom a
  | array items => .seq (toDocuments items)
  | object members => .map (toDocumentEntries members)

/-- The documents of items. -/
def toDocuments : List Json → List Document
  | [] => []
  | item :: rest => item.toDocument :: toDocuments rest

/-- The documents of members. -/
def toDocumentEntries : List (String × Json) → List (Document × Document)
  | [] => []
  | (key, value) :: rest => (.text key, value.toDocument) :: toDocumentEntries rest

end

mutual

/-- The property tree of a tree. -/
def toValue : Json → Value
  | atom a => .scalar (Scalar.ofAtom a)
  | array items => .seq (toValues items)
  | object members => .strMap (toFields members)

/-- The property trees of items. -/
def toValues : List Json → List Value
  | [] => []
  | item :: rest => item.toValue :: toValues rest

/-- The property trees of members. -/
def toFields : List (String × Json) → List (String × Value)
  | [] => []
  | (key, value) :: rest => (key, value.toValue) :: toFields rest

end

end Json

end PropertyTree
