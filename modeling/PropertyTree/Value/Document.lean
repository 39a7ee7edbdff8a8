import PropertyTree.Document.Reading
import PropertyTree.Value.Table

/-!
# Values and documents

A value is written as the document of its shape (`Value.toDocument`), and there are two ways back.
`Reading.value?` makes a value of a tree as a text delivers it, and `Value.ofDocument` makes one
of a document that has been read already.  Both unwrap tags, keep integers that fit 64 bits with a
sign and turn larger ones into the nearest double, and choose the kind of a mapping by its keys
(`Value.ofEntries`).
-/

namespace PropertyTree

/-- A leaf as an atom. -/
def Scalar.toAtom : Scalar → Atom
  | null => .null
  | bool b => .bool b
  | int i => .int i.toInt
  | float x => .float x
  | text s => .text s

/-- An integer as a leaf: one that does not fit 64 bits with a sign keeps its magnitude as the
nearest double. -/
def Scalar.ofInt (n : Int) : Scalar :=
  if -9223372036854775808 ≤ n ∧ n < 9223372036854775808 then .int (Int64.ofInt n)
  else .float (Double.ofInt n)

/-- An atom as a leaf. -/
def Scalar.ofAtom : Atom → Scalar
  | .null => null
  | .bool b => bool b
  | .int n => ofInt n
  | .float x => float x
  | .text s => text s

namespace Value

mutual

/-- The document of a value: fields in the order of their keys, in whichever order the list has
them, and entries in their own order. -/
def toDocument : Value → Document
  | scalar s => .atom s.toAtom
  | seq items => .seq (toDocuments items)
  | strMap fields =>
    .map ((Fields.ofList (toDocumentFields fields)).map fun f => (.text f.1, f.2))
  | anyMap entries => .map (toDocumentEntries entries)

/-- The documents of items. -/
def toDocuments : List Value → List Document
  | [] => []
  | item :: rest => item.toDocument :: toDocuments rest

/-- The fields with the documents of their values. -/
def toDocumentFields : List (String × Value) → List (String × Document)
  | [] => []
  | (key, value) :: rest => (key, value.toDocument) :: toDocumentFields rest

/-- The documents of entries. -/
def toDocumentEntries : List (Value × Value) → List (Document × Document)
  | [] => []
  | (key, value) :: rest => (key.toDocument, value.toDocument) :: toDocumentEntries rest

end

mutual

/-- The value of a document. -/
def ofDocument : Document → Value
  | .atom a => scalar (Scalar.ofAtom a)
  | .seq items => seq (ofDocuments items)
  | .map entries => ofEntries (ofDocumentEntries entries)
  | .tagged _ content => ofDocument content

/-- The values of items. -/
def ofDocuments : List Document → List Value
  | [] => []
  | item :: rest => ofDocument item :: ofDocuments rest

/-- The values of entries. -/
def ofDocumentEntries : List (Document × Document) → List (Value × Value)
  | [] => []
  | (key, value) :: rest => (ofDocument key, ofDocument value) :: ofDocumentEntries rest

end

end Value

namespace Reading

/-- An integer as it arrives, negative or not: the negative ones fit 64 bits from `-2 ^ 63` on, the
others below `2 ^ 63`, and one that does not fit becomes the nearest double. -/
def arrivedInt : Int → Scalar
  | .ofNat n =>
    if n < 9223372036854775808 then .int (Int64.ofNat n) else .float (Double.ofNat n)
  | .negSucc n =>
    if n < 9223372036854775808 then .int (Int64.ofInt (.negSucc n))
    else .float (Double.ofInt (.negSucc n))

/-- The leaf of an atom that is read. -/
def arrived : Atom → Scalar
  | .null => .null
  | .bool b => .bool b
  | .int n => arrivedInt n
  | .float x => .float x
  | .text s => .text s

mutual

/-- The value of a tree as a text delivers it. -/
def value? : Reading → Option Value
  | atom a => some (.scalar (arrived a))
  | spelled text style tag => (spelledAtom? text style tag).map fun a => .scalar (arrived a)
  | seq items => (values? items).map .seq
  | map entries => (valueEntries? entries).map Value.ofEntries
  | tagged _ content => content.value?
  | absent => some .null
  | unreadable => none

/-- The values of items. -/
def values? : List Reading → Option (List Value)
  | [] => some []
  | item :: rest => do return (← item.value?) :: (← values? rest)

/-- The values of entries. -/
def valueEntries? : List (Reading × Reading) → Option (List (Value × Value))
  | [] => some []
  | (key, value) :: rest => do return (← key.value?, ← value.value?) :: (← valueEntries? rest)

end

end Reading

end PropertyTree
