import PropertyTree.Path.Walk

/-!
# The last segment of a path

What the last segment does to the container that the parents lead to: `Value.set` and `Value.remove`
work on mappings, `Value.lookup` also on sequences, whose items are addressed by decimal digits.
`Value.getScalar` reads a scalar of a wanted type.

`Value.setAt`, `Value.removeAt`, `Value.lookupAt` and `Value.getScalarAt` do the same at the end
of a whole path.
-/

namespace PropertyTree

/-- The scalar types that a property can be read as. -/
inductive PropertyType where
  | int
  | text
  | bool
deriving DecidableEq, Repr

namespace PropertyType

/-- The kind of the leaves of a type. -/
def kind : PropertyType → Kind
  | int => .int
  | text => .text
  | bool => .bool

/-- The scalar of a node, if it is of the type. -/
def extract? (type : PropertyType) : Value → Option Scalar
  | .scalar s => if s.kind = type.kind then some s else none
  | _ => none

end PropertyType

/-- The number that decimal digits spell, if it is below `2 ^ 64`. -/
def wordIndex? (digits : List Char) : Option Nat :=
  let n := decimalValue digits
  if n < 18446744073709551616 then some n else none

namespace Value

/-! ## At one container -/

/-- The failure of an access that a container does not allow. -/
def refused (access : Access) (path : String) (container : Value) : Failure :=
  .unsupportedAccess access path container.kind

/-- Stores a value under a key of a mapping. -/
def set (segment path : String) (value : Value) : Action Unit
  | strMap fields => (.ok (), strMap (Fields.insert fields segment value))
  | anyMap entries => (.ok (), anyMap (Table.put entries (text segment) value))
  | container => (.error (refused .set path container), container)

/-- Drops a key of a mapping and returns what was under it; a missing key is no failure. -/
def remove (segment path : String) : Action (Option Value)
  | strMap fields => (.ok (Fields.get? fields segment), strMap (Fields.erase fields segment))
  | anyMap entries =>
    let (removed, entries) := Table.removeText entries segment
    (.ok removed, anyMap entries)
  | container => (.error (refused .remove path container), container)

/-- The node that a segment addresses in a container: the value under a key, null if it is missing,
or the item at an index.  A number of `2 ^ 64` or more is past the end of every sequence. -/
def lookup (container : Value) (segment path : String) : Except Failure Value :=
  match container with
  | strMap _ | anyMap _ => .ok ((container.child? segment).getD null)
  | seq items =>
    match SegmentClass.ofText segment with
    | .index digits =>
      match (wordIndex? digits.toList).bind (items[·]?) with
      | some item => .ok item
      | none => .error (.indexOutOfRange path digits items.length)
    | _ => .error (.indexNotNumeric path segment)
  | scalar _ => .error (refused .read path container)

/-- The scalar of a type that a segment addresses in a container. -/
def getScalar (type : PropertyType) (container : Value) (segment path : String) :
    Except Failure Scalar :=
  match container.lookup segment path with
  | .error failure => .error failure
  | .ok node =>
    match type.extract? node with
    | some s => .ok s
    | none => .error (.typeMismatch path type.kind node.display node.kind)

/-! ## At the end of a path -/

/-- Stores a value at a path, making what is missing if the walk vivifies. -/
def setAt (root : Value) (path : Path) (vivify : Bool) (value : Value) : Visit Unit :=
  root.visit path vivify (set path.last path.text value)

/-- Drops the key at a path and returns what was under it. -/
def removeAt (root : Value) (path : Path) (vivify : Bool) : Visit (Option Value) :=
  root.visit path vivify (remove path.last path.text)

/-- The node at a path. -/
def lookupAt (root : Value) (path : Path) (vivify : Bool) : Visit Value :=
  root.visit path vivify fun container => (container.lookup path.last path.text, container)

/-- The scalar of a type at a path. -/
def getScalarAt (type : PropertyType) (root : Value) (path : Path) (vivify : Bool) :
    Visit Scalar :=
  root.visit path vivify fun container =>
    (container.getScalar type path.last path.text, container)

end Value

end PropertyTree
