import PropertyTree.Yaml.Node

/-!
# Reading YAML

`Yaml.read?` reads a text with at most one document.  Aliases are replaced by the nodes they refer
to, and the nodes become a `Reading`: scalars keep their spelling, a tag that starts with an
exclamation mark stays as a tag, and any other tag gives a type to a scalar and is without effect
elsewhere.

Aliases can refer to nodes around them and multiply what they refer to.  So containers nested more
than 128 deep are `unreadable`, and so are aliases after too many of them were followed, which is a
hundred for each node of the text.
-/

namespace PropertyTree

namespace Yaml

/-! ## The anchors of a node -/

namespace Node

/-- A node under the number of its anchor. -/
def anchored (properties : Properties) (node : Node) : List (Nat × Node) :=
  match properties.anchor with
  | none => []
  | some number => [(number, node)]

mutual

/-- The nodes with anchors, by their numbers. -/
def anchors : Node → List (Nat × Node)
  | .alias _ => []
  | scalar properties text style => anchored properties (scalar properties text style)
  | seq properties items => anchored properties (seq properties items) ++ itemAnchors items
  | map properties entries => anchored properties (map properties entries) ++ entryAnchors entries

/-- The nodes with anchors in items. -/
def itemAnchors : List Node → List (Nat × Node)
  | [] => []
  | item :: rest => item.anchors ++ itemAnchors rest

/-- The nodes with anchors in entries. -/
def entryAnchors : List (Node × Node) → List (Nat × Node)
  | [] => []
  | (key, value) :: rest => key.anchors ++ value.anchors ++ entryAnchors rest

end

mutual

/-- How many marks a node is made of: one for a leaf, two for a container and those in it. -/
def weight : Node → Nat
  | .alias _ => 1
  | scalar .. => 1
  | seq _ items => itemWeight items + 2
  | map _ entries => entryWeight entries + 2

/-- How many marks items are made of. -/
def itemWeight : List Node → Nat
  | [] => 0
  | item :: rest => item.weight + itemWeight rest

/-- How many marks entries are made of. -/
def entryWeight : List (Node × Node) → Nat
  | [] => 0
  | (key, value) :: rest => key.weight + value.weight + entryWeight rest

end

end Node

/-! ## Tags -/

/-- The type that a whole tag gives to a scalar. -/
def scalarTag (tag : String) : ScalarTag :=
  match tag with
  | "tag:yaml.org,2002:null" => .null
  | "tag:yaml.org,2002:bool" => .bool
  | "tag:yaml.org,2002:int" => .int
  | "tag:yaml.org,2002:float" => .float
  | _ => .other

/-- The name of a tag that starts with an exclamation mark. -/
def localTag? (tag : String) : Option String :=
  match tag.toList with
  | '!' :: name => some (String.ofList name)
  | _ => none

/-- A node under its tag, given what it is under a tag that is not local. -/
def underTag (properties : Properties) (node : Option ScalarTag → Reading) : Reading :=
  match properties.tag with
  | none => node none
  | some tag =>
    match localTag? tag with
    | some name => .tagged name (node none)
    | none => node (some (scalarTag tag))

/-! ## Expansion -/

/-- The node that an alias refers to, and any other node itself.  The state counts how many more
aliases may be followed. -/
def follow (anchors : List (Nat × Node)) (node : Node) : StateM Nat (Option Node) := do
  match node with
  | .alias target =>
    let left ← get
    if left = 0 then return none
    set (left - 1)
    return anchors.lookup target
  | node => return some node

/-- A node with at most `depth` containers inside one another, and aliases replaced. -/
def expand (anchors : List (Nat × Node)) : Nat → Node → StateM Nat Reading
  | 0, node => do
    match ← follow anchors node with
    | some (.scalar properties text style) => return underTag properties (.spelled text style)
    | _ => return .unreadable
  | depth + 1, node => do
    match ← follow anchors node with
    | some (.scalar properties text style) => return underTag properties (.spelled text style)
    | some (.seq properties items) =>
      let items ← items.mapM (expand anchors depth)
      return underTag properties fun _ => .seq items
    | some (.map properties entries) =>
      let entries ← entries.mapM fun e => do
        return (← expand anchors depth e.1, ← expand anchors depth e.2)
      return underTag properties fun _ => .map entries
    | _ => return .unreadable

/-- How many containers may lie inside one another. -/
def maxDepth : Nat := 128

/-- Reads a text with at most one document. -/
def read? (text : String) : Option Reading :=
  (Node.ofText? text).map fun
    | none => .absent
    | some node => (expand node.anchors maxDepth node (100 * node.weight)).1

end Yaml

end PropertyTree
