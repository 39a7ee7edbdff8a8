import PropertyTree.Event
import PropertyTree.Path.Basic
import PropertyTree.Path.Query

/-!
# Walking a path

`Value.visit` follows the parents of a path from a root to the container where its last segment
applies, and acts on that container.  A step through a sequence is a query, a step through a mapping
of either kind is a key, and what is reached must be a container again.

A walk that vivifies makes what is missing: a null root becomes an empty string-keyed mapping, and a
key below it that is missing or null gets an empty any-keyed mapping.  Such a walk never comes back
empty-handed after it made a node, since from there on everything is fresh.

The outcome comes with the tree as the walk left it and with the events on the way, whether the walk
succeeded or not.
-/

namespace PropertyTree

/-- What a walk returns: how it ended, the node it was started on as it is afterwards, and the
events on the way. -/
structure Visit (α : Type) where
  outcome : Except Failure α
  node : Value
  events : List Event

/-- What is done at the container a path leads to: an outcome, and the container afterwards. -/
abbrev Action (α : Type) := Value → Except Failure α × Value

namespace Value

/-- The failure of a step that meets a node that is no container. -/
def blocked (path segment : String) (found : Value) : Failure :=
  .unsupportedContainer path segment found.display found.kind

/-- Whether a child is missing or null, so that a vivifying walk makes a mapping in its place. -/
def isAbsent : Option Value → Bool
  | none => true
  | some child => child.isNull

/-- Follows segments from a node and acts on the container they lead to. -/
def follow {α : Type} (path : String) (vivify : Bool) (act : Action α) :
    List String → Value → Visit α
  | [], node =>
    let (outcome, node) := act node
    ⟨outcome, node, []⟩
  | segment :: rest, node =>
    match node with
    | scalar _ => ⟨.error (blocked path segment node), node, []⟩
    | seq items =>
      match matchQuery path segment items with
      | .error failure => ⟨.error failure, node, []⟩
      | .ok (index, item) =>
        let below := follow path vivify act rest item
        ⟨below.outcome, seq (items.set index below.node),
          .queryMatched segment path index :: below.events⟩
    | strMap _ | anyMap _ =>
      let child := node.child? segment
      if vivify && isAbsent child then
        let below := follow path vivify act rest (anyMap [])
        ⟨below.outcome, node.setChild segment below.node, .vivified segment :: below.events⟩
      else
        let found := child.getD null
        if found.isContainer then
          let below := follow path vivify act rest found
          ⟨below.outcome, node.setChild segment below.node, below.events⟩
        else ⟨.error (blocked path segment found), node, []⟩

/-- The root that a walk starts on: a vivifying walk takes a null root for an empty string-keyed
mapping. -/
def walkRoot (vivify : Bool) (root : Value) : Value :=
  if vivify && root.isNull then strMap [] else root

/-- Walks the parents of a path from a root and acts on the container of its last segment. -/
def visit {α : Type} (root : Value) (path : Path) (vivify : Bool) (act : Action α) : Visit α :=
  follow path.text vivify act path.parents (walkRoot vivify root)

/-- Walks to the container of the last segment and leaves it as it is. -/
def resolve (root : Value) (path : Path) (vivify : Bool) : Visit Value :=
  root.visit path vivify fun container => (.ok container, container)

end Value

end PropertyTree
