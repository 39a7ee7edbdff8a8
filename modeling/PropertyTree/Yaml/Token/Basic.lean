import PropertyTree.Document.Reading

/-!
# Tokens of a YAML text

A token is a mark of the structure, a property of a node, or a scalar.  The starts and ends of block
collections and the keys of block maps are tokens too, though nothing in the text spells them.

Anchors and aliases carry names of a type `ν`: strings as they are cut from the text, and numbers
once each alias is bound to the anchor it refers to.
-/

namespace PropertyTree

namespace Yaml

/-- A mark, a property or a scalar. -/
inductive Token (ν : Type) where
  | versionDirective (major minor : Nat)
  | tagDirective (handle start : String)
  | documentStart
  | documentEnd
  | blockSequenceStart
  | blockMapStart
  | blockEnd
  | flowSequenceStart
  | flowSequenceEnd
  | flowMapStart
  | flowMapEnd
  | blockEntry
  | flowEntry
  | key
  | value
  | alias (name : ν)
  | anchor (name : ν)
  | tag (handle suffix : String)
  | scalar (text : String) (style : ScalarStyle)
deriving DecidableEq, Repr

end Yaml

end PropertyTree
