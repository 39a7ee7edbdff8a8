import PropertyTree.Json.Basic
import PropertyTree.Manifest.Text
import PropertyTree.PatchSet.Document
import PropertyTree.Toml.Reader

/-!
# Values, options and patch sets as texts

Reading a value, selector options or a patch set from any of the formats.
-/

namespace PropertyTree

/-- The tree that a text of a format holds. -/
def TextFormat.read? : TextFormat → String → Option Reading
  | yaml, text => Yaml.read? text
  | json, text => Json.read? text
  | toml, text => Toml.read? text

/-- The value that a text holds. -/
def Value.ofText? (format : TextFormat) (text : String) : Option Value :=
  (format.read? text).bind Reading.value?

/-- The value of the tree that a text holds when it is read without regard to values; only YAML and
JSON have such trees. -/
def Value.ofTree? (format : TextFormat) (text : String) : Option Value :=
  match format with
  | .yaml => ((Yaml.read? text).bind Reading.document?).map Value.ofDocument
  | .json => ((Json.read? text).bind Json.ofReading?).map Json.toValue
  | .toml => none

/-- The selector options that a text holds. -/
def SelectorOptions.ofText? (format : TextFormat) (text : String) : Option SelectorOptions :=
  (format.read? text).bind SelectorOptions.read?

/-- Loads a patch set. -/
def PatchSet.ofText (format : TextFormat) (text : String) : Except LoadError PatchSet :=
  Manifest.orError format ((format.read? text).bind PatchSet.read?)

end PropertyTree
