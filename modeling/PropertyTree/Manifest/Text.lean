import PropertyTree.Json.Reader
import PropertyTree.Json.Writer
import PropertyTree.Manifest.Document
import PropertyTree.Yaml.Reader
import PropertyTree.Yaml.Writer

/-!
# Manifests as texts

Loading manifests from YAML and JSON, and saving them as either.  A manifest that was loaded can be
saved as YAML, and JSON refuses it only when a mapping in it has a key that is not text.  (A YAML
text has at most one tag on a node.  An unknown field that is made by hand with one tag on another
is outside of what is said here.)
-/

namespace PropertyTree

/-- The formats of structured texts. -/
inductive TextFormat where
  | yaml
  | json
  | toml
deriving DecidableEq, Repr

/-- The name of a format. -/
def TextFormat.label : TextFormat → String
  | yaml => "YAML"
  | json => "JSON"
  | toml => "TOML"

/-- A text that could not be read. -/
structure LoadError where
  format : TextFormat
deriving DecidableEq, Repr

/-- The text of a load error, without what is wrong in particular. -/
def LoadError.message (e : LoadError) : String :=
  "invalid " ++ e.format.label

/-- The text of the error of a manifest that JSON cannot hold. -/
def Json.WriteError.saveMessage (e : Json.WriteError) : String :=
  (LoadError.mk .json).message ++ ": " ++ e.message

namespace Manifest

/-- The text of the error of a variable whose name is taken. -/
def DuplicateVariable.message (e : DuplicateVariable) : String :=
  "variable `" ++ e.name ++ "` already exists"

/-- What was read, or the error of a format. -/
def orError {α : Type} (format : TextFormat) : Option α → Except LoadError α
  | some a => .ok a
  | none => .error ⟨format⟩

/-- Loads a manifest from YAML. -/
def ofYaml (text : String) : Logged (Except LoadError Manifest) :=
  match (Yaml.read? text).bind Manifest.read? with
  | some manifest =>
    ⟨.ok manifest, [.manifestLoaded manifest.name manifest.groups.length]⟩
  | none => .quiet (.error ⟨.yaml⟩)

/-- Loads a manifest from JSON. -/
def ofJson (text : String) : Except LoadError Manifest :=
  orError .json ((Json.read? text).bind Manifest.read?)

/-- The manifest as YAML. -/
def toYaml (manifest : Manifest) : String :=
  Yaml.write manifest.toDocument

/-- The manifest as JSON, laid out in lines. -/
def toJson (manifest : Manifest) : Except Json.WriteError String :=
  Json.write .pretty manifest.toDocument

end Manifest

end PropertyTree
