import PropertyTree.Document.Record
import PropertyTree.Manifest.Basic
import PropertyTree.Value.Document

/-!
# Manifests and documents

`Manifest.toDocument` is the document a manifest is saved as, and `Manifest.read?` makes a
manifest of a tree that a text delivers.  Fields come in a fixed order with the unknown ones last;
variables are left out when there are none, properties and options when they are null.

Reading takes missing fields as empty, except for names and types, and keeps fields that a
manifest, a group or a job does not know.  A variable ignores such fields and may be written as a
list.
-/

namespace PropertyTree

/-! ## Writing -/

/-- A field of a record. -/
def fieldOf (name : String) (value : Document) : Document × Document := (.text name, value)

/-- A field that is left out when its value is null. -/
def fieldUnlessNull (name : String) (value : Value) : List (Document × Document) :=
  if value.isNull then [] else [fieldOf name value.toDocument]

/-- Unknown fields as entries. -/
def Extra.toEntries (extra : Extra) : List (Document × Document) :=
  extra.map fun e => fieldOf e.1 e.2

/-- The document of a job. -/
def Job.toDocument (job : Job) : Document :=
  .map ([fieldOf "name" (.text job.name), fieldOf "release" (.text job.release)] ++
    fieldUnlessNull "properties" job.properties ++ Extra.toEntries job.extra)

/-- The document of a group. -/
def InstanceGroup.toDocument (group : InstanceGroup) : Document :=
  .map ([fieldOf "name" (.text group.name),
      fieldOf "instances" (.atom (.int group.instances.toNat)),
      fieldOf "jobs" (.seq (group.jobs.map Job.toDocument))] ++
    Extra.toEntries group.extra)

/-- The document of a variable. -/
def Variable.toDocument (v : Variable) : Document :=
  .map ([fieldOf "name" (.text v.name), fieldOf "type" (.text v.type)] ++
    fieldUnlessNull "options" v.options)

/-- The document of a manifest. -/
def Manifest.toDocument (manifest : Manifest) : Document :=
  let declared := if manifest.variables.isEmpty then []
    else [fieldOf "variables" (.seq (manifest.variables.map Variable.toDocument))]
  .map ([fieldOf "name" (.text manifest.name),
      fieldOf "instance_groups" (.seq (manifest.groups.map InstanceGroup.toDocument))] ++
    declared ++ Extra.toEntries manifest.extra)

/-! ## Reading -/

/-- The job of a tree. -/
def Job.read? (node : Reading) : Option Job := do
  let record ← node.mapRecord? ["name", "release", "properties"]
  return {
    name := ← record.required? "name" Reading.text?
    release := ← record.withDefault? "release" "" Reading.text?
    properties := ← record.withDefault? "properties" .null Reading.value?
    extra := ← record.extra? }

/-- The group of a tree. -/
def InstanceGroup.read? (node : Reading) : Option InstanceGroup := do
  let record ← node.mapRecord? ["name", "instances", "jobs"]
  return {
    name := ← record.required? "name" Reading.text?
    instances := ← record.withDefault? "instances" 0 Reading.natural?
    jobs := ← record.withDefault? "jobs" [] (Reading.list? Job.read?)
    extra := ← record.extra? }

/-- The variable of a tree. -/
def Variable.read? (node : Reading) : Option Variable := do
  let record ← node.record? ["name", "type", "options"]
  return {
    name := ← record.required? "name" Reading.text?
    type := ← record.required? "type" Reading.text?
    options := ← record.withDefault? "options" .null Reading.value? }

/-- The manifest of a tree. -/
def Manifest.read? (node : Reading) : Option Manifest := do
  let record ← node.mapRecord? ["name", "instance_groups", "variables"]
  return {
    name := ← record.required? "name" Reading.text?
    groups := ← record.withDefault? "instance_groups" [] (Reading.list? InstanceGroup.read?)
    «variables» := ← record.withDefault? "variables" [] (Reading.list? Variable.read?)
    extra := ← record.extra? }

end PropertyTree
