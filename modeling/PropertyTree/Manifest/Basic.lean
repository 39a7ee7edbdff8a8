import PropertyTree.Document.Basic
import PropertyTree.Event
import PropertyTree.Value.Equality

/-!
# Manifests

A deployment manifest names its instance groups, the jobs of each group, and the variables to
generate.  A job carries a property tree.  Fields of the manifest, of a group or of a job that the
records do not know are kept in `extra`, sorted by name, so that writing a manifest drops nothing.

Jobs are addressed by `Position`: `Manifest.job?` looks one up and `Manifest.setJob` puts one back,
and a position that designates no job is harmless to both.
-/

namespace PropertyTree

/-- Fields that a record does not know, sorted by name. -/
abbrev Extra := List (String × Document)

/-- A named job with its property tree; the tree is null when it is unset. -/
structure Job where
  name : String
  release : String
  properties : Value
  extra : Extra
deriving DecidableEq, Repr

/-- A group of instances that run the same jobs. -/
structure InstanceGroup where
  name : String
  instances : UInt32
  jobs : List Job
  extra : Extra
deriving DecidableEq, Repr

/-- A value to generate, of some type, with options. -/
structure Variable where
  name : String
  type : String
  options : Value
deriving DecidableEq, Repr

/-- A deployment manifest. -/
structure Manifest where
  name : String
  groups : List InstanceGroup
  «variables» : List Variable
  extra : Extra
deriving DecidableEq, Repr

/-! ## Building -/

/-- A job without properties. -/
def Job.new (name release : String) : Job :=
  { name, release, properties := .null, extra := [] }

/-- A group without instances and jobs. -/
def InstanceGroup.new (name : String) : InstanceGroup :=
  { name, instances := 0, jobs := [], extra := [] }

/-- A variable without options. -/
def Variable.new (name type : String) : Variable :=
  { name, type, options := .null }

/-- A manifest with nothing in it. -/
def Manifest.new (name : String) : Manifest :=
  { name, groups := [], «variables» := [], extra := [] }

/-- The group with one more job. -/
def InstanceGroup.withJob (group : InstanceGroup) (job : Job) : InstanceGroup :=
  { group with jobs := group.jobs ++ [job] }

/-- The manifest with one more group. -/
def Manifest.withGroup (manifest : Manifest) (group : InstanceGroup) : Manifest :=
  { manifest with groups := manifest.groups ++ [group] }

namespace Manifest

/-! ## Looking up -/

/-- All jobs, group by group. -/
def jobs (manifest : Manifest) : List Job :=
  manifest.groups.flatMap InstanceGroup.jobs

/-- The first group of a name. -/
def group? (manifest : Manifest) (name : String) : Option InstanceGroup :=
  manifest.groups.find? (·.name == name)

/-- The variable of a name. -/
def variableNamed? (manifest : Manifest) (name : String) : Option Variable :=
  manifest.variables.find? (·.name == name)

/-- The job at a position. -/
def job? (manifest : Manifest) (p : Position) : Option Job :=
  manifest.groups[p.group]?.bind (·.jobs[p.job]?)

/-! ## Changing -/

/-- Puts a job in the place of the one at a position. -/
def setJob (manifest : Manifest) (p : Position) (job : Job) : Manifest :=
  { manifest with
    groups := manifest.groups.modify p.group fun group =>
      { group with jobs := group.jobs.set p.job job } }

/-- Why a variable was not added. -/
structure DuplicateVariable where
  name : String
deriving DecidableEq, Repr

/-- Adds a variable at the end, unless its name is taken. -/
def addVariable (manifest : Manifest) (v : Variable) :
    Logged (Except DuplicateVariable Manifest) :=
  if (manifest.variableNamed? v.name).isSome then .quiet (.error ⟨v.name⟩)
  else
    let manifest := { manifest with «variables» := manifest.variables ++ [v] }
    ⟨.ok manifest, [.variableAdded v.name v.type]⟩

/-- The positions of the jobs of a name in a list of jobs, in order, of which the first has index
`start`. -/
def jobIndices (name : String) (start : Nat) : List Job → List Nat
  | [] => []
  | job :: rest =>
    if job.name = name then start :: jobIndices name (start + 1) rest
    else jobIndices name (start + 1) rest

/-- The positions of the jobs of a name in the groups that pass a test, in order; the first group
has index `start`. -/
def findIn (test : InstanceGroup → Bool) (name : String) (start : Nat) :
    List InstanceGroup → List Position
  | [] => []
  | group :: rest =>
    (if test group then (jobIndices name 0 group.jobs).map (Position.mk start) else []) ++
      findIn test name (start + 1) rest

/-- The positions of all jobs of a name, or of those in the groups of a name. -/
def findJobs (manifest : Manifest) (group? : Option String) (name : String) : List Position :=
  let test (group : InstanceGroup) : Bool := match group? with
    | none => true
    | some wanted => group.name == wanted
  findIn test name 0 manifest.groups

end Manifest

/-! ## Comparison

Records are equal when their fields are: property trees and options as values, unknown fields as
documents. -/

/-- Equality of unknown fields. -/
def Extra.equal (a b : Extra) : Bool :=
  a.length == b.length && (a.zip b).all fun (x, y) => x.1 == y.1 && x.2.equal y.2

/-- Equality of jobs. -/
def Job.equal (a b : Job) : Bool :=
  a.name == b.name && a.release == b.release && a.properties.equal b.properties &&
    Extra.equal a.extra b.extra

/-- Equality of groups. -/
def InstanceGroup.equal (a b : InstanceGroup) : Bool :=
  a.name == b.name && a.instances == b.instances && a.jobs.length == b.jobs.length &&
    (a.jobs.zip b.jobs).all (fun (x, y) => x.equal y) && Extra.equal a.extra b.extra

/-- Equality of variables. -/
def Variable.equal (a b : Variable) : Bool :=
  a.name == b.name && a.type == b.type && a.options.equal b.options

/-- Equality of manifests. -/
def Manifest.equal (a b : Manifest) : Bool :=
  a.name == b.name && a.groups.length == b.groups.length &&
    (a.groups.zip b.groups).all (fun (x, y) => x.equal y) &&
    a.variables.length == b.variables.length &&
    (a.variables.zip b.variables).all (fun (x, y) => x.equal y) && Extra.equal a.extra b.extra

end PropertyTree
