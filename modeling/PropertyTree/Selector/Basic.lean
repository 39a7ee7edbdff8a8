import PropertyTree.Manifest.Basic
import PropertyTree.Path.Access

/-!
# Selectors: a chain of edits on the jobs of a manifest

A `Selector` holds a manifest, the positions of the selected jobs, and the first failure of the
chain so far.  Once there is a failure, every operation leaves the selector as it is; what was
changed before the failure stays changed.

Positions are recorded when jobs are located and are not revised afterwards, so an edit that moves
jobs about can leave a position that designates no job.  Such positions are passed over.

An edit of properties goes through the selected jobs in order and stops at the first that fails
(`editJobs`).  A read works on exactly one selected job (`readJob`).
-/

namespace PropertyTree

/-- What a selector reports besides what it always reports. -/
structure SelectorOptions where
  /-- Report every call that is skipped because of an earlier failure. -/
  logSkippedCalls : Bool
  /-- Report the positions found by each search. -/
  logMatches : Bool
deriving DecidableEq, Repr

/-- A selector reports neither unless told to. -/
def SelectorOptions.quiet : SelectorOptions := ⟨false, false⟩

/-- A manifest under edit, with the selected positions and the first failure of the chain. -/
structure Selector where
  manifest : Manifest
  positions : List Position
  failure : Option Failure
  options : SelectorOptions
deriving DecidableEq, Repr

/-! ## Edits of several jobs -/

namespace Manifest

/-- Edits the properties of the jobs at some positions in turn, up to the first failure.  A position
without a job is passed over. -/
def editJobs (path : Path) (vivify : Bool) (act : Action Unit) :
    List Position → Manifest → Logged (Option Failure × Manifest)
  | [], manifest => .quiet (none, manifest)
  | p :: rest, manifest =>
    match manifest.job? p with
    | none => editJobs path vivify act rest manifest
    | some job =>
      let visit := job.properties.visit path vivify act
      let manifest := manifest.setJob p { job with properties := visit.node }
      match visit.outcome with
      | .error failure => ⟨(some failure, manifest), visit.events⟩
      | .ok () =>
        let others := editJobs path vivify act rest manifest
        ⟨others.value, visit.events ++ others.events⟩

/-- Passes the jobs at some positions through a function that carries a state. -/
def visitJobs {σ : Type} (f : Job → σ → Job × σ) :
    List Position → Manifest × σ → Manifest × σ
  | [], state => state
  | p :: rest, (manifest, state) =>
    match manifest.job? p with
    | none => visitJobs f rest (manifest, state)
    | some job =>
      let (job, state) := f job state
      visitJobs f rest (manifest.setJob p job, state)

/-- Passes groups through a function that carries a state. -/
def visitGroups {σ : Type} (f : InstanceGroup → σ → InstanceGroup × σ) :
    List InstanceGroup → σ → List InstanceGroup × σ
  | [], state => ([], state)
  | group :: rest, state =>
    let (group, state) := f group state
    let (rest, state) := visitGroups f rest state
    (group :: rest, state)

end Manifest

namespace Selector

/-- A selector with nothing selected. -/
def new (manifest : Manifest) (options : SelectorOptions) : Selector :=
  { manifest, positions := [], failure := none, options }

/-- The selected jobs, in order. -/
def matched (s : Selector) : List Job :=
  s.positions.filterMap s.manifest.job?

/-- The chain ends with the first failure, if there was one. -/
def result (s : Selector) : Except Failure Unit :=
  match s.failure with
  | none => .ok ()
  | some failure => .error failure

/-! ## Failing and skipping -/

/-- Records a failure, unless there is one already. -/
def fail (s : Selector) (failure : Failure) : Logged Selector :=
  match s.failure with
  | some _ => .quiet s
  | none => ⟨{ s with failure := some failure }, [.chainFailed failure]⟩

/-- What a skipped call reports. -/
def skipEvents (s : Selector) (call : Call) (failure : Failure) : List Event :=
  if s.options.logSkippedCalls then [.callSkipped call failure] else []

/-- Performs an operation, or skips it after a failure. -/
def perform (s : Selector) (call : Call) (operation : Selector → Logged Selector) :
    Logged Selector :=
  match s.failure with
  | some failure => ⟨s, s.skipEvents call failure⟩
  | none => operation s

/-! ## Selecting -/

/-- Takes positions as the new selection; an empty one is a failure. -/
def select (s : Selector) (name : String) (positions : List Position) : Logged Selector :=
  let s := { s with positions }
  if positions.isEmpty then s.fail (.entityNotFound name)
  else
    ⟨s, .located positions.length name ::
      if s.options.logMatches then [.matchesFound name positions] else []⟩

/-- Selects every job of a name. -/
def locate (s : Selector) (name : String) : Logged Selector :=
  s.perform .locate fun s => s.select name (s.manifest.findJobs none name)

/-- Selects every job of a name in the groups of a name. -/
def locateInGroup (s : Selector) (group name : String) : Logged Selector :=
  s.perform .locateInGroup fun s => s.select name (s.manifest.findJobs (some group) name)

/-! ## Editing -/

/-- Edits the properties of every selected job at a path. -/
def edit (s : Selector) (pathText : String) (vivify : Bool) (act : Path → Action Unit) :
    Logged Selector :=
  match Path.ofText? pathText with
  | none => s.fail .emptyPath
  | some path =>
    if s.positions.isEmpty then s.fail .nothingSelected
    else
      let edited := Manifest.editJobs path vivify (act path) s.positions s.manifest
      let s := { s with manifest := edited.value.2 }
      match edited.value.1 with
      | none => ⟨s, edited.events⟩
      | some failure =>
        let failed := s.fail failure
        ⟨failed.value, edited.events ++ failed.events⟩

/-- Sets a value at a path of every selected job, making the mappings on the way. -/
def addProperty (s : Selector) (path : String) (value : Value) : Logged Selector :=
  s.perform .addProperty fun s =>
    s.edit path true fun path => Value.set path.last path.text value

/-- Drops the key at a path of every selected job; nothing is made on the way. -/
def removeProperty (s : Selector) (path : String) : Logged Selector :=
  s.perform .removeProperty fun s =>
    s.edit path false fun path container =>
      let (outcome, container) := Value.remove path.last path.text container
      (outcome.map fun _ => (), container)

/-- Declares a variable. -/
def addVariable (s : Selector) (v : Variable) : Logged Selector :=
  s.perform .addVariable fun s =>
    let added := s.manifest.addVariable v
    match added.value with
    | .ok manifest => ⟨{ s with manifest }, added.events⟩
    | .error duplicate =>
      let failed := s.fail (.duplicateVariable duplicate.name)
      ⟨failed.value, added.events ++ failed.events⟩

/-! ## Reading -/

/-- Reads at a path of the one selected job.  The walk hands the tree back, and it is put back in
its place. -/
def readJob {α : Type} (s : Selector) (call : Call) (pathText : String)
    (extract : Path → Value → Except Failure α) : Logged (Except Failure α × Selector) :=
  match s.positions with
  | [] => .quiet (.error .nothingSelected, s)
  | [p] =>
    match Path.ofText? pathText with
    | none => .quiet (.error .emptyPath, s)
    | some path =>
      match s.manifest.job? p with
      | none => .quiet (.error .nothingSelected, s)
      | some job =>
        let visit := job.properties.visit path false fun container =>
          (extract path container, container)
        let manifest := s.manifest.setJob p { job with properties := visit.node }
        ⟨(visit.outcome, { s with manifest }), visit.events⟩
  | positions => .quiet (.error (.severalSelected call positions.length), s)

/-- Reads at a path, or returns the failure of the chain; a failing read becomes that failure. -/
def read {α : Type} (s : Selector) (call : Call) (pathText : String)
    (extract : Path → Value → Except Failure α) : Logged (Except Failure α × Selector) :=
  match s.failure with
  | some failure => ⟨(.error failure, s), s.skipEvents call failure⟩
  | none =>
    let reading := s.readJob call pathText extract
    match reading.value with
    | (.ok answer, s) => ⟨(.ok answer, s), reading.events⟩
    | (.error failure, s) =>
      let failed := s.fail failure
      ⟨(.error failure, failed.value), reading.events ++ failed.events⟩

/-- The node at a path of the one selected job; a missing key gives null. -/
def getValue (s : Selector) (path : String) : Logged (Except Failure Value × Selector) :=
  s.read .getValue path fun path container => container.lookup path.last path.text

/-- The scalar of a type at a path of the one selected job, read by a call of some name. -/
def getScalar (s : Selector) (call : Call) (type : PropertyType) (path : String) :
    Logged (Except Failure Scalar × Selector) :=
  s.read call path fun path container => container.getScalar type path.last path.text

/-! ## Arbitrary edits -/

/-- Passes every selected job through a function that carries a state. -/
def forEachSelected {σ : Type} (s : Selector) (f : Job → σ → Job × σ) (state : σ) :
    Logged (Selector × σ) :=
  match s.failure with
  | some failure => ⟨(s, state), s.skipEvents .forEachSelected failure⟩
  | none =>
    let (manifest, state) := Manifest.visitJobs f s.positions (s.manifest, state)
    .quiet ({ s with manifest }, state)

/-- Passes every group through a function that carries a state, whatever is selected. -/
def forEachGroup {σ : Type} (s : Selector) (f : InstanceGroup → σ → InstanceGroup × σ)
    (state : σ) : Logged (Selector × σ) :=
  match s.failure with
  | some failure => ⟨(s, state), s.skipEvents .forEachGroup failure⟩
  | none =>
    let (groups, state) := Manifest.visitGroups f s.manifest.groups state
    .quiet ({ s with manifest := { s.manifest with groups } }, state)

end Selector

end PropertyTree
