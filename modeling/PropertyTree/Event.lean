import PropertyTree.Failure

/-!
# Events: what happened on the way

Operations report what they do as a list of events, oldest first, beside their result.  An event
keeps the data that its text shows; `Event.level` and `Event.message` give the form in which a log
prints it.
-/

namespace PropertyTree

/-- The place of a job in a manifest: which group, and which job of it. -/
structure Position where
  group : Nat
  job : Nat
deriving DecidableEq, Repr

/-- The text of a position in the log. -/
def Position.display (p : Position) : String :=
  "JobIndex \x7b group: " ++ toString p.group ++ ", job: " ++ toString p.job ++ " \x7d"

/-- How much attention an event asks for. -/
inductive Level where
  | trace
  | debug
  | warn
deriving DecidableEq, Repr

/-- Something that an operation reports. -/
inductive Event where
  | manifestLoaded (name : String) (groups : Nat)
  | variableAdded (name type : String)
  | located (count : Nat) (name : String)
  | matchesFound (name : String) (positions : List Position)
  | chainFailed (failure : Failure)
  | callSkipped (call : Call) (failure : Failure)
  | vivified (segment : String)
  | queryMatched (segment path : String) (index : Nat)
  | patchFailed (number count : Nat) (job : String) (failure : Failure)
  | patchesApplied (count : Nat)
deriving DecidableEq, Repr

namespace Event

/-- The level of an event. -/
def level : Event → Level
  | callSkipped .. | vivified _ | queryMatched .. => .trace
  | patchFailed .. => .warn
  | manifestLoaded .. | variableAdded .. | located .. | matchesFound .. | chainFailed _
  | patchesApplied _ => .debug

/-- The text of an event. -/
def message : Event → String
  | manifestLoaded name groups =>
    "Loaded manifest '" ++ name ++ "' with " ++ toString groups ++ " instance groups"
  | variableAdded name type => "Adding variable '" ++ name ++ "' of type " ++ type
  | located count name => "Located " ++ toString count ++ " job(s) named '" ++ name ++ "'"
  | matchesFound name positions =>
    "Matches for '" ++ name ++ "': [" ++ ", ".intercalate (positions.map Position.display) ++ "]"
  | chainFailed failure => "Selector chain failed: " ++ failure.message
  | callSkipped call failure =>
    "Skipping " ++ call.label ++ " after earlier failure: " ++ failure.message
  | vivified segment => "Auto-vivifying mapping at `" ++ segment ++ "`"
  | queryMatched segment path index =>
    "Query `" ++ segment ++ "` of `" ++ path ++ "` matched element " ++ toString index
  | patchFailed number count job failure =>
    "Patch " ++ toString number ++ " of " ++ toString count ++ " on job '" ++ job ++
      "' failed: " ++ failure.message
  | patchesApplied count => "Applied " ++ toString count ++ " patches"

end Event

/-- A result with the events reported on the way to it. -/
structure Logged (α : Type) where
  value : α
  events : List Event
deriving Repr

namespace Logged

/-- A result with nothing to report. -/
def quiet {α : Type} (value : α) : Logged α := ⟨value, []⟩

/-- Goes on from a result; the events of both steps come in their order. -/
def andThen {α β : Type} (first : Logged α) (next : α → Logged β) : Logged β :=
  let second := next first.value
  ⟨second.value, first.events ++ second.events⟩

/-- Changes the result and keeps the events. -/
def map {α β : Type} (f : α → β) (x : Logged α) : Logged β := ⟨f x.value, x.events⟩

end Logged

end PropertyTree
