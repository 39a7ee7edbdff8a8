import PropertyTree.Value.Basic

/-!
# Failures: why an operation on properties did not succeed

A `Failure` is a cause with what a message shows of it.  Paths and segments are kept as they were
written; the nodes that were found are kept as text and kind, because the tree may have moved on by
the time the message is read.

`Call` names the operations of a chain and `Access` what the last segment of a path was used for;
both appear in messages.
-/

namespace PropertyTree

/-- The operations of a chain, as messages name them. -/
inductive Call where
  | locate
  | locateInGroup
  | addProperty
  | removeProperty
  | addVariable
  | getInt
  | getText
  | getBool
  | getValue
  | get
  | forEachSelected
  | forEachGroup
deriving DecidableEq, Repr

/-- The name of an operation in messages. -/
def Call.label : Call → String
  | locate => "locate"
  | locateInGroup => "locate_in_group"
  | addProperty => "add_property"
  | removeProperty => "remove_property"
  | addVariable => "add_variable"
  | getInt => "get_int"
  | getText => "get_string"
  | getBool => "get_bool"
  | getValue => "get_value"
  | get => "get"
  | forEachSelected => "for_each_selected"
  | forEachGroup => "for_each_group"

/-- What the last segment of a path is used for. -/
inductive Access where
  | set
  | remove
  | read
deriving DecidableEq, Repr

/-- The name of an access in messages. -/
def Access.label : Access → String
  | set => "set"
  | remove => "remove"
  | read => "read"

/-- The cause of a failed operation. -/
inductive Failure where
  /-- No job has the name. -/
  | entityNotFound (name : String)
  /-- The selection is empty. -/
  | nothingSelected
  /-- The path has no segment. -/
  | emptyPath
  /-- A scalar or nothing stands where a container is needed. -/
  | unsupportedContainer (path segment found : String) (foundKind : Kind)
  /-- A sequence was met with a segment that is no query. -/
  | queryMismatch (path segment contents : String)
  /-- No item of a sequence answers a query. -/
  | queryUnmatched (path segment contents : String)
  /-- A sequence was indexed by a segment that is no number. -/
  | indexNotNumeric (path segment : String)
  /-- The index is past the end of a sequence. -/
  | indexOutOfRange (path index : String) (size : Nat)
  /-- A node has another type than the one asked for. -/
  | typeMismatch (path : String) (expected : Kind) (found : String) (foundKind : Kind)
  /-- A read with several jobs selected. -/
  | severalSelected (call : Call) (count : Nat)
  /-- The variable is there already. -/
  | duplicateVariable (name : String)
  /-- The last segment was applied to a node that does not allow it. -/
  | unsupportedAccess (access : Access) (path : String) (containerKind : Kind)
deriving DecidableEq, Repr

namespace Failure

/-- The text of a failure. -/
def message : Failure → String
  | entityNotFound name => "entity not found: `" ++ name ++ "`"
  | nothingSelected => "no entity selected"
  | emptyPath => "property path is empty"
  | unsupportedContainer path segment found foundKind =>
    "cannot descend further at `" ++ segment ++ "` of `" ++ path ++
      "`: a scalar or unsupported value already exists: `" ++ found ++ "` of type `" ++
      foundKind.label ++ "`"
  | queryMismatch path segment contents =>
    "segment `" ++ segment ++ "` of `" ++ path ++
      "` is not a key=value query; sequence contents: " ++ contents
  | queryUnmatched path segment contents =>
    "no element matches `" ++ segment ++ "` of `" ++ path ++ "`; sequence contents: " ++ contents
  | indexNotNumeric path segment =>
    "value found but a non-digit was specified at `" ++ segment ++ "` of `" ++ path ++ "`"
  | indexOutOfRange path index size =>
    "cannot read index " ++ index ++ " of `" ++ path ++ "`: sequence only has " ++ toString size ++
      " values"
  | typeMismatch path expected found foundKind =>
    "expected a " ++ expected.label ++ " at `" ++ path ++ "`, found `" ++ found ++ "` of type `" ++
      foundKind.label ++ "`"
  | severalSelected call count =>
    call.label ++ " not implemented for multiple matches (" ++ toString count ++
      " entities selected)"
  | duplicateVariable name => "variable `" ++ name ++ "` already exists"
  | unsupportedAccess access path containerKind =>
    "unsupported: cannot " ++ access.label ++ " `" ++ path ++ "` on a value of type `" ++
      containerKind.label ++ "`"

/-- Whether the failure is that no job has a name. -/
def isNotFound : Failure → Bool
  | entityNotFound _ => true
  | _ => false

/-- Whether the failure lies in the path or in the tree it was applied to. -/
def isPathFailure : Failure → Bool
  | emptyPath | unsupportedContainer .. | queryMismatch .. | queryUnmatched ..
  | indexNotNumeric .. | indexOutOfRange .. | typeMismatch .. | unsupportedAccess .. => true
  | entityNotFound _ | nothingSelected | severalSelected .. | duplicateVariable _ => false

end Failure

end PropertyTree
