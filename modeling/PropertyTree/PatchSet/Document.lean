import PropertyTree.Document.Record
import PropertyTree.PatchSet.Basic
import PropertyTree.Value.Document

/-!
# Patch sets and documents

The documents of patch sets and of selector options, and how they are read.  A patch set, its
options and the payload of an edit may also be written as lists of their fields, and ignore fields
that they do not know.

The edit of a patch is the first of the keys `set` and `remove` in the order of the map.  Whatever
a patch holds besides the job and the group is buffered as data first, so that tags are faults
there and a path must be a string.
-/

namespace PropertyTree

/-! ## Writing -/

/-- The document of selector options. -/
def SelectorOptions.toDocument (options : SelectorOptions) : Document :=
  .map [(.text "log_skipped_calls", .atom (.bool options.logSkippedCalls)),
    (.text "log_matches", .atom (.bool options.logMatches))]

/-- The key and the payload of an edit. -/
def PatchAction.toEntry : PatchAction → Document × Document
  | set path value =>
    (.text "set", .map [(.text "path", .text path), (.text "value", value.toDocument)])
  | remove path => (.text "remove", .map [(.text "path", .text path)])

/-- The document of a patch. -/
def Patch.toDocument (patch : Patch) : Document :=
  let group := match patch.group with
    | none => []
    | some name => [(Document.text "group", Document.text name)]
  .map ([(.text "job", .text patch.job)] ++ group ++ [patch.action.toEntry])

/-- The document of a patch set. -/
def PatchSet.toDocument (set : PatchSet) : Document :=
  .map [(.text "options", set.options.toDocument),
    (.text "patches", .seq (set.patches.map Patch.toDocument))]

/-! ## Reading -/

/-- The selector options of a tree. -/
def SelectorOptions.read? (node : Reading) : Option SelectorOptions := do
  let record ← node.record? ["log_skipped_calls", "log_matches"]
  return {
    logSkippedCalls := ← record.withDefault? "log_skipped_calls" false Reading.bool?
    logMatches := ← record.withDefault? "log_matches" false Reading.bool? }

/-- The field that a key of buffered data names: its text, or the field with its number. -/
def payloadKey? (names : List String) : Document → Option String
  | .atom (.text key) => some key
  | .atom (.int n) => if 0 ≤ n then some (names[n.toNat]?.getD "") else none
  | _ => none

/-- The record of buffered data. -/
def payload? (names : List String) : Document → Option Record
  | .seq items => Record.ofItems? names (Document.toReadings items)
  | .map entries =>
    entries.foldlM (fun record e => do
      record.add? names (← payloadKey? names e.1) e.2.toReading) ⟨[], []⟩
  | _ => none

/-- The edit that a key and its payload stand for. -/
def PatchAction.read? (key : String) (data : Document) : Option PatchAction := do
  if key == "set" then
    let record ← payload? ["path", "value"] data
    return set (← record.required? "path" Reading.text?) (← record.required? "value" Reading.value?)
  else
    let record ← payload? ["path"] data
    return remove (← record.required? "path" Reading.text?)

/-- The text of a group that may be null. -/
def groupName? (node : Reading) : Option (Option String) := do
  match ← node.optional? with
  | none => return none
  | some node => return some (← node.text?)

/-- The patch of a tree. -/
def Patch.read? (node : Reading) : Option Patch := do
  let record ← node.mapRecord? ["job", "group"]
  let others ← record.others.mapM fun e => e.2.buffered?.map (e.1, ·)
  let (key, data) ← others.find? fun e => e.1 == "set" || e.1 == "remove"
  return {
    job := ← record.required? "job" Reading.text?
    group := ← record.withDefault? "group" none groupName?
    action := ← PatchAction.read? key data }

/-- The patch set of a tree. -/
def PatchSet.read? (node : Reading) : Option PatchSet := do
  let record ← node.record? ["options", "patches"]
  return {
    options := ← record.withDefault? "options" .quiet SelectorOptions.read?
    patches := ← record.withDefault? "patches" [] (Reading.list? Patch.read?) }

end PropertyTree
