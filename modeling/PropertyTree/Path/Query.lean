import PropertyTree.Event
import PropertyTree.Path.Segment
import PropertyTree.Value.Display

/-!
# Queries over sequences

A segment `key=value` picks the first item of a sequence that is a mapping, of either kind, with the
string `value` under `key`.  A value of any other type under the key never answers, so only fields
that hold strings can be searched for.
-/

namespace PropertyTree

/-- Whether an item is a mapping that holds a string under a key. -/
def Value.answers (item : Value) (key value : String) : Bool :=
  (item.child? key).bind Value.text? == some value

/-- The first item that answers a query, with its index. -/
def firstAnswer (key value : String) : List Value → Option (Nat × Value)
  | [] => none
  | item :: rest =>
    if item.answers key value then some (0, item)
    else (firstAnswer key value rest).map fun (index, found) => (index + 1, found)

/-- The item of a sequence that a segment of a path picks, with its index. -/
def matchQuery (path segment : String) (items : List Value) : Except Failure (Nat × Value) :=
  match SegmentClass.ofText segment with
  | .query key value =>
    match firstAnswer key value items with
    | some found => .ok found
    | none => .error (.queryUnmatched path segment (Value.displaySequence items))
  | _ => .error (.queryMismatch path segment (Value.displaySequence items))

/-- The index of the item that a segment of a path picks, with the event of finding it. -/
def searchItems (path segment : String) (items : List Value) : Logged (Except Failure Nat) :=
  match matchQuery path segment items with
  | .ok (index, _) => ⟨.ok index, [.queryMatched segment path index]⟩
  | .error failure => .quiet (.error failure)

/-! ## The item found -/

theorem firstAnswer_answers {key value : String} {items : List Value} {index : Nat} {item : Value}
    (h : firstAnswer key value items = some (index, item)) :
    items[index]? = some item ∧ item.answers key value = true := by
  induction items generalizing index with
  | nil => simp [firstAnswer] at h
  | cons first rest ih =>
    unfold firstAnswer at h
    split at h
    case isTrue hf =>
      obtain ⟨rfl, rfl⟩ : 0 = index ∧ first = item := by simpa using h
      exact ⟨rfl, hf⟩
    case isFalse hf =>
      obtain ⟨⟨i, v⟩, hi, heq⟩ := Option.map_eq_some_iff.1 h
      obtain ⟨rfl, rfl⟩ : i + 1 = index ∧ v = item := by simpa using heq
      exact ih hi

end PropertyTree
