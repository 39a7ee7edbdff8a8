import PropertyTree.Double.Basic
import PropertyTree.Fields

/-!
# Values: the nodes of a property tree

A `Value` is a scalar, a sequence, a mapping keyed by strings, or a mapping keyed by any values.
The last three are containers, through which a path can descend.

The two kinds of mapping keep their entries differently.  A string-keyed mapping is a list of
fields sorted by key (`Fields.Sorted`), so the order in which it was filled leaves no trace.  An
any-keyed mapping is a list of entries in the order in which their keys were first inserted, and
its operations are those of `Value/Table.lean`.

`Value.child?` and `Value.setChild` look up and store under a string key in either kind.
-/

namespace PropertyTree

/-- A leaf of a property tree; `null` stands for an absent value. -/
inductive Scalar where
  | null
  | bool (b : Bool)
  | int (i : Int64)
  | float (x : Double)
  | text (s : String)
deriving DecidableEq, Repr, Inhabited

/-- A node of a property tree. -/
inductive Value where
  | scalar (s : Scalar)
  | seq (items : List Value)
  | strMap (fields : List (String × Value))
  | anyMap (entries : List (Value × Value))
deriving Repr, Inhabited

/-- The kind of a node, as diagnostics name it. -/
inductive Kind where
  | null
  | bool
  | int
  | float
  | text
  | sequence
  | stringMapping
  | anyMapping
deriving DecidableEq, Repr

/-- The name of a kind in messages. -/
def Kind.label : Kind → String
  | .null => "null"
  | .bool => "bool"
  | .int => "int"
  | .float => "float"
  | .text => "string"
  | .sequence => "sequence"
  | .stringMapping => "map[string]"
  | .anyMapping => "map[any]"

namespace Scalar

/-- The kind of a leaf. -/
def kind : Scalar → Kind
  | null => .null
  | bool _ => .bool
  | int _ => .int
  | float _ => .float
  | text _ => .text

/-- Equality of leaves: floats compare as numbers, all else structurally. -/
def equal : Scalar → Scalar → Bool
  | float x, float y => x.equal y
  | a, b => a == b

end Scalar

namespace Value

/-! ## Leaves as values -/

/-- The absent value. -/
@[match_pattern] abbrev null : Value := scalar .null

/-- A string as a value. -/
@[match_pattern] abbrev text (s : String) : Value := scalar (.text s)

/-- An integer as a value. -/
@[match_pattern] abbrev int (i : Int64) : Value := scalar (.int i)

/-- A truth value as a value. -/
@[match_pattern] abbrev bool (b : Bool) : Value := scalar (.bool b)

/-- A double as a value. -/
@[match_pattern] abbrev float (x : Double) : Value := scalar (.float x)

instance : Coe Scalar Value := ⟨scalar⟩

/-! ## Classification -/

/-- The kind of a node. -/
def kind : Value → Kind
  | scalar s => s.kind
  | seq _ => .sequence
  | strMap _ => .stringMapping
  | anyMap _ => .anyMapping

/-- A node that a path can descend through. -/
def isContainer : Value → Bool
  | scalar _ => false
  | _ => true

/-- A mapping of either kind. -/
def isMapping : Value → Bool
  | strMap _ | anyMap _ => true
  | _ => false

/-- The absent value. -/
def isNull : Value → Bool
  | scalar .null => true
  | _ => false

/-- The text of a string leaf. -/
def text? : Value → Option String
  | scalar (.text s) => some s
  | _ => none

/-- The number of an integer leaf. -/
def int? : Value → Option Int64
  | scalar (.int i) => some i
  | _ => none

/-- The truth value of a boolean leaf. -/
def bool? : Value → Option Bool
  | scalar (.bool b) => some b
  | _ => none

/-- The items of a sequence. -/
def items? : Value → Option (List Value)
  | seq items => some items
  | _ => none

/-- The number of children; a leaf has none. -/
def size : Value → Nat
  | scalar _ => 0
  | seq items => items.length
  | strMap fields => fields.length
  | anyMap entries => entries.length

/-! ## Structural equality is decidable -/

mutual

/-- Decides structural equality. -/
def decEq : (a b : Value) → Decidable (a = b)
  | scalar a, scalar b => decidable_of_iff (a = b) (by simp)
  | seq a, seq b => @decidable_of_iff _ (a = b) (by simp) (decEqItems a b)
  | strMap a, strMap b => @decidable_of_iff _ (a = b) (by simp) (decEqFields a b)
  | anyMap a, anyMap b => @decidable_of_iff _ (a = b) (by simp) (decEqEntries a b)
  | scalar _, seq _ | scalar _, strMap _ | scalar _, anyMap _
  | seq _, scalar _ | seq _, strMap _ | seq _, anyMap _
  | strMap _, scalar _ | strMap _, seq _ | strMap _, anyMap _
  | anyMap _, scalar _ | anyMap _, seq _ | anyMap _, strMap _ => isFalse (by simp)

/-- Decides structural equality of items. -/
def decEqItems : (a b : List Value) → Decidable (a = b)
  | [], [] => isTrue rfl
  | [], _ :: _ | _ :: _, [] => isFalse (by simp)
  | x :: xs, y :: ys =>
    @decidable_of_iff _ (x = y ∧ xs = ys) (by simp)
      (@instDecidableAnd _ _ (decEq x y) (decEqItems xs ys))

/-- Decides structural equality of fields. -/
def decEqFields : (a b : List (String × Value)) → Decidable (a = b)
  | [], [] => isTrue rfl
  | [], _ :: _ | _ :: _, [] => isFalse (by simp)
  | (k, x) :: xs, (l, y) :: ys =>
    @decidable_of_iff _ (k = l ∧ x = y ∧ xs = ys) (by simp [and_assoc])
      (@instDecidableAnd _ _ (instDecidableEqString k l)
        (@instDecidableAnd _ _ (decEq x y) (decEqFields xs ys)))

/-- Decides structural equality of entries. -/
def decEqEntries : (a b : List (Value × Value)) → Decidable (a = b)
  | [], [] => isTrue rfl
  | [], _ :: _ | _ :: _, [] => isFalse (by simp)
  | (k, x) :: xs, (l, y) :: ys =>
    @decidable_of_iff _ (k = l ∧ x = y ∧ xs = ys) (by simp [and_assoc])
      (@instDecidableAnd _ _ (decEq k l)
        (@instDecidableAnd _ _ (decEq x y) (decEqEntries xs ys)))

end

instance : DecidableEq Value := decEq

end Value

end PropertyTree
