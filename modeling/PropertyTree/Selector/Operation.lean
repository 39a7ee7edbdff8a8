import PropertyTree.Selector.Basic

/-!
# Chains of operations

An `Operation` is one call on a selector as data, so that a chain is a list and what holds for whole
chains can be stated.  The two operations with a function also carry a state of type `σ`, which the
function may change with every job or group it is given.

`Operation.apply` performs one operation and `run` a whole chain; the answers, the selector and the
events come in the order of the calls.
-/

namespace PropertyTree

/-- One call on a selector. -/
inductive Operation (σ : Type) where
  | locate (name : String)
  | locateInGroup (group name : String)
  | addProperty (path : String) (value : Value)
  | removeProperty (path : String)
  | addVariable (v : Variable)
  | getTyped (type : PropertyType) (path : String)
  | getValue (path : String)
  | get (type : PropertyType) (path : String)
  | forEachSelected (f : Job → σ → Job × σ)
  | forEachGroup (f : InstanceGroup → σ → InstanceGroup × σ)

/-- What a call returns besides the selector. -/
inductive Answer where
  | done
  | scalar (outcome : Except Failure Scalar)
  | value (outcome : Except Failure Value)

namespace Operation

/-- The call that reads a scalar of a type under the name of the type. -/
def callOf : PropertyType → Call
  | .int => .getInt
  | .text => .getText
  | .bool => .getBool

/-- The name of an operation in messages. -/
def call {σ : Type} : Operation σ → Call
  | locate _ => .locate
  | locateInGroup .. => .locateInGroup
  | addProperty .. => .addProperty
  | removeProperty _ => .removeProperty
  | addVariable _ => .addVariable
  | getTyped type _ => callOf type
  | getValue _ => .getValue
  | get .. => .get
  | forEachSelected _ => .forEachSelected
  | forEachGroup _ => .forEachGroup

/-- Performs an operation on a selector and a state. -/
def apply {σ : Type} (operation : Operation σ) (s : Selector) (state : σ) :
    Logged (Answer × Selector × σ) :=
  match operation with
  | locate name => (s.locate name).map (.done, ·, state)
  | locateInGroup group name => (s.locateInGroup group name).map (.done, ·, state)
  | addProperty path value => (s.addProperty path value).map (.done, ·, state)
  | removeProperty path => (s.removeProperty path).map (.done, ·, state)
  | addVariable v => (s.addVariable v).map (.done, ·, state)
  | getTyped type path =>
    (s.getScalar (callOf type) type path).map fun (outcome, s) => (.scalar outcome, s, state)
  | getValue path => (s.getValue path).map fun (outcome, s) => (.value outcome, s, state)
  | get type path =>
    (s.getScalar .get type path).map fun (outcome, s) => (.scalar outcome, s, state)
  | forEachSelected f => (s.forEachSelected f state).map (.done, ·)
  | forEachGroup f => (s.forEachGroup f state).map (.done, ·)

/-- Performs operations in turn and collects their answers. -/
def run {σ : Type} : List (Operation σ) → Selector → σ → Logged (List Answer × Selector × σ)
  | [], s, state => .quiet ([], s, state)
  | operation :: rest, s, state =>
    (operation.apply s state).andThen fun (answer, s, state) =>
      (run rest s state).map fun (answers, s, state) => (answer :: answers, s, state)

end Operation

end PropertyTree
