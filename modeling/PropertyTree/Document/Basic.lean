import PropertyTree.Double.Basic

/-!
# Documents: the trees that formats share

A `Document` is what a structured text says, before anything is made of it: atoms, sequences, maps
with keys of any kind in the order of the text, and tagged nodes.  It is the form in which values
and records are written, and the form in which fields that no record knows are kept.

Integers are unbounded here; the formats deliver those from `-2 ^ 63` up to `2 ^ 64 - 1`.

`Document.equal` compares documents as data: maps without regard to order, numbers by value within
integers and within floats, and a float that is not a number equal to another one.
-/

namespace PropertyTree

/-- A leaf of a document. -/
inductive Atom where
  | null
  | bool (b : Bool)
  | int (n : Int)
  | float (x : Double)
  | text (s : String)
deriving DecidableEq, Repr, Inhabited

/-- Equality of atoms as data. -/
def Atom.equal : Atom → Atom → Bool
  | float x, float y => x.equalOrBothNaN y
  | a, b => a == b

/-- A tree of atoms, sequences, maps and tagged nodes. -/
inductive Document where
  | atom (a : Atom)
  | seq (items : List Document)
  | map (entries : List (Document × Document))
  | tagged (tag : String) (content : Document)
deriving Repr, Inhabited

namespace Document

/-- A string as a document. -/
@[match_pattern] abbrev text (s : String) : Document := atom (.text s)

/-- Equality of documents as data. -/
def equal : Document → Document → Bool
  | atom a, atom b => a.equal b
  | seq as, seq bs =>
    as.length == bs.length &&
      (as.attach.zip bs).all fun (a, b) => equal a.1 b
  | map as, map bs =>
    as.length == bs.length &&
      as.attach.all fun a => bs.any fun b => equal a.1.1 b.1 && equal a.1.2 b.2
  | tagged s a, tagged t b => s == t && equal a b
  | _, _ => false
termination_by a => a
decreasing_by
  all_goals try have ha := List.sizeOf_lt_of_mem a.2
  · simp; omega
  · rcases a with ⟨⟨_, _⟩, _⟩; simp at *; omega
  · rcases a with ⟨⟨_, _⟩, _⟩; simp at *; omega
  · simp only [tagged.sizeOf_spec]; omega

/-! ## Structural equality is decidable -/

mutual

/-- Decides structural equality. -/
def decEq : (a b : Document) → Decidable (a = b)
  | atom a, atom b => decidable_of_iff (a = b) (by simp)
  | seq a, seq b => @decidable_of_iff _ (a = b) (by simp) (decEqItems a b)
  | map a, map b => @decidable_of_iff _ (a = b) (by simp) (decEqEntries a b)
  | tagged s a, tagged t b =>
    @decidable_of_iff _ (s = t ∧ a = b) (by simp)
      (@instDecidableAnd _ _ (instDecidableEqString s t) (decEq a b))
  | atom _, seq _ | atom _, map _ | atom _, tagged .. | seq _, atom _ | seq _, map _
  | seq _, tagged .. | map _, atom _ | map _, seq _ | map _, tagged .. | tagged .., atom _
  | tagged .., seq _ | tagged .., map _ => isFalse (by simp)

/-- Decides structural equality of items. -/
def decEqItems : (a b : List Document) → Decidable (a = b)
  | [], [] => isTrue rfl
  | [], _ :: _ | _ :: _, [] => isFalse (by simp)
  | x :: xs, y :: ys =>
    @decidable_of_iff _ (x = y ∧ xs = ys) (by simp)
      (@instDecidableAnd _ _ (decEq x y) (decEqItems xs ys))

/-- Decides structural equality of entries. -/
def decEqEntries : (a b : List (Document × Document)) → Decidable (a = b)
  | [], [] => isTrue rfl
  | [], _ :: _ | _ :: _, [] => isFalse (by simp)
  | (k, x) :: xs, (l, y) :: ys =>
    @decidable_of_iff _ (k = l ∧ x = y ∧ xs = ys) (by simp [and_assoc])
      (@instDecidableAnd _ _ (decEq k l)
        (@instDecidableAnd _ _ (decEq x y) (decEqEntries xs ys)))

end

instance : DecidableEq Document := decEq

end Document

end PropertyTree
