import PropertyTree.Value.Basic

/-!
# Equality of values

`Value.equal` is the equality that keys are compared with.  It differs from structural equality in
three ways: floats compare as numbers, so a number that is not a number equals nothing and the zeros
are equal; and any-keyed mappings compare without regard to the order of their entries.

Two any-keyed mappings are equal when they have equally many entries and each entry of the first is
found in the second: the first entry there with an equal key has an equal value.  A mapping that
counts an entry twice would break the symmetry of this test, and none does, because insertion
compares keys.

`equal_scalar`, `equal_seq`, `equal_strMap` and `equal_anyMap` are the equations to reason with.
-/

namespace PropertyTree

namespace Value

/-- Equality of values, by kind; a scalar, a sequence and the two kinds of mapping never equal one
another. -/
def equal : Value → Value → Bool
  | scalar a, scalar b => a.equal b
  | seq as, seq bs =>
    as.length == bs.length &&
      (as.attach.zip bs.attach).all fun (a, b) => equal a.1 b.1
  | strMap as, strMap bs =>
    as.length == bs.length &&
      (as.attach.zip bs.attach).all fun (a, b) => a.1.1 == b.1.1 && equal a.1.2 b.1.2
  | anyMap as, anyMap bs =>
    as.length == bs.length &&
      as.attach.all fun a =>
        match bs.attach.find? fun b => equal b.1.1 a.1.1 with
        | some b => equal b.1.2 a.1.2
        | none => false
  | _, _ => false
termination_by a b => sizeOf a + sizeOf b
decreasing_by
  all_goals
    have ha := List.sizeOf_lt_of_mem a.2
    have hb := List.sizeOf_lt_of_mem b.2
  · simp; omega
  all_goals
    rcases a with ⟨⟨_, _⟩, _⟩
    rcases b with ⟨⟨_, _⟩, _⟩
    simp at *
    omega

/-! ## The equations, without membership proofs -/

theorem equal_scalar (a b : Scalar) : equal (scalar a) (scalar b) = a.equal b := by
  rw [equal]

theorem all_zip_attach {α β : Type} (as : List α) (bs : List β) (p : α → β → Bool) :
    ((as.attach.zip bs.attach).all fun (a, b) => p a.1 b.1) =
      (as.zip bs).all fun (a, b) => p a b := by
  have h : (as.attach.zip bs.attach).map (Prod.map Subtype.val Subtype.val) = as.zip bs := by
    rw [← List.zip_map, List.attach_map_subtype_val, List.attach_map_subtype_val]
  rw [← h, List.all_map]
  rfl

theorem equal_seq (as bs : List Value) :
    equal (seq as) (seq bs) =
      (as.length == bs.length && (as.zip bs).all fun (a, b) => equal a b) := by
  rw [equal, all_zip_attach as bs equal]

theorem equal_strMap (as bs : List (String × Value)) :
    equal (strMap as) (strMap bs) =
      (as.length == bs.length &&
        (as.zip bs).all fun (a, b) => a.1 == b.1 && equal a.2 b.2) := by
  rw [equal, all_zip_attach as bs fun a b => a.1 == b.1 && equal a.2 b.2]

theorem equal_anyMap (as bs : List (Value × Value)) :
    equal (anyMap as) (anyMap bs) =
      (as.length == bs.length &&
        as.all fun a =>
          match bs.find? fun b => equal b.1 a.1 with
          | some b => equal b.2 a.2
          | none => false) := by
  rw [equal]
  congr 1
  conv => rhs; rw [← List.attach_map_subtype_val as, List.all_map]
  congr 1
  funext a
  have h : (bs.find? fun b => equal b.1 a.1.1) =
      (bs.attach.find? fun b => equal b.1.1 a.1.1).map Subtype.val := by
    conv => lhs; rw [← List.attach_map_subtype_val bs, List.find?_map]
    rfl
  simp only [Function.comp_apply, h]
  cases bs.attach.find? fun b => equal b.1.1 a.1.1 <;> rfl

/-- A string equals exactly the same string. -/
theorem equal_text_iff (v : Value) (s : String) : v.equal (text s) = true ↔ v = text s := by
  cases v with
  | scalar a => cases a <;> simp [equal_scalar, Scalar.equal]
  | seq _ => simp [equal]
  | strMap _ => simp [equal]
  | anyMap _ => simp [equal]

end Value

end PropertyTree
