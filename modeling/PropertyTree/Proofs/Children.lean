import Mathlib.Tactic.Lemma
import PropertyTree.Path.Access

/-!
# Children under string keys

The walks of this library reach into a mapping through `Value.child?` and change it through
`Value.setChild`, and both take either kind of mapping.  The two kinds get there differently: one
keeps sorted fields, the other a table that is searched by text on some paths (`Table.putText`,
`Table.getText?`) and by equality of keys on others (`Table.put`, `Table.get?`).

For string keys all of these agree, because a value equals a string only if it is that string
(`equal_text_iff`).  `set_mapping` is where this matters most: storing at the last segment of a
path is the same `setChild` as storing on the way.

## Main statements

* `Table.put_text`: insertion by equality and storing by text are one operation on string keys.
* `Table.get?_putText`: storing under a string key changes nothing under any other key.
* `child?_setChild`, `setChild_child?`: the laws of a slot, in either kind of mapping.
-/

namespace PropertyTree

namespace Value

/-! ## Equality with a string -/

lemma equal_text (v : Value) (s : String) : v.equal (text s) = (v.text? == some s) := by
  rw [Bool.eq_iff_iff, equal_text_iff]
  cases v with
  | scalar a => cases a <;> simp [text?]
  | seq _ => simp [text?]
  | strMap _ => simp [text?]
  | anyMap _ => simp [text?]

lemma text?_eq_some_iff {v : Value} {s : String} : v.text? = some s ↔ v = text s := by
  rw [← equal_text_iff, equal_text, beq_iff_eq]

/-- The string may stand on either side. -/
lemma text_equal_iff (s : String) (v : Value) : (text s).equal v = true ↔ v = text s := by
  cases v with
  | scalar a =>
    cases a with
    | text t => simpa [equal_scalar, Scalar.equal] using eq_comm
    | null | bool _ | int _ | float _ => simp [equal_scalar, Scalar.equal]
  | seq _ => simp [equal]
  | strMap _ => simp [equal]
  | anyMap _ => simp [equal]

end Value

namespace Table

open Value (text text?_eq_some_iff)

variable {table : Table} {key : String}

/-! ## Look-up by text and look-up by equality -/

lemma get?_text (table : Table) (key : String) : table.get? (text key) = table.getText? key := by
  simp only [get?, getText?, Value.equal_text]

lemma getText?_cons (k v : Value) (rest : Table) (key : String) :
    getText? ((k, v) :: rest) key = if k = text key then some v else getText? rest key := by
  by_cases h : k = text key
  · simp [getText?, h, Value.text?]
  · have hk : (k.text? == some key) = false := by simpa [text?_eq_some_iff] using h
    simp [getText?, hk, h]

lemma getText?_eq_none_iff : table.getText? key = none ↔ ∀ e ∈ table, e.1 ≠ text key := by
  simp [getText?, text?_eq_some_iff]

/-- A string key that is there splits the table at its first entry. -/
lemma exists_of_getText? {child : Value} (h : table.getText? key = some child) :
    ∃ before after, table = before ++ (text key, child) :: after ∧
      ∀ e ∈ before, e.1 ≠ text key := by
  induction table with
  | nil => simp [getText?] at h
  | cons e rest ih =>
    obtain ⟨k, v⟩ := e
    rw [getText?_cons] at h
    split at h
    case isTrue hk =>
      obtain rfl : v = child := by simpa using h
      exact ⟨[], rest, by simp [hk], by simp⟩
    case isFalse hk =>
      obtain ⟨before, after, rfl, hbefore⟩ := ih h
      refine ⟨(k, v) :: before, after, rfl, ?_⟩
      simpa [hk] using hbefore

/-! ## Storing by text -/

/-- The two loops that store under a string key do the same. -/
theorem put_text (table : Table) (key : String) (child : Value) :
    table.put (text key) child = table.putText key child := by
  induction table with
  | nil => rfl
  | cons e rest ih =>
    obtain ⟨k, v⟩ := e
    simp only [put, putText, replaceText?, insert, getText?_cons, Value.equal_text] at ih ⊢
    by_cases h : k = text key
    · simp [h, Value.text?, assign]
    · have hk : (k.text? == some key) = false := by simpa [text?_eq_some_iff] using h
      cases hrest : getText? rest key <;> simp [hk, h, hrest, ih, assign]

lemma putText_of_mem {before after : Table} {old : Value} (hbefore : ∀ e ∈ before, e.1 ≠ text key)
    (child : Value) :
    putText (before ++ (text key, old) :: after) key child =
      before ++ (text key, child) :: after := by
  rw [← put_text]
  induction before with
  | nil => simp [put, insert, Value.equal_text, Value.text?]
  | cons e rest ih =>
    obtain ⟨k, v⟩ := e
    obtain ⟨hk, hrest⟩ := List.forall_mem_cons.1 hbefore
    have hne : k.equal (text key) = false := by
      simpa [Value.equal_text, text?_eq_some_iff] using hk
    simpa [put, insert, hne] using ih hrest

lemma putText_of_not_mem (h : ∀ e ∈ table, e.1 ≠ text key) (child : Value) :
    table.putText key child = table ++ [(text key, child)] := by
  simp [putText, replaceText?, getText?_eq_none_iff.2 h]

/-- What a key other than the stored one finds stays the same, whether it is a string or not. -/
lemma get?_putText (table : Table) (key : String) (child k : Value) :
    (table.putText key child).get? k = if k = text key then some child else table.get? k := by
  have hself : ∀ k, (text key).equal k = decide (k = text key) := fun k => by
    rw [Bool.eq_iff_iff, Value.text_equal_iff, decide_eq_true_iff]
  cases h : table.getText? key with
  | none =>
    have habsent := getText?_eq_none_iff.1 h
    rw [putText_of_not_mem habsent]
    by_cases hk : k = text key
    · subst hk
      have : table.find? (fun e => e.1.equal (text key)) = none := by
        simpa [Value.equal_text_iff] using habsent
      simp [get?, this, hself]
    · simp [get?, List.find?_append, hk, hself]
  | some old =>
    obtain ⟨before, after, rfl, hbefore⟩ := exists_of_getText? h
    rw [putText_of_mem hbefore]
    by_cases hk : k = text key
    · subst hk
      have : before.find? (fun e => e.1.equal (text key)) = none := by
        simpa [Value.equal_text_iff] using hbefore
      simp [get?, this, hself]
    · simp [get?, List.find?_append, hk, hself]

end Table

namespace Fields

variable {fields : List (String × Value)} {key : String}

/-! ## Where a field is stored -/

/-- A key that is there keeps its place. -/
lemma exists_insert_of_get? {old : Value} (h : get? fields key = some old) (child : Value) :
    ∃ before after, fields = before ++ (key, old) :: after ∧
      insert fields key child = before ++ (key, child) :: after := by
  rw [insert, if_pos (by rw [h]; rfl)]
  induction fields with
  | nil => simp [get?] at h
  | cons f rest ih =>
    obtain ⟨k, v⟩ := f
    rw [get?] at h
    split at h
    case isTrue hk =>
      obtain rfl : v = old := by simpa using h
      exact ⟨[], rest, by simp [hk], by simp [replace, hk]⟩
    case isFalse hk =>
      obtain ⟨before, after, hfields, hinsert⟩ := ih h
      exact ⟨(k, v) :: before, after, by simp [hfields], by simp [replace, hk, hinsert]⟩

/-- A new key comes between two parts of the fields. -/
lemma exists_insert_of_missing (h : get? fields key = none) (child : Value) :
    ∃ before after, fields = before ++ after ∧
      insert fields key child = before ++ (key, child) :: after := by
  rw [insert, if_neg (by simp [h])]
  clear h
  induction fields with
  | nil => exact ⟨[], [], rfl, rfl⟩
  | cons f rest ih =>
    obtain ⟨k, v⟩ := f
    rw [place]
    split
    case isTrue => exact ⟨[], (k, v) :: rest, rfl, rfl⟩
    case isFalse =>
      obtain ⟨before, after, hfields, hplace⟩ := ih
      exact ⟨(k, v) :: before, after, by simp [hfields], by simp [hplace]⟩

end Fields

namespace Value

/-! ## The laws of a slot -/

variable {node : Value} {key : String} {child : Value}

@[simp] lemma isMapping_setChild (node : Value) (key : String) (child : Value) :
    (node.setChild key child).isMapping = node.isMapping := by
  cases node <;> rfl

lemma isNull_iff : node.isNull = true ↔ node = null := by
  cases node with
  | scalar s => cases s <;> simp [isNull]
  | seq _ | strMap _ | anyMap _ => simp [isNull]

lemma isContainer_of_isMapping (h : node.isMapping = true) : node.isContainer = true := by
  cases node <;> simp_all [isMapping, isContainer]

lemma isNull_of_isContainer (h : node.isContainer = true) : node.isNull = false := by
  cases node with
  | scalar _ => cases h
  | seq _ | strMap _ | anyMap _ => rfl

lemma text?_of_isContainer (h : node.isContainer = true) : node.text? = none := by
  cases node with
  | scalar _ => cases h
  | seq _ | strMap _ | anyMap _ => rfl

lemma child?_of_not_mapping (h : node.isMapping = false) (key : String) :
    node.child? key = none := by
  cases node with
  | scalar _ | seq _ => rfl
  | strMap _ | anyMap _ => cases h

lemma isMapping_of_child? (h : node.child? key = some child) : node.isMapping = true := by
  cases node <;> simp_all [child?, isMapping]

/-- Storing at the last segment is storing under a key. -/
lemma set_mapping (h : node.isMapping = true) (segment path : String) (value : Value) :
    set segment path value node = (.ok (), node.setChild segment value) := by
  cases node with
  | scalar _ => simp [isMapping] at h
  | seq _ => simp [isMapping] at h
  | strMap fields => rfl
  | anyMap entries => simp [set, setChild, Table.put_text]

lemma set_of_not_mapping (h : node.isMapping = false) (segment path : String) (value : Value) :
    set segment path value node = (.error (refused .set path node), node) := by
  cases node <;> simp_all [isMapping, set]

lemma lookup_mapping (h : node.isMapping = true) (segment path : String) :
    node.lookup segment path = .ok ((node.child? segment).getD null) := by
  cases node <;> simp_all [isMapping, lookup]

lemma child?_setChild (h : node.isMapping = true) (key : String) (child : Value)
    (other : String) :
    (node.setChild key child).child? other =
      if key = other then some child else node.child? other := by
  cases node with
  | scalar _ => simp [isMapping] at h
  | seq _ => simp [isMapping] at h
  | strMap fields => exact Fields.get?_insert fields key child other
  | anyMap entries =>
    simp only [setChild, child?, ← Table.get?_text, Table.get?_putText]
    simp [eq_comm]

/-- Storing the child that is there changes nothing. -/
lemma setChild_child? (h : node.child? key = some child) : node.setChild key child = node := by
  cases node with
  | scalar _ => simp [child?] at h
  | seq _ => simp [child?] at h
  | strMap fields => exact congrArg strMap (Fields.insert_of_get? h)
  | anyMap entries =>
    obtain ⟨before, after, rfl, hbefore⟩ := Table.exists_of_getText? h
    exact congrArg anyMap (Table.putText_of_mem hbefore child)

end Value

end PropertyTree
