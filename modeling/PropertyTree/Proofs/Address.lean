import PropertyTree.Proofs.Children

/-!
# Concrete addresses

A path says what to look for; an address says where a node is.  An `Address` is a list of steps,
each a key of a mapping or an index of a sequence, and `Value.at?` is the node at an address.  Keys
may be values of any kind, so every entry of an any-keyed mapping that a look-up can find has an
address.

`Value.put` writes at an address and opens a mapping where the address leads through nothing or
through null.  It succeeds on the addresses that are `Writable`, and for these it is a
single-address update:

* `at?_put_self`: the new node is at the address;
* `at?_put_of_apart`: addresses that are neither before nor after it keep their nodes;
* `at?_put_before` with `refilled_put`: a container on the way has one slot refilled, and its other
  entries stay in their places.
-/

namespace PropertyTree

/-- One step of an address. -/
inductive Step where
  | key (k : Value)
  | index (i : Nat)
deriving DecidableEq, Repr

namespace Step

/-- The step to a string key. -/
abbrev name (s : String) : Step := key (.text s)

end Step

/-- The steps from a root to a node. -/
abbrev Address := List Step

namespace Value

/-! ## Nodes at addresses -/

/-- The node one step below. -/
def childAt? : Value → Step → Option Value
  | seq items, .index i => items[i]?
  | strMap fields, .key (text s) => Fields.get? fields s
  | anyMap entries, .key k => Table.get? entries k
  | _, _ => none

/-- The node at an address. -/
def at? : Value → Address → Option Value
  | node, [] => some node
  | node, step :: rest => (node.childAt? step).bind (at? · rest)

/-- The node that writing below an optional child starts from: an empty mapping if there is no
child, or a null one. -/
def opened (child : Option Value) : Value :=
  if isAbsent child then anyMap [] else child.getD null

/-- The node that writing below a key starts from. -/
abbrev slot (node : Value) (s : String) : Value := opened (node.child? s)

/-- Writes at an address, and opens what is missing on the way. -/
def put : Value → Address → Value → Value
  | _, [], new => new
  | seq items, .index i :: rest, new =>
    match items[i]? with
    | some item => seq (items.set i (put item rest new))
    | none => seq items
  | node, .key (text s) :: rest, new => node.setChild s (put (node.slot s) rest new)
  | node, _ :: _, _ => node

/-- Addresses at which `put` has an effect: each step is an index that is there or a string key of
a mapping, where what the key holds may still have to be opened. -/
inductive Writable : Value → Address → Prop
  | here (node : Value) : Writable node []
  | item {items : List Value} {i : Nat} {item : Value} {rest : Address}
      (found : items[i]? = some item) (below : Writable item rest) :
      Writable (seq items) (.index i :: rest)
  | key {node : Value} {s : String} {rest : Address}
      (mapping : node.isMapping = true) (below : Writable (node.slot s) rest) :
      Writable node (.name s :: rest)

variable {node old new child : Value} {s : String} {A B : Address}

/-! ## First facts -/

@[simp] lemma at?_nil (node : Value) : node.at? [] = some node := rfl

@[simp] lemma at?_cons (node : Value) (step : Step) (rest : Address) :
    node.at? (step :: rest) = (node.childAt? step).bind (at? · rest) := rfl

lemma at?_append (node : Value) (A B : Address) :
    node.at? (A ++ B) = (node.at? A).bind (at? · B) := by
  induction A generalizing node with
  | nil => rfl
  | cons step rest ih => simp [ih, Option.bind_assoc]

@[simp] lemma childAt?_seq_index (items : List Value) (i : Nat) :
    (seq items).childAt? (.index i) = items[i]? := rfl

@[simp] lemma childAt?_seq_key (items : List Value) (k : Value) :
    (seq items).childAt? (.key k) = none := by
  cases k with
  | scalar a => cases a <;> rfl
  | seq _ | strMap _ | anyMap _ => rfl

lemma childAt?_name (node : Value) (s : String) : node.childAt? (.name s) = node.child? s := by
  cases node with
  | scalar _ => rfl
  | seq _ => rfl
  | strMap fields => rfl
  | anyMap entries => exact Table.get?_text entries s

lemma opened_of_absent {child : Option Value} (h : isAbsent child = true) :
    opened child = anyMap [] := by
  simp [opened, h]

lemma opened_some (h : old.isNull = false) : opened (some old) = old := by
  simp [opened, isAbsent, h]

@[simp] lemma isNull_opened (child : Option Value) : (opened child).isNull = false := by
  unfold opened
  split
  case isTrue => rfl
  case isFalse h => cases child <;> simp_all [isAbsent]

@[simp] lemma put_nil (node new : Value) : node.put [] new = new := by
  cases node <;> rfl

lemma put_index {items : List Value} {i : Nat} {item : Value} (h : items[i]? = some item)
    (rest : Address) (new : Value) :
    (seq items).put (.index i :: rest) new = seq (items.set i (item.put rest new)) := by
  simp [put, h]

lemma put_name (node : Value) (s : String) (rest : Address) (new : Value) :
    node.put (.name s :: rest) new = node.setChild s ((node.slot s).put rest new) := by
  cases node <;> rfl

/-- Below a child, opening it or not makes no difference. -/
lemma at?_opened (child : Option Value) (h : A ≠ []) :
    (opened child).at? A = child.bind (at? · A) := by
  obtain ⟨step, rest, rfl⟩ := List.exists_cons_of_ne_nil h
  unfold opened
  split
  case isFalse hchild => cases child <;> simp_all [isAbsent]
  case isTrue hchild =>
    have hempty : (anyMap []).childAt? step = none := by cases step <;> rfl
    have hnull : null.childAt? step = none := by cases step <;> rfl
    cases child with
    | none => simp [hempty]
    | some node =>
      obtain rfl : node = null := isNull_iff.1 hchild
      simp [hempty, hnull]

lemma opened_at?_opened (child : Option Value) (A : Address) :
    opened ((opened child).at? A) = opened (child.bind (at? · A)) := by
  cases A with
  | nil =>
    rw [at?_nil, opened_some (isNull_opened child)]
    cases child <;> rfl
  | cons step rest => rw [at?_opened child (List.cons_ne_nil _ _)]

/-- There is nothing to write below null. -/
lemma Writable.isNull_eq_false {step : Step} {rest : Address} (h : Writable node (step :: rest)) :
    node.isNull = false := by
  cases h with
  | item => rfl
  | key mapping _ => cases node <;> simp_all [isMapping, isNull]

/-- Filling a slot changes nothing under any other key. -/
lemma childAt?_setChild (h : node.isMapping = true) (s : String) (child : Value) (step : Step) :
    (node.setChild s child).childAt? step =
      if step = .name s then some child else node.childAt? step := by
  by_cases hstep : step = .name s
  · subst hstep
    simp [childAt?_name, child?_setChild h]
  cases node with
  | scalar _ => simp [isMapping] at h
  | seq _ => simp [isMapping] at h
  | strMap fields =>
    rw [if_neg hstep]
    cases step with
    | index i => rfl
    | key k =>
      cases hk : k.text? with
      | none =>
        -- a string-keyed mapping has nothing under such a key, before and after
        have hnone : ∀ fields, (strMap fields).childAt? (.key k) = none := by
          intro fields
          cases k with
          | scalar a => cases a <;> simp_all [childAt?, text?]
          | seq _ | strMap _ | anyMap _ => rfl
        simp only [setChild, hnone]
      | some t =>
        obtain rfl := text?_eq_some_iff.1 hk
        have hne : s ≠ t := by rintro rfl; exact hstep rfl
        simp [setChild, childAt?, Fields.get?_insert, hne]
  | anyMap entries =>
    cases step with
    | index i => rfl
    | key k =>
      have hk : k ≠ text s := by rintro rfl; exact hstep rfl
      simp [setChild, childAt?, Table.get?_putText, hk]

/-! ## Writing is a single-address update -/

theorem at?_put_self (h : Writable node A) (new : Value) : (node.put A new).at? A = some new := by
  induction h with
  | here node => simp
  | @item items i item rest found _ ih =>
    have hi : i < items.length := (List.getElem?_eq_some_iff.1 found).1
    simp [put_index found, hi, ih]
  | key mapping _ ih => simp [put_name, childAt?_setChild mapping, ih]

theorem at?_put_of_apart (h : Writable node A) (hAB : ¬ A <+: B) (hBA : ¬ B <+: A)
    (new : Value) : (node.put A new).at? B = node.at? B := by
  induction h generalizing B with
  | here node => exact absurd List.nil_prefix hAB
  | @item items i item rest found _ ih =>
    cases B with
    | nil => exact absurd List.nil_prefix hBA
    | cons step rest' =>
      rw [put_index found, at?_cons, at?_cons]
      cases step with
      | key k => simp
      | index j =>
        by_cases hj : i = j
        · subst hj
          have hi : i < items.length := (List.getElem?_eq_some_iff.1 found).1
          simp only [List.cons_prefix_cons, true_and] at hAB hBA
          rw [childAt?_seq_index, childAt?_seq_index, List.getElem?_set_self hi, found,
            Option.bind_some, Option.bind_some, ih hAB hBA]
        · rw [childAt?_seq_index, childAt?_seq_index, List.getElem?_set_ne hj]
  | @key node s rest mapping _ ih =>
    cases B with
    | nil => exact absurd List.nil_prefix hBA
    | cons step rest' =>
      rw [put_name, at?_cons, at?_cons, childAt?_setChild mapping]
      split
      case isFalse => rfl
      case isTrue hstep =>
        subst hstep
        simp only [List.cons_prefix_cons, true_and] at hAB hBA
        have hne : rest' ≠ [] := by rintro rfl; exact hBA List.nil_prefix
        rw [Option.bind_some, ih hAB hBA, childAt?_name, at?_opened _ hne]

/-! ## What becomes of the containers on the way -/

/-- `Refilled old step child new`: the container `new` is `old` with one slot given to `child`.  The
other entries are the same and in the same order; a slot that was not there is one more entry, which
comes last among the entries of an any-keyed mapping. -/
inductive Refilled : Value → Step → Value → Value → Prop
  | item (before after : List Value) (x y : Value) :
      Refilled (seq (before ++ x :: after)) (.index before.length) y (seq (before ++ y :: after))
  | field (before after : List (String × Value)) (s : String) (x y : Value) :
      Refilled (strMap (before ++ (s, x) :: after)) (.name s) y (strMap (before ++ (s, y) :: after))
  | newField (before after : List (String × Value)) (s : String) (y : Value)
      (missing : ∀ e ∈ before ++ after, e.1 ≠ s) :
      Refilled (strMap (before ++ after)) (.name s) y (strMap (before ++ (s, y) :: after))
  | entry (before after : Table) (s : String) (x y : Value) :
      Refilled (anyMap (before ++ (text s, x) :: after)) (.name s) y
        (anyMap (before ++ (text s, y) :: after))
  | newEntry (entries : Table) (s : String) (y : Value) (missing : ∀ e ∈ entries, e.1 ≠ text s) :
      Refilled (anyMap entries) (.name s) y (anyMap (entries ++ [(text s, y)]))

lemma refilled_setChild (h : node.isMapping = true) (s : String) (child : Value) :
    Refilled node (.name s) child (node.setChild s child) := by
  cases node with
  | scalar _ => simp [isMapping] at h
  | seq _ => simp [isMapping] at h
  | strMap fields =>
    cases hs : Fields.get? fields s with
    | none =>
      have hmissing := Fields.get?_eq_none_iff.1 hs
      obtain ⟨before, after, rfl, hinsert⟩ := Fields.exists_insert_of_missing hs child
      rw [setChild, hinsert]
      exact .newField before after s child hmissing
    | some old =>
      obtain ⟨before, after, rfl, hinsert⟩ := Fields.exists_insert_of_get? hs child
      rw [setChild, hinsert]
      exact .field before after s old child
  | anyMap entries =>
    cases hs : Table.getText? entries s with
    | none =>
      have hmissing := Table.getText?_eq_none_iff.1 hs
      rw [setChild, Table.putText_of_not_mem hmissing]
      exact .newEntry entries s child hmissing
    | some old =>
      obtain ⟨before, after, rfl, hbefore⟩ := Table.exists_of_getText? hs
      rw [setChild, Table.putText_of_mem hbefore]
      exact .entry before after s old child

/-- The first step of a write refills one slot of its container. -/
theorem refilled_put {step : Step} {rest : Address} (h : Writable node (step :: rest))
    (new : Value) :
    ∃ child, (node.put (step :: rest) new).childAt? step = some child ∧
      Refilled node step child (node.put (step :: rest) new) := by
  cases h with
  | @item items i item _ found _ =>
    obtain ⟨hi, rfl⟩ := List.getElem?_eq_some_iff.1 found
    have hsplit : items = items.take i ++ items[i] :: items.drop (i + 1) := by simp
    have hlength : (items.take i).length = i := List.length_take_of_le (Nat.le_of_lt hi)
    refine ⟨items[i].put rest new, by simp [put_index found, hi], ?_⟩
    rw [put_index found, List.set_eq_take_append_cons_drop, if_pos hi]
    have := Refilled.item (items.take i) (items.drop (i + 1)) items[i] (items[i].put rest new)
    rwa [hlength, ← hsplit] at this
  | @key _ s _ mapping _ =>
    refine ⟨(node.slot s).put rest new, ?_, ?_⟩
    · simp [put_name, childAt?_setChild mapping]
    · rw [put_name]
      exact refilled_setChild mapping s _

/-- A write passes through the containers on its way: at each of them it goes on as a write of what
is left of the address, from an empty mapping where nothing was. -/
theorem at?_put_before (h : Writable node (A ++ B)) (new : Value) :
    (node.put (A ++ B) new).at? A = some ((opened (node.at? A)).put B new) ∧
      Writable (opened (node.at? A)) B := by
  induction A generalizing node with
  | nil =>
    cases B with
    | nil => exact ⟨by simp, .here _⟩
    | cons step rest => simpa [opened_some h.isNull_eq_false] using h
  | cons step rest ih =>
    cases h with
    | @item items i item _ found below =>
      have hi : i < items.length := (List.getElem?_eq_some_iff.1 found).1
      rw [List.cons_append, put_index found, at?_cons, at?_cons, childAt?_seq_index,
        childAt?_seq_index, List.getElem?_set_self hi, found, Option.bind_some, Option.bind_some]
      exact ih below
    | @key _ s _ mapping below =>
      rw [List.cons_append, put_name, at?_cons, at?_cons, childAt?_setChild mapping, if_pos rfl,
        childAt?_name, Option.bind_some, ← opened_at?_opened]
      exact ih below

end Value

end PropertyTree
