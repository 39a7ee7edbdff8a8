import Mathlib.Data.List.Basic
import PropertyTree.Proofs.Walks

/-!
# Setting a value

A successful `Value.setAt` is one `Value.put`: its address is the one the parents walk, with the
last segment as one more key (`setAt_eq_put`).  What it does to the tree then follows from the laws
of `put`, and `SingleUpdate` lists it node by node.

The root is special in one respect only: a null root becomes a string-keyed mapping, where any other
node that is made on the way is any-keyed.  Seen from the tree that was set in, `walkRoot` has
already put the former in place, so the laws are applied to that tree and the root is told apart
afterwards.
-/

namespace PropertyTree

namespace Value

variable {root node container value : Value} {segments : List String} {address : Address}

/-! ## The address that is written -/

/-- A walk that vivifies and ends at a mapping can be written one key further. -/
lemma Walks.writable (h : Walks true node segments address container)
    (mapping : container.isMapping = true) (s : String) :
    Writable node (address ++ [.name s]) := by
  induction h with
  | here node => exact .key mapping (.here _)
  | item form found _ ih => exact .item (firstAnswer_answers found).1 (ih mapping)
  | child mapping' found isOpen _ ih =>
    refine .key mapping' ?_
    rw [slot_of_isContainer found isOpen]
    exact ih mapping
  | made _ mapping' absent _ ih =>
    refine .key mapping' ?_
    rw [slot, opened_of_absent absent]
    exact ih mapping

/-- Writing below the container is writing it back with the change. -/
lemma Walks.put_append {vivify : Bool} (h : Walks vivify node segments address container)
    (below : Address) (new : Value) :
    node.put (address ++ below) new = node.put address (container.put below new) := by
  induction h with
  | here node => simp
  | item form found _ ih =>
    have hitem := (firstAnswer_answers found).1
    rw [List.cons_append, put_index hitem, put_index hitem, ih]
  | child mapping found isOpen _ ih =>
    rw [List.cons_append, put_name, put_name, slot_of_isContainer found isOpen, ih]
  | made _ mapping absent _ ih =>
    rw [List.cons_append, put_name, put_name, slot, opened_of_absent absent, ih]

lemma setAt_of_walks {path : Path}
    (h : Walks true (walkRoot true root) path.parents address container)
    (mapping : container.isMapping = true) (value : Value) :
    (root.setAt path true value).outcome = .ok () ∧
      (root.setAt path true value).node =
        (walkRoot true root).put (address ++ [.name path.last]) value := by
  obtain ⟨houtcome, hnode⟩ := follow_of_walks h path.text (set path.last path.text value)
  rw [set_mapping mapping] at houtcome hnode
  rw [h.put_append, put_name, put_nil]
  exact ⟨houtcome, hnode⟩

/-- A set that succeeds writes the value at the address walked, under the last segment. -/
theorem setAt_eq_put {path : Path} (h : (root.setAt path true value).outcome = .ok ()) :
    ∃ address container, Walks true (walkRoot true root) path.parents address container ∧
      container.isMapping = true ∧
      (root.setAt path true value).node =
        (walkRoot true root).put (address ++ [.name path.last]) value := by
  obtain ⟨address, container, hwalks, houtcome, -⟩ := exists_walks_of_visit h
  have mapping : container.isMapping = true := by
    by_contra hnot
    rw [set_of_not_mapping (by simpa using hnot)] at houtcome
    cases houtcome
  exact ⟨address, container, hwalks, mapping, (setAt_of_walks hwalks mapping value).2⟩

/-! ## What a set does to the tree -/

/-- The tree `new` is `old` with `value` written at the address `target`, and nothing else. -/
structure SingleUpdate (old : Value) (target : Address) (value new : Value) : Prop where
  /-- The value is at the address. -/
  arrives : new.at? target = some value
  /-- Addresses that are neither before nor after it have the nodes they had, or none. -/
  frame : ∀ B, ¬ B <+: target → ¬ target <+: B → new.at? B = old.at? B
  /-- A node on the way that was there has one slot refilled. -/
  kept : ∀ B step rest node, target = B ++ step :: rest → old.at? B = some node →
    node.isNull = false → ∃ child next, new.at? B = some next ∧
      new.at? (B ++ [step]) = some child ∧ node.Refilled step child next
  /-- A node on the way that was missing or null has become a mapping with one entry, string-keyed
  if it is the root and any-keyed otherwise. -/
  made : ∀ B step rest, target = B ++ step :: rest → isAbsent (old.at? B) = true →
    ∃ s child, step = .name s ∧ new.at? (B ++ [step]) = some child ∧
      new.at? B = some (if B = [] then strMap [(s, child)] else anyMap [(text s, child)])

/-- The any-keyed mappings that are made below a fresh root, one inside the other. -/
def chain : List String → Value → Value
  | [], value => value
  | s :: rest, value => anyMap [(text s, chain rest value)]

lemma refilled_empty {step : Step} {child new : Value} (h : Refilled (anyMap []) step child new) :
    ∃ s, step = .name s ∧ new = anyMap [(text s, child)] := by
  generalize hold : anyMap [] = old at h
  cases h with
  | item | field | newField => cases hold
  | entry before after s x y => simp at hold
  | newEntry entries s y =>
    obtain rfl : [] = entries := by simpa using hold
    exact ⟨s, rfl, rfl⟩

lemma refilled_emptyRoot {step : Step} {child new : Value}
    (h : Refilled (strMap []) step child new) :
    ∃ s, step = .name s ∧ new = strMap [(s, child)] := by
  generalize hold : strMap [] = old at h
  cases h with
  | item | entry | newEntry => cases hold
  | field before after s x y => simp at hold
  | newField before after s y =>
    obtain ⟨rfl, rfl⟩ : before = [] ∧ after = [] := by simpa using hold
    exact ⟨s, rfl, rfl⟩

/-- The laws of `put`, together. -/
theorem singleUpdate_put {target : Address} (h : Writable node target) (hnode : node.isNull = false)
    (value : Value) : SingleUpdate node target value (node.put target value) where
  arrives := at?_put_self h value
  frame B hB htarget := at?_put_of_apart h htarget hB value
  kept B step rest old htarget hold hnull := by
    subst htarget
    obtain ⟨hat, hwritable⟩ := at?_put_before h value
    rw [hold, opened_some hnull] at hat hwritable
    obtain ⟨child, hchild, hrefilled⟩ := refilled_put hwritable value
    refine ⟨child, old.put (step :: rest) value, hat, ?_, hrefilled⟩
    rw [at?_append, hat]
    simp [hchild]
  made B step rest htarget habsent := by
    subst htarget
    obtain ⟨hat, hwritable⟩ := at?_put_before h value
    rw [opened_of_absent habsent] at hat hwritable
    obtain ⟨child, hchild, hrefilled⟩ := refilled_put hwritable value
    obtain ⟨s, hstep, hnew⟩ := refilled_empty hrefilled
    -- the root is not null here, so what was made is not the root
    have hB : B ≠ [] := by
      rintro rfl
      simp [isAbsent, hnode] at habsent
    refine ⟨s, child, hstep, ?_, ?_⟩
    · rw [at?_append, hat]
      simp [hchild]
    · rw [if_neg hB, hat, hnew]

lemma at?_below_null {B : Address} (h : B ≠ []) : null.at? B = none ∧ (strMap []).at? B = none := by
  obtain ⟨step, rest, rfl⟩ := List.exists_cons_of_ne_nil h
  have hnull : null.childAt? step = none := by cases step <;> rfl
  have hempty : (strMap []).childAt? step = none := by
    cases step with
    | index i => rfl
    | key k =>
      cases k with
      | scalar a => cases a <;> rfl
      | seq _ | strMap _ | anyMap _ => rfl
  simp [hnull, hempty]

/-- An update of the mapping that a null root is taken for is an update of the null root. -/
lemma SingleUpdate.of_emptyRoot {target : Address} {value new : Value}
    (h : SingleUpdate (strMap []) target value new) : SingleUpdate null target value new where
  arrives := h.arrives
  frame B hB htarget := by
    have hne : B ≠ [] := by rintro rfl; exact hB List.nil_prefix
    rw [h.frame B hB htarget, (at?_below_null hne).1, (at?_below_null hne).2]
  kept B step rest old htarget hold hnull := by
    by_cases hB : B = []
    · subst hB
      obtain rfl : null = old := by simpa using hold
      cases hnull
    · rw [(at?_below_null hB).1] at hold
      cases hold
  made B step rest htarget habsent := by
    by_cases hB : B = []
    · subst hB
      obtain ⟨child, next, hnext, hchild, hrefilled⟩ := h.kept [] step rest _ htarget rfl rfl
      obtain ⟨s, hstep, rfl⟩ := refilled_emptyRoot hrefilled
      exact ⟨s, child, hstep, hchild, by rw [if_pos rfl, hnext]⟩
    · exact h.made B step rest htarget (by rw [(at?_below_null hB).2]; rfl)

/-! ## Setting below a null root -/

lemma put_names (segments : List String) (value : Value) :
    (anyMap []).put (segments.map Step.name) value = chain segments value := by
  induction segments with
  | nil => rw [List.map_nil, put_nil, chain]
  | cons s rest ih =>
    have hslot : (anyMap []).slot s = anyMap [] := rfl
    rw [List.map_cons, put_name, hslot, ih]
    rfl

/-- From a null root, a set makes a string-keyed root and a chain of any-keyed mappings. -/
theorem setAt_null {path : Path} {first : String} {rest : List String}
    (h : path.segments = first :: rest) (value : Value) :
    (null.setAt path true value).outcome = .ok () ∧
      (null.setAt path true value).node = strMap [(first, chain rest value)] := by
  obtain ⟨container, hwalks, mapping⟩ := walks_emptyRoot path.parents
  have hset := @setAt_of_walks null _ _ path hwalks mapping value
  obtain ⟨houtcome, hnode⟩ := hset
  have hnames :
      path.parents.map Step.name ++ [.name path.last] = (first :: rest).map Step.name := by
    rw [← h, Path.segments, List.map_append, List.map_singleton]
  have hroot : walkRoot true null = strMap [] := rfl
  have hslot : (strMap []).slot first = anyMap [] := rfl
  rw [hnames, List.map_cons, hroot, put_name, hslot, put_names] at hnode
  exact ⟨houtcome, hnode⟩

/-! ## The main statement -/

/-- A set that succeeds updates the one address that it walks, and from a null root it makes a
string-keyed mapping with a chain of any-keyed ones below. -/
theorem setAt_updates_one_address {path : Path}
    (h : (root.setAt path true value).outcome = .ok ()) :
    (∃ address container, Walks true (walkRoot true root) path.parents address container ∧
      SingleUpdate root (address ++ [.name path.last]) value (root.setAt path true value).node) ∧
    ∀ first rest, path.segments = first :: rest → root = null →
      (root.setAt path true value).node = strMap [(first, chain rest value)] := by
  obtain ⟨address, container, hwalks, mapping, hnode⟩ := setAt_eq_put h
  refine ⟨⟨address, container, hwalks, ?_⟩, ?_⟩
  · have hwritable := hwalks.writable mapping path.last
    rw [hnode]
    rcases walkRoot_eq true root with hroot | ⟨-, rfl, hroot⟩
    · rw [hroot] at hwritable ⊢
      have hne : address ++ [.name path.last] ≠ [] := by simp
      obtain ⟨step, rest, hcons⟩ := List.exists_cons_of_ne_nil hne
      have hnull := Writable.isNull_eq_false (hcons ▸ hwritable)
      exact singleUpdate_put hwritable hnull value
    · rw [hroot] at hwritable ⊢
      exact (singleUpdate_put hwritable rfl value).of_emptyRoot
  · rintro first rest hsegments rfl
    exact (setAt_null hsegments value).2

/-- A tree with every kind of node: the path `routes/name=x/tls/on` leads through a sequence whose
items are of both kinds of mapping, and through a null that is to be opened. -/
def mixedTree : Value :=
  strMap [("routes", seq [int 1, strMap [("name", text "y")],
    anyMap [(int 1, text "kept"), (text "name", text "x"), (text "tls", null)]])]

theorem setAt_updates_one_address_mixed :
    let path : Path := ⟨["routes", "name=x", "tls"], "on"⟩
    (mixedTree.setAt path true (bool true)).outcome = .ok () ∧
      ∃ address container, Walks true mixedTree path.parents address container ∧
        SingleUpdate mixedTree (address ++ [.name "on"]) (bool true)
          (mixedTree.setAt path true (bool true)).node := by
  have h : (mixedTree.setAt ⟨["routes", "name=x", "tls"], "on"⟩ true (bool true)).outcome =
      .ok () := by decide +kernel
  exact ⟨h, (setAt_updates_one_address h).1⟩

example : (mixedTree.setAt ⟨["routes", "name=x", "tls"], "on"⟩ true (bool true)).node =
    strMap [("routes", seq [int 1, strMap [("name", text "y")],
      anyMap [(int 1, text "kept"), (text "name", text "x"),
        (text "tls", anyMap [(text "on", bool true)])]])] := by
  decide +kernel

end Value

end PropertyTree
