import PropertyTree.Proofs.IndependentSets
import PropertyTree.Proofs.TableLaws
import PropertyTree.Proofs.VivifyingWalks

/-!
# Removing a value

Two laws of `Value.removeAt`.  Where a path reads into a mapping that has nothing under the last
segment, setting a value and removing it again gives back the tree, with every entry in its place
(`removeAt_setAt`).  A removal that succeeds returns what a look-up would have found, takes this one
entry out, and does nothing else; `Removes` lists what that means.  `removeAt_laws` has both, and
says that a removal that fails does nothing at all.

The second law needs trees in which no two keys of a mapping are equal: dropping the first entry
with a key must not uncover another one.  The first law compares a store that goes by equality of
keys with a removal that goes by text, and they meet at the same entry whatever the other keys are.
-/

namespace PropertyTree

/-! ## Entries in front of the one that is dropped -/

lemma Fields.erase_append {before : List (String × Value)} {key : String}
    (h : ∀ e ∈ before, e.1 ≠ key) (rest : List (String × Value)) :
    erase (before ++ rest) key = before ++ erase rest key := by
  induction before with
  | nil => rfl
  | cons e before ih =>
    obtain ⟨he, hbefore⟩ := List.forall_mem_cons.1 h
    rw [List.cons_append, erase, if_neg he, ih hbefore]
    rfl

lemma Table.removeText_append {before : Table} {key : String}
    (h : ∀ e ∈ before, e.1 ≠ .text key) (rest : Table) :
    (removeText (before ++ rest) key).2 = before ++ (removeText rest key).2 := by
  induction before with
  | nil => rfl
  | cons e before ih =>
    obtain ⟨he, hbefore⟩ := List.forall_mem_cons.1 h
    have hkey : (e.1.text? == some key) = false := by simpa [Value.text?_eq_some_iff] using he
    simp [removeText, hkey, ih hbefore]

namespace Value

variable {root node container left value new : Value} {key : String} {segments : List String}
  {path : Path} {address : Address} {removed : Option Value}

/-! ## Dropping an entry of a mapping -/

lemma eraseChild_of_missing (h : node.child? key = none) : node.eraseChild key = node := by
  cases node with
  | scalar _ | seq _ => rfl
  | strMap fields =>
    have hdrop := Fields.erase_append (Fields.get?_eq_none_iff.1 h) []
    rw [List.append_nil, Fields.erase, List.append_nil] at hdrop
    exact congrArg strMap hdrop
  | anyMap entries =>
    have hdrop := Table.removeText_append (Table.getText?_eq_none_iff.1 h) []
    rw [List.append_nil, Table.removeText, List.append_nil] at hdrop
    exact congrArg anyMap hdrop

/-- A new entry that is dropped leaves the entries as they were. -/
lemma eraseChild_setChild (h : node.child? key = none) (value : Value) :
    (node.setChild key value).eraseChild key = node := by
  cases node with
  | scalar _ | seq _ => rfl
  | strMap fields =>
    have hmissing := Fields.get?_eq_none_iff.1 h
    obtain ⟨before, after, rfl, hinsert⟩ := Fields.exists_insert_of_missing h value
    have hbefore : ∀ e ∈ before, e.1 ≠ key := fun e he => hmissing e (List.mem_append_left _ he)
    rw [setChild, eraseChild, hinsert, Fields.erase_append hbefore, Fields.erase, if_pos rfl]
  | anyMap entries =>
    have hmissing := Table.getText?_eq_none_iff.1 h
    have hdrop : (Table.removeText [(text key, value)] key).2 = [] := by
      simp [Table.removeText, text?]
    rw [setChild, eraseChild, Table.putText_of_not_mem hmissing, Table.removeText_append hmissing,
      hdrop, List.append_nil]

/-- Dropping a child changes nothing under any other key. -/
lemma childAt?_eraseChild (hnode : node.WellFormed) (key : String) (step : Step) :
    (node.eraseChild key).childAt? step =
      if step = .name key then none else node.childAt? step := by
  by_cases hstep : step = .name key
  case pos =>
    subst hstep
    rw [if_pos rfl, childAt?_name]
    cases hnode with
    | scalar _ | seq _ => rfl
    | strMap sorted => exact (Fields.get?_erase sorted.nodup_keys key key).trans (if_pos rfl)
    | anyMap distinct keys =>
      have hget := Table.Keyed.get?_removeText ⟨keys, distinct⟩ key (text key)
      rw [if_pos (Table.text_equal_self key), Table.get?_text] at hget
      exact hget
  case neg =>
    rw [if_neg hstep]
    cases hnode with
    | scalar _ | seq _ => rfl
    | @strMap fields sorted =>
      cases step with
      | index i => rfl
      | key k =>
        cases k with
        | scalar s =>
          cases s with
          | text other =>
            have hne : key ≠ other := by rintro rfl; exact hstep rfl
            exact (Fields.get?_erase sorted.nodup_keys key other).trans (if_neg hne)
          | null | bool _ | int _ | float _ => rfl
        | seq _ | strMap _ | anyMap _ => rfl
    | anyMap distinct keys =>
      cases step with
      | index i => rfl
      | key k =>
        have hne : ¬ (text key).equal k = true := by
          rw [text_equal_iff]
          rintro rfl
          exact hstep rfl
        exact (Table.Keyed.get?_removeText ⟨keys, distinct⟩ key k).trans (if_neg hne)

/-- What was dropped is not found any more. -/
lemma child?_eraseChild (hnode : node.WellFormed) (key : String) :
    (node.eraseChild key).child? key = none := by
  rw [← childAt?_name, childAt?_eraseChild hnode, if_pos rfl]

@[simp] lemma kind_eraseChild (node : Value) (key : String) :
    (node.eraseChild key).kind = node.kind := by
  cases node <;> rfl

lemma isMapping_eraseChild (node : Value) (key : String) :
    (node.eraseChild key).isMapping = node.isMapping := by
  cases node <;> rfl

lemma ne_null_of_isMapping (h : node.isMapping = true) : node ≠ null := by
  rintro rfl
  cases h

/-! ## Undoing a set -/

/-- Of two writes at one address the last one counts. -/
lemma put_put_self (h : Writable node address) (hnode : node.WellFormed) (x y : Value) :
    (node.put address x).put address y = node.put address y := by
  induction h with
  | here node => rw [put_nil, put_nil]
  | @item items i item rest found _ ih =>
    obtain ⟨hi, -⟩ := List.getElem?_eq_some_iff.1 found
    have hset : (items.set i (item.put rest x))[i]? = some (item.put rest x) :=
      List.getElem?_set_self hi
    rw [put_index found, put_index found, put_index hset, List.set_set,
      ih (hnode.items item (List.mem_of_getElem? found))]
  | @key node s rest mapping below ih =>
    rw [put_name, put_name, put_name, slot_setChild_self mapping, setChild_setChild hnode]
    cases rest with
    | nil => rw [put_nil, put_nil]
    | cons step rest =>
      rw [opened_some (isNull_of_isContainer (isContainer_put below x)), ih (hnode.slot s)]

/-- A removal whose walk gets to a mapping takes the entry out of it. -/
lemma removeAt_of_walks {vivify : Bool}
    (h : Walks vivify (walkRoot vivify root) path.parents address container)
    (mapping : container.isMapping = true) :
    (root.removeAt path vivify).outcome = .ok (container.child? path.last) ∧
      (root.removeAt path vivify).node =
        (walkRoot vivify root).put address (container.eraseChild path.last) := by
  obtain ⟨houtcome, hnode⟩ := follow_of_walks h path.text (remove path.last path.text)
  rw [remove_mapping mapping] at houtcome hnode
  exact ⟨houtcome, hnode⟩

/-- A walk that reads a node other than null starts from one. -/
lemma Walks.root_ne_null (h : Walks false root segments address container)
    (hcontainer : container ≠ null) : root ≠ null := by
  rintro rfl
  have habsent := @isAbsent_of_at?_append null container [] address h.of_read.1 hcontainer
  cases habsent

/-- Where a reading walk gets to a mapping that has nothing under the last segment, a removal undoes
a set. -/
theorem removeAt_setAt (hroot : root.WellFormed)
    (h : (root.resolve path false).outcome = .ok container) (hlacks : container.Lacks path.last)
    (value : Value) (vivify : Bool) :
    (root.setAt path true value).outcome = .ok () ∧
      ((root.setAt path true value).node.removeAt path vivify).outcome = .ok (some value) ∧
      ((root.setAt path true value).node.removeAt path vivify).node = root := by
  obtain ⟨mapping, hmissing⟩ := lacks_iff.1 hlacks
  obtain ⟨address, container', hwalks, hsame, -⟩ := exists_walks_of_visit h
  obtain rfl : container' = container := Except.ok.inj hsame
  have hread : Walks false root path.parents address container' := hwalks
  have hne : root ≠ null := hread.root_ne_null (ne_null_of_isMapping mapping)
  obtain ⟨hset, hnode⟩ := setAt_of_walks (hread.inMode hne true) mapping value
  rw [walkRoot_of_ne_null hne, hread.put_append, put_name, put_nil] at hnode
  have mapping' : (container'.setChild path.last value).isMapping = true := by
    rw [isMapping_setChild, mapping]
  -- a query that picked the mapping asked for a key that it has, so not for the one that was set
  have hreread := hread.reread (isContainer_of_isMapping mapping')
    fun _ _ key x _ _ _ _ _ hanswers => by
      rw [answers_iff] at hanswers ⊢
      have hkey : path.last ≠ key := by
        rintro rfl
        cases hmissing.symm.trans hanswers
      rw [child?_setChild mapping, if_neg hkey, hanswers]
  rw [← hnode] at hreread
  have hne' : (root.setAt path true value).node ≠ null :=
    hreread.root_ne_null (ne_null_of_isMapping mapping')
  obtain ⟨hremove, hleft⟩ := removeAt_of_walks (hreread.inMode hne' vivify) mapping'
  refine ⟨hset, ?_, ?_⟩
  · rw [hremove, child?_setChild mapping, if_pos rfl]
  · rw [hleft, eraseChild_setChild hmissing, walkRoot_of_ne_null hne', hnode,
      put_put_self hread.writable_self hroot, hread.of_read.2]

/-! ## What a removal does to the tree -/

/-- The removal at a path takes the entry under the last segment out of the mapping at the address,
and does nothing else. -/
structure Removes (root : Value) (path : Path) (removed : Option Value) (new : Value)
    (address : Address) (container left : Value) : Prop where
  walks : Walks false root path.parents address container
  /-- What is returned is what is stored under the last segment, and nothing if nothing is. -/
  stored : ∀ x, removed = some x ↔ container.Stores path.last x
  missing : removed = none ↔ container.Lacks path.last
  /-- It is what a look-up finds, which reads a missing entry as null. -/
  found : (root.lookupAt path false).outcome = .ok (removed.getD null)
  /-- If nothing was there, the tree stays as it is. -/
  unchanged : removed = none → new = root
  /-- The mapping is left with its other entries, in their order. -/
  kind : left.kind = container.kind
  entries : ∀ entries, container.entries? = some entries →
    left.entries? = some (entries.filter fun e => e.1 ≠ text path.last)
  /-- Afterwards a look-up finds nothing in it, and another removal has nothing to remove. -/
  lookup : left.lookup path.last path.text = .ok null
  again : remove path.last path.text left = (.ok none, left)
  /-- The mapping is the only node that is written, and the nodes that lead to it keep their other
  entries in their order. -/
  update : SingleUpdate root address left new
  /-- No node is made. -/
  nothingMade : ∀ B node, new.at? B = some node → ∃ old, root.at? B = some old

/-- No address of the tree is new. -/
lemma Walks.exists_at?_of_put (h : Walks false root segments address container)
    (hcontainer : container.WellFormed) (key : String) {B : Address}
    (hnode : (root.put address (container.eraseChild key)).at? B = some node) :
    ∃ old, root.at? B = some old := by
  have hwritable := h.writable_self
  have hold := h.of_read.1
  by_cases hAB : address <+: B
  case pos =>
    obtain ⟨C, rfl⟩ := hAB
    rw [at?_append, at?_put_self hwritable, Option.bind_some] at hnode
    rw [at?_append, hold, Option.bind_some]
    cases C with
    | nil => exact ⟨container, rfl⟩
    | cons step C =>
      rw [at?_cons, childAt?_eraseChild hcontainer] at hnode
      split at hnode
      case isTrue => cases hnode
      case isFalse => exact ⟨node, hnode⟩
  case neg =>
    by_cases hBA : B <+: address
    · obtain ⟨C, rfl⟩ := hBA
      rw [at?_append] at hold
      obtain ⟨old, hat, -⟩ := Option.bind_eq_some_iff.1 hold
      exact ⟨old, hat⟩
    · exact ⟨node, (at?_put_of_apart hwritable hAB hBA _).symm.trans hnode⟩

/-- What a removal that succeeds does. -/
theorem removes_of_removeAt (hroot : root.WellFormed)
    (h : (root.removeAt path false).outcome = .ok removed) :
    ∃ address container left,
      Removes root path removed (root.removeAt path false).node address container left := by
  obtain ⟨address, container, hwalks, hremove, -⟩ := exists_walks_of_visit h
  have hread : Walks false root path.parents address container := hwalks
  have mapping : container.isMapping = true := by
    by_contra hnot
    rw [remove_of_not_mapping (by simpa using hnot)] at hremove
    cases hremove
  obtain ⟨houtcome, hnode⟩ := removeAt_of_walks hwalks mapping
  obtain rfl : container.child? path.last = removed := Except.ok.inj (houtcome.symm.trans h)
  have hcontainer : container.WellFormed := hroot.at? hread.of_read.1
  have hgone := child?_eraseChild hcontainer path.last
  have mapping' : (container.eraseChild path.last).isMapping = true := by
    rw [isMapping_eraseChild, mapping]
  have hnull : root.isNull = false := by
    have hne := hread.root_ne_null (ne_null_of_isMapping mapping)
    exact Bool.eq_false_iff.2 fun h => hne (isNull_iff.1 h)
  refine ⟨address, container, container.eraseChild path.last, ?_⟩
  rw [hnode]
  exact {
    walks := hread
    stored := fun x => stores_iff.symm
    missing := by rw [lacks_iff, mapping]; simp
    found := lookupAt_of_walks hread mapping
    unchanged := fun hmissing => by rw [eraseChild_of_missing hmissing]; exact hread.of_read.2
    kind := kind_eraseChild container path.last
    entries := fun entries hentries => entries_eraseChild hcontainer hentries path.last
    lookup := by rw [lookup_mapping mapping', hgone, Option.getD_none]
    again := by rw [remove_mapping mapping', hgone, eraseChild_of_missing hgone]
    update := singleUpdate_put hread.writable_self hnull _
    nothingMade := fun B node hB => hread.exists_at?_of_put hcontainer path.last hB }

/-! ## The main statement -/

/-- On a well-formed tree, a removal undoes a set of what was not there; a removal that succeeds
takes out one entry and does nothing else; and one that fails does nothing. -/
theorem removeAt_laws (hroot : root.WellFormed) (path : Path) :
    (∀ container, (root.resolve path false).outcome = .ok container → container.Lacks path.last →
      ∀ value vivify, (root.setAt path true value).outcome = .ok () ∧
        ((root.setAt path true value).node.removeAt path vivify).outcome = .ok (some value) ∧
        ((root.setAt path true value).node.removeAt path vivify).node = root) ∧
      (∀ removed, (root.removeAt path false).outcome = .ok removed →
        ∃ address container left,
          Removes root path removed (root.removeAt path false).node address container left) ∧
      ∀ failure, (root.removeAt path false).outcome = .error failure →
        (root.removeAt path false).node = root :=
  ⟨fun _ h hlacks value vivify => removeAt_setAt hroot h hlacks value vivify,
    fun _ h => removes_of_removeAt hroot h,
    fun _ h => visit_node_of_error (restrained_remove path.last path.text) h⟩

/-- Setting and removing the key `on`, in an any-keyed mapping that a query picks. -/
theorem removeAt_laws_mixed :
    let path : Path := ⟨["routes", "name=x"], "on"⟩
    let set := (mixedTree.setAt path true (bool true)).node
    mixedTree.WellFormed ∧ (set.removeAt path false).outcome = .ok (some (bool true)) ∧
      (set.removeAt path false).node = mixedTree := by
  intro path set
  have hroot : mixedTree.WellFormed := by decide +kernel
  have hresolve : (mixedTree.resolve path false).outcome =
      .ok (anyMap [(int 1, text "kept"), (text "name", text "x"), (text "tls", null)]) := by
    decide +kernel
  have hlacks : Lacks (anyMap [(int 1, text "kept"), (text "name", text "x"), (text "tls", null)])
      path.last := lacks_iff.2 ⟨rfl, by decide +kernel⟩
  exact ⟨hroot, ((removeAt_laws hroot path).1 _ hresolve hlacks (bool true) false).2⟩

end Value

end PropertyTree
