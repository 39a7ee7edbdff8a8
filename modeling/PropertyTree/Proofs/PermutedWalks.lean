import PropertyTree.Proofs.IterationOrder

/-!
# Walks on trees of hash tables

The operations of this library can be done on a tree of hash tables as well, and they may leave its
fields in any order.  Afterwards the tree is the one that they would have made of sorted fields, up
to these orders: `Value.built` commutes with looking up a child, storing one and dropping one
(`child?_built`, `built_setChild`, `built_eraseChild`).  So a walk goes the same way on a tree and
on what insertion makes of it.  It enters the same keys, picks items at the same indices, reports
the same events, and fails with the same failure, also where the failure shows a mapping, because
what is shown is sorted (`follow_built`).

What is done at the end of a walk is an action, and `Value.OrderBlind` is what is asked of it.
-/

namespace PropertyTree

/-- A visit as it is after its node and its result were made by insertion. -/
def Visit.built {α β : Type} (g : α → β) (visit : Visit α) : Visit β :=
  ⟨visit.outcome.map g, visit.node.built, visit.events⟩

namespace Value

variable {α β : Type} {node child : Value} {key path segment : String}

/-! ## Kinds -/

@[simp] lemma kind_built (node : Value) : node.built.kind = node.kind := by
  cases node <;> simp [built, kind]

@[simp] lemma isMapping_built (node : Value) : node.built.isMapping = node.isMapping := by
  cases node <;> simp [built, isMapping]

@[simp] lemma isContainer_built (node : Value) : node.built.isContainer = node.isContainer := by
  cases node <;> simp [built, isContainer]

@[simp] lemma isNull_built (node : Value) : node.built.isNull = node.isNull := by
  cases node <;> simp [built, isNull]

@[simp] lemma text?_built (node : Value) : node.built.text? = node.text? := by
  cases node <;> simp [built, text?]

lemma built_text_iff : node.built = text key ↔ node = text key := by
  rw [← text?_eq_some_iff, text?_built, text?_eq_some_iff]

/-! ## Children -/

lemma getText?_built (entries : Table) (key : String) :
    Table.getText? (entries.map fun e => (e.1.built, e.2.built)) key =
      (entries.getText? key).map built := by
  rw [Table.getText?, Table.getText?, List.find?_map, Option.map_map, Option.map_map]
  simp [Function.comp_def]

lemma child?_built (h : node.DistinctKeys) (key : String) :
    node.built.child? key = (node.child? key).map built := by
  cases h with
  | scalar _ | seq _ => simp only [built, child?, Option.map_none]
  | strMap distinct _ =>
    rw [built_strMap, child?, child?, Fields.get?_map, Fields.get?_ofList_of_nodup distinct]
  | anyMap _ _ =>
    rw [built, builtEntries_eq_map]
    exact getText?_built _ key

/-- A missing child counts as null on both sides. -/
lemma getD_child?_built (h : node.DistinctKeys) (key : String) :
    (node.built.child? key).getD null = ((node.child? key).getD null).built := by
  rw [child?_built h]
  cases node.child? key with
  | none => simp only [built, Option.map_none, Option.getD_none]
  | some child => rfl

lemma putText_built (entries : Table) (key : String) (child : Value) :
    (entries.putText key child).map (fun e => (e.1.built, e.2.built)) =
      Table.putText (entries.map fun e => (e.1.built, e.2.built)) key child.built := by
  cases hkey : entries.getText? key with
  | none =>
    have hmissing := Table.getText?_eq_none_iff.1 hkey
    have hmissing' : ∀ e ∈ entries.map fun e => (e.1.built, e.2.built), e.1 ≠ text key := by
      intro e he
      obtain ⟨f, hf, rfl⟩ := List.mem_map.1 he
      exact mt built_text_iff.1 (hmissing f hf)
    rw [Table.putText_of_not_mem hmissing, Table.putText_of_not_mem hmissing', List.map_append]
    rfl
  | some old =>
    obtain ⟨before, after, rfl, hbefore⟩ := Table.exists_of_getText? hkey
    have hbefore' : ∀ e ∈ before.map fun e => (e.1.built, e.2.built), e.1 ≠ text key := by
      intro e he
      obtain ⟨f, hf, rfl⟩ := List.mem_map.1 he
      exact mt built_text_iff.1 (hbefore f hf)
    rw [Table.putText_of_mem hbefore, List.map_append, List.map_append, List.map_cons,
      List.map_cons]
    exact (Table.putText_of_mem hbefore' child.built).symm

/-- Storing a child comes before or after inserting everything in turn. -/
lemma built_setChild (h : node.DistinctKeys) (key : String) (child : Value) :
    (node.setChild key child).built = node.built.setChild key child.built := by
  cases h with
  | scalar _ | seq _ => simp only [setChild, built]
  | strMap distinct _ =>
    rw [setChild, built_strMap, built_strMap, setChild, Fields.ofList_insert distinct,
      Fields.insert_map]
  | anyMap _ _ =>
    rw [setChild, built, built, setChild, builtEntries_eq_map, builtEntries_eq_map, putText_built]

lemma removeText_built (entries : Table) (key : String) :
    Table.removeText (entries.map fun e => (e.1.built, e.2.built)) key =
      ((entries.removeText key).1.map built,
        (entries.removeText key).2.map fun e => (e.1.built, e.2.built)) := by
  induction entries with
  | nil => rfl
  | cons e rest ih =>
    rw [List.map_cons, Table.removeText, Table.removeText, text?_built, ih]
    split <;> rfl

/-- Dropping a child comes before or after inserting everything in turn. -/
lemma built_eraseChild (h : node.DistinctKeys) (key : String) :
    (node.eraseChild key).built = node.built.eraseChild key := by
  cases h with
  | scalar _ | seq _ => simp only [eraseChild, built]
  | strMap distinct _ =>
    rw [eraseChild, built_strMap, built_strMap, eraseChild, Fields.ofList_erase distinct,
      Fields.erase_map]
  | anyMap _ _ =>
    rw [eraseChild, built, built, eraseChild, builtEntries_eq_map, builtEntries_eq_map,
      removeText_built]

/-! ## Distinct keys are kept -/

lemma DistinctKeys.child? (h : node.DistinctKeys) (hchild : node.child? key = some child) :
    child.DistinctKeys := by
  cases h with
  | scalar _ | seq _ => cases hchild
  | strMap _ children => exact children _ (Fields.mem_of_get? hchild)
  | anyMap _ children =>
    obtain ⟨e, he, rfl⟩ := Option.map_eq_some_iff.1 hchild
    exact children e (List.mem_of_find?_eq_some he)

lemma distinctKeys_empty : (anyMap []).DistinctKeys :=
  .anyMap (by simp) (by simp)

lemma DistinctKeys.setChild (h : node.DistinctKeys) (hchild : child.DistinctKeys) (key : String) :
    (node.setChild key child).DistinctKeys := by
  cases h with
  | scalar s => exact .scalar s
  | seq items_ok => exact .seq items_ok
  | strMap distinct children =>
    refine .strMap (Fields.nodup_keys_insert distinct key child) fun f hf => ?_
    rcases Fields.mem_insert hf with rfl | hf
    · exact hchild
    · exact children f hf
  | anyMap keys children =>
    rw [Value.setChild, ← Table.put_text]
    refine .anyMap (fun e he => ?_) fun e he => ?_
    · rcases (Table.mem_put he).1 with hkey | ⟨e', he', hkey⟩
      · rw [hkey]
        exact .scalar _
      · rw [← hkey]
        exact keys e' he'
    · rcases (Table.mem_put he).2 with hvalue | he
      · rw [hvalue]
        exact hchild
      · exact children e he

lemma removeText_sublist (entries : Table) (key : String) :
    (entries.removeText key).2.Sublist entries := by
  induction entries with
  | nil => exact .slnil
  | cons e rest ih =>
    rw [Table.removeText]
    split
    case isTrue => exact List.sublist_cons_self _ rest
    case isFalse => exact ih.cons_cons _

lemma DistinctKeys.eraseChild (h : node.DistinctKeys) (key : String) :
    (node.eraseChild key).DistinctKeys := by
  cases h with
  | scalar s => exact .scalar s
  | seq items_ok => exact .seq items_ok
  | strMap distinct children =>
    exact .strMap (Fields.nodup_keys_erase distinct key) fun f hf =>
      children f (Fields.mem_of_mem_erase hf)
  | @anyMap entries keys children =>
    have hsublist := removeText_sublist entries key
    exact .anyMap (fun e he => keys e (hsublist.subset he)) fun e he =>
      children e (hsublist.subset he)

/-! ## Queries -/

section Queries

variable {items : List Value}

lemma answers_built {item : Value} (h : item.DistinctKeys) (key value : String) :
    item.built.answers key value = item.answers key value := by
  rw [answers, answers, child?_built h]
  cases item.child? key with
  | none => rfl
  | some child => rw [Option.map_some, Option.bind_some, Option.bind_some, text?_built]

lemma firstAnswer_built (h : ∀ x ∈ items, x.DistinctKeys) (key value : String) :
    firstAnswer key value (items.map built) =
      (firstAnswer key value items).map fun found => (found.1, found.2.built) := by
  induction items with
  | nil => rfl
  | cons item rest ih =>
    obtain ⟨hitem, hrest⟩ := List.forall_mem_cons.1 h
    rw [List.map_cons, firstAnswer, firstAnswer, answers_built hitem, ih hrest]
    split
    case isTrue => rfl
    case isFalse => rw [Option.map_map, Option.map_map]; rfl

lemma displaySequence_built (items : List Value) :
    displaySequence (items.map built) = displaySequence items := by
  have hshown := display_built (seq items)
  rwa [built, builtItems_eq_map] at hshown

lemma matchQuery_built (h : ∀ x ∈ items, x.DistinctKeys) (path segment : String) :
    matchQuery path segment (items.map built) =
      (matchQuery path segment items).map fun found => (found.1, found.2.built) := by
  unfold matchQuery
  rw [displaySequence_built]
  split
  case h_1 key value form =>
    rw [firstAnswer_built h]
    cases firstAnswer key value items <;> rfl
  case h_2 => rfl

end Queries

/-! ## Walking -/

lemma blocked_built (path segment : String) (found : Value) :
    blocked path segment found.built = blocked path segment found := by
  rw [blocked, blocked, display_built, kind_built]

/-- An action on hash tables, and the action that does the same on what insertion makes of them.
The first gives its results in some order and the second in the order of insertion. -/
structure OrderBlind (g : α → β) (act : Action α) (act' : Action β) : Prop where
  keeps : ∀ c, c.DistinctKeys → (act c).2.DistinctKeys
  built : ∀ c, c.DistinctKeys → act' c.built = ((act c).1.map g, (act c).2.built)

variable {g : α → β} {act : Action α} {act' : Action β} {vivify : Bool} {rest : List String}

/-- One step through a mapping, given what holds of the rest of the walk. -/
lemma follow_built_mapping (h : node.DistinctKeys) (mapping : node.isMapping = true)
    (below : ∀ c : Value, c.DistinctKeys →
      follow path vivify act' rest c.built = (follow path vivify act rest c).built g ∧
        (follow path vivify act rest c).node.DistinctKeys) :
    follow path vivify act' (segment :: rest) node.built =
        (follow path vivify act (segment :: rest) node).built g ∧
      (follow path vivify act (segment :: rest) node).node.DistinctKeys := by
  have mapping' : node.built.isMapping = true := by rw [isMapping_built, mapping]
  have hchild := child?_built h segment
  have habsent : isAbsent (node.built.child? segment) = isAbsent (node.child? segment) := by
    rw [hchild]
    cases node.child? segment with
    | none => rfl
    | some child => exact isNull_built child
  have hdefault := getD_child?_built h segment
  by_cases hmade : (vivify && isAbsent (node.child? segment)) = true
  case pos =>
    obtain ⟨rfl, hmade⟩ : vivify = true ∧ isAbsent (node.child? segment) = true := by
      simpa using hmade
    obtain ⟨hbelow, hkeys⟩ := below (anyMap []) distinctKeys_empty
    rw [built, builtEntries] at hbelow
    rw [follow_made act mapping hmade, follow_made act' mapping' (habsent ▸ hmade), hbelow]
    refine ⟨?_, h.setChild hkeys segment⟩
    rw [Visit.built, Visit.built, built_setChild h]
  case neg =>
    have hmade : (vivify && isAbsent (node.child? segment)) = false := by simpa using hmade
    by_cases hopen : ((node.child? segment).getD null).isContainer = true
    case neg =>
      have hopen : ((node.child? segment).getD null).isContainer = false := by simpa using hopen
      have hopen' : ((node.built.child? segment).getD null).isContainer = false := by
        rw [hdefault, isContainer_built, hopen]
      rw [follow_blocked act mapping hmade hopen,
        follow_blocked act' mapping' (habsent ▸ hmade) hopen', hdefault, blocked_built]
      exact ⟨rfl, h⟩
    case pos =>
      have hfound := child?_of_getD rfl hopen
      have hfound' := hchild
      rw [hfound, Option.map_some] at hfound'
      have hopen' := isContainer_built ((node.child? segment).getD null) ▸ hopen
      obtain ⟨hbelow, hkeys⟩ := below _ (h.child? hfound)
      rw [follow_child act mapping hfound hopen, follow_child act' mapping' hfound' hopen', hbelow]
      refine ⟨?_, h.setChild hkeys segment⟩
      rw [Visit.built, Visit.built, built_setChild h]

/-- One step through a sequence, given what holds of the rest of the walk. -/
lemma follow_built_seq {items : List Value} (h : ∀ x ∈ items, x.DistinctKeys)
    (below : ∀ c : Value, c.DistinctKeys →
      follow path vivify act' rest c.built = (follow path vivify act rest c).built g ∧
        (follow path vivify act rest c).node.DistinctKeys) :
    follow path vivify act' (segment :: rest) (seq items).built =
        (follow path vivify act (segment :: rest) (seq items)).built g ∧
      (follow path vivify act (segment :: rest) (seq items)).node.DistinctKeys := by
  rw [built, builtItems_eq_map, follow, follow, matchQuery_built h]
  cases hmatch : matchQuery path segment items with
  | error failure =>
    refine ⟨?_, .seq h⟩
    simp only [Except.map, Visit.built, built, builtItems_eq_map]
  | ok found =>
    obtain ⟨index, item⟩ := found
    have hitem : items[index]? = some item := by
      obtain ⟨key, value, -, hfound⟩ := exists_of_matchQuery hmatch
      exact (firstAnswer_answers hfound).1
    obtain ⟨hbelow, hkeys⟩ := below item (h item (List.mem_of_getElem? hitem))
    refine ⟨?_, .seq fun x hx => ?_⟩
    · simp only [Except.map, Visit.built, built, builtItems_eq_map, hbelow, List.map_set]
    · rcases List.mem_or_eq_of_mem_set hx with hx | rfl
      · exact h x hx
      · exact hkeys

/-- A walk on what insertion makes of a tree is what insertion makes of the walk, and the keys stay
distinct. -/
theorem follow_built (hact : OrderBlind g act act') (path : String) (vivify : Bool)
    (segments : List String) (h : node.DistinctKeys) :
    follow path vivify act' segments node.built = (follow path vivify act segments node).built g ∧
      (follow path vivify act segments node).node.DistinctKeys := by
  induction segments generalizing node with
  | nil =>
    rw [follow, follow, hact.built node h]
    exact ⟨rfl, hact.keeps node h⟩
  | cons segment rest ih =>
    cases h with
    | scalar s =>
      refine ⟨?_, .scalar s⟩
      rw [built, follow, follow, Visit.built, built]
      rfl
    | seq items_ok => exact follow_built_seq items_ok fun _ => ih
    | strMap distinct children =>
      exact follow_built_mapping (.strMap distinct children) rfl fun _ => ih
    | anyMap keys children => exact follow_built_mapping (.anyMap keys children) rfl fun _ => ih

lemma walkRoot_built (vivify : Bool) (root : Value) :
    walkRoot vivify root.built = (walkRoot vivify root).built := by
  rw [walkRoot, walkRoot, isNull_built]
  split
  case isTrue => rw [built, builtFields]; rfl
  case isFalse => rfl

lemma DistinctKeys.walkRoot (h : node.DistinctKeys) (vivify : Bool) :
    (node.walkRoot vivify).DistinctKeys := by
  unfold Value.walkRoot
  split
  case isTrue => exact .strMap (by simp) (by simp)
  case isFalse => exact h

theorem visit_built (hact : OrderBlind g act act') (path : Path) (vivify : Bool)
    (h : node.DistinctKeys) :
    node.built.visit path vivify act' = (node.visit path vivify act).built g ∧
      (node.visit path vivify act).node.DistinctKeys := by
  rw [visit, visit, walkRoot_built]
  exact follow_built hact path.text vivify path.parents (h.walkRoot vivify)

/-! ## Actions -/

/-- Actions that only mappings allow are refused by everything else, whatever the order. -/
lemma orderBlind_of_mapping {access : Access} {path : String}
    (hrefused : ∀ c, c.isMapping = false → act c = (.error (refused access path c), c))
    (hrefused' : ∀ c, c.isMapping = false → act' c = (.error (refused access path c), c))
    (hmapping : ∀ c : Value, c.DistinctKeys → c.isMapping = true →
      (act c).2.DistinctKeys ∧ act' c.built = ((act c).1.map g, (act c).2.built)) :
    OrderBlind g act act' where
  keeps c hc := by
    by_cases mapping : c.isMapping = true
    case pos => exact (hmapping c hc mapping).1
    case neg =>
      rw [hrefused c (by simpa using mapping)]
      exact hc
  built c hc := by
    by_cases mapping : c.isMapping = true
    case pos => exact (hmapping c hc mapping).2
    case neg =>
      have mapping : c.isMapping = false := by simpa using mapping
      have mapping' : c.built.isMapping = false := by rw [isMapping_built, mapping]
      rw [hrefused c mapping, hrefused' c.built mapping', refused, refused, kind_built]
      rfl

lemma orderBlind_set (segment path : String) {value : Value} (hvalue : value.DistinctKeys) :
    OrderBlind id (set segment path value) (set segment path value.built) := by
  refine orderBlind_of_mapping (fun c mapping => set_of_not_mapping mapping segment path value)
    (fun c mapping => set_of_not_mapping mapping segment path value.built) fun c hc mapping => ?_
  have mapping' : c.built.isMapping = true := by rw [isMapping_built, mapping]
  rw [set_mapping mapping, set_mapping mapping', built_setChild hc]
  exact ⟨hc.setChild hvalue segment, rfl⟩

lemma orderBlind_remove (segment path : String) :
    OrderBlind id (forgetful (remove segment path)) (forgetful (remove segment path)) := by
  have hrefused : ∀ c : Value, c.isMapping = false →
      forgetful (remove segment path) c = (.error (refused .remove path c), c) := by
    intro c mapping
    rw [forgetful, remove_of_not_mapping mapping]
    rfl
  refine orderBlind_of_mapping hrefused hrefused fun c hc mapping => ?_
  have mapping' : c.built.isMapping = true := by rw [isMapping_built, mapping]
  rw [forgetful, forgetful, remove_mapping mapping, remove_mapping mapping', built_eraseChild hc]
  exact ⟨hc.eraseChild segment, rfl⟩

/-- Reading changes nothing, so only the answers have to be right. -/
lemma orderBlind_read {extract : Value → Except Failure α} {extract' : Value → Except Failure β}
    (h : ∀ c : Value, c.DistinctKeys → extract' c.built = (extract c).map g) :
    OrderBlind g (fun c => (extract c, c)) fun c => (extract' c, c) where
  keeps _ hc := hc
  built c hc := by rw [h c hc]

/-- A look-up finds what insertion makes of what is found. -/
theorem lookup_built (h : node.DistinctKeys) (segment path : String) :
    node.built.lookup segment path = (node.lookup segment path).map built := by
  by_cases mapping : node.isMapping = true
  case pos =>
    have mapping' : node.built.isMapping = true := by rw [isMapping_built, mapping]
    rw [lookup_mapping mapping, lookup_mapping mapping', getD_child?_built h]
    rfl
  case neg =>
    cases h with
    | strMap | anyMap => exact absurd rfl mapping
    | scalar s =>
      simp only [built, lookup]
      rfl
    | @seq items items_ok =>
      rw [built, builtItems_eq_map]
      cases hform : SegmentClass.ofText segment with
      | key _ | query _ _ =>
        simp only [lookup, hform]
        rfl
      | index digits =>
        have hitem : (wordIndex? digits.toList).bind ((items.map built)[·]?) =
            ((wordIndex? digits.toList).bind (items[·]?)).map built := by
          cases wordIndex? digits.toList with
          | none => rfl
          | some i => exact List.getElem?_map
        simp only [lookup, hform, hitem, List.length_map]
        cases (wordIndex? digits.toList).bind (items[·]?) <;> rfl

lemma extract?_built (type : PropertyType) (node : Value) :
    type.extract? node.built = type.extract? node := by
  cases node <;> simp only [built, PropertyType.extract?]

/-- A scalar that is read is the same, and so is the failure, which shows the node that was found.
-/
theorem getScalar_built (type : PropertyType) (h : node.DistinctKeys) (segment path : String) :
    node.built.getScalar type segment path = node.getScalar type segment path := by
  rw [getScalar, getScalar, lookup_built h]
  cases node.lookup segment path with
  | error failure => rfl
  | ok found =>
    simp only [Except.map, extract?_built, display_built, kind_built]

end Value

end PropertyTree
