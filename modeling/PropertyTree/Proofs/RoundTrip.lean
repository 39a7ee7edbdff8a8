import PropertyTree.Proofs.JobMap
import PropertyTree.Proofs.SelectorSteps
import PropertyTree.Proofs.SetUpdate

/-!
# Reading what was set

A value that was set at a path is read back at the same path, with one exception, and this module
says which.  A query on the way picks an item by a string that the item holds under a key; if the
set replaces that very string, the query no longer finds the item.  This can only happen right above
the last segment, because a query deeper in the path is followed by a step into the item, and a step
does not go through a string.  `Renames` is the exception, and `lookupAt_setAt_iff` the law.

`Walks.reread` carries the argument: a walk arrives at the same address after the container at its
end was replaced, as long as the replacement answers the query that picked it.
-/

namespace PropertyTree

/-! ## Queries after an item was replaced -/

lemma firstAnswer_set {key value : String} {items : List Value} {index : Nat} {item : Value}
    (h : firstAnswer key value items = some (index, item)) {item' : Value}
    (hitem' : item'.answers key value = true) :
    firstAnswer key value (items.set index item') = some (index, item') := by
  induction items generalizing index with
  | nil => simp [firstAnswer] at h
  | cons first rest ih =>
    rw [firstAnswer] at h
    split at h
    case isTrue hfirst =>
      obtain ⟨rfl, rfl⟩ : 0 = index ∧ first = item := by simpa using h
      rw [List.set_cons_zero, firstAnswer, if_pos hitem']
    case isFalse hfirst =>
      obtain ⟨⟨i, v⟩, hi, heq⟩ := Option.map_eq_some_iff.1 h
      obtain ⟨rfl, rfl⟩ : i + 1 = index ∧ v = item := by simpa using heq
      rw [List.set_cons_succ, firstAnswer, if_neg hfirst, ih hi]
      rfl

namespace Value

variable {root node container value item : Value} {segments : List String} {address : Address}
  {vivify : Bool} {key x : String}

/-! ## Walking again -/

lemma isContainer_put {step : Step} {rest : Address} (h : Writable node (step :: rest))
    (new : Value) : (node.put (step :: rest) new).isContainer = true := by
  cases h with
  | item found _ => rw [put_index found]; rfl
  | key mapping _ =>
    rw [put_name]
    exact isContainer_of_isMapping (by rw [isMapping_setChild, mapping])

lemma Walks.writable_self (h : Walks vivify node segments address container) :
    Writable node address := by
  induction h with
  | here node => exact .here node
  | item form found _ ih => exact .item (firstAnswer_answers found).1 ih
  | child mapping found isOpen _ ih =>
    exact .key mapping (by rw [slot_of_isContainer found isOpen]; exact ih)
  | made _ mapping absent _ ih =>
    exact .key mapping (by rw [slot, opened_of_absent absent]; exact ih)

lemma Walks.isContainer_put (h : Walks vivify node segments address container) {new : Value}
    (hnew : new.isContainer = true) : (node.put address new).isContainer = true := by
  cases address with
  | nil => rwa [put_nil]
  | cons step rest => exact Value.isContainer_put h.writable_self new

/-- A step into an item does not go through the string that a query found there. -/
lemma Walks.answers_put {segment : String}
    (h : Walks vivify item (segment :: segments) address container) (new : Value)
    (hitem : item.answers key x = true) : (item.put address new).answers key x = true := by
  rw [answers_iff] at hitem ⊢
  have mapping := isMapping_of_child? hitem
  cases h with
  | item => cases mapping
  | child _ found isOpen below =>
    have hne : segment ≠ key := by
      rintro rfl
      obtain rfl : _ = _ := Option.some.inj (found.symm.trans hitem)
      cases isOpen
    rw [put_name, child?_setChild mapping, if_neg hne, hitem]
  | made _ _ absent below =>
    have hne : segment ≠ key := by
      rintro rfl
      rw [hitem] at absent
      cases absent
    rw [put_name, child?_setChild mapping, if_neg hne, hitem]

/-- A walk arrives again after the container at its end was replaced by another one, if the query
that picked the container, if one did, is still answered. -/
theorem Walks.reread (h : Walks vivify node segments address container) {new : Value}
    (hnew : new.isContainer = true)
    (hlast : ∀ parents segment key x B items, segments = parents ++ [segment] →
      SegmentClass.ofText segment = .query key x → Walks vivify node parents B (seq items) →
      container.answers key x = true → new.answers key x = true) :
    Walks false (node.put address new) segments address new := by
  induction h with
  | here node =>
    rw [put_nil]
    exact .here new
  | @item items segment key x index item container rest address form found below ih =>
    obtain ⟨hitem, hanswers⟩ := firstAnswer_answers found
    have hbelow := ih fun parents segment' key x B items hrest form' hwalks =>
      hlast (segment :: parents) segment' key x _ items (by rw [hrest]; rfl) form'
        (.item form found hwalks)
    -- the item still answers: by assumption if it is the container, and else because the walk goes
    -- on into the item, past the string
    have hanswers' : (item.put address new).answers key x = true := by
      cases rest with
      | nil =>
        cases below
        rw [put_nil]
        exact hlast [] segment key x [] items rfl form (.here _) hanswers
      | cons segment' rest => exact below.answers_put new hanswers
    rw [put_index hitem]
    exact .item form (firstAnswer_set found hanswers') hbelow
  | @child node child container segment rest address mapping found isOpen below ih =>
    have hbelow := ih fun parents segment' key x B items hrest form' hwalks =>
      hlast (segment :: parents) segment' key x _ items (by rw [hrest]; rfl) form'
        (.child mapping found isOpen hwalks)
    rw [put_name, slot_of_isContainer found isOpen]
    refine .child (by rw [isMapping_setChild, mapping]) ?_ (below.isContainer_put hnew) hbelow
    rw [child?_setChild mapping, if_pos rfl]
  | @made node container segment rest address vivifies mapping absent below ih =>
    have hbelow := ih fun parents segment' key x B items hrest form' hwalks =>
      hlast (segment :: parents) segment' key x _ items (by rw [hrest]; rfl) form'
        (.made vivifies mapping absent hwalks)
    rw [put_name, slot, opened_of_absent absent]
    refine .child (by rw [isMapping_setChild, mapping]) ?_ (below.isContainer_put hnew) hbelow
    rw [child?_setChild mapping, if_pos rfl]

/-- A walk of segments in two parts is two walks. -/
lemma Walks.split {parents rest : List String}
    (h : Walks vivify node (parents ++ rest) address container) :
    ∃ A between B, address = A ++ B ∧ Walks vivify node parents A between ∧
      Walks vivify between rest B container := by
  induction parents generalizing node address with
  | nil => exact ⟨[], node, address, rfl, .here node, h⟩
  | cons segment parents ih =>
    cases h with
    | item form found below =>
      obtain ⟨A, between, B, rfl, hA, hB⟩ := ih below
      exact ⟨_ :: A, between, B, rfl, .item form found hA, hB⟩
    | child mapping found isOpen below =>
      obtain ⟨A, between, B, rfl, hA, hB⟩ := ih below
      exact ⟨_ :: A, between, B, rfl, .child mapping found isOpen hA, hB⟩
    | made vivifies mapping absent below =>
      obtain ⟨A, between, B, rfl, hA, hB⟩ := ih below
      exact ⟨_ :: A, between, B, rfl, .made vivifies mapping absent hA, hB⟩

/-- A walk that reads is also a walk of the kind that vivifies, which has nothing to make. -/
lemma Walks.vivifying (h : Walks false node segments address container) :
    Walks true node segments address container := by
  induction h with
  | here node => exact .here node
  | item form found _ ih => exact .item form found ih
  | child mapping found isOpen _ ih => exact .child mapping found isOpen ih
  | made vivifies => cases vivifies

/-- What a query picks holds the string under the key. -/
lemma Walks.child?_of_query {items : List Value} {segment : String}
    (h : Walks vivify (seq items) [segment] address container)
    (form : SegmentClass.ofText segment = .query key x) :
    container.child? key = some (text x) := by
  cases h with
  | item form' found below =>
    cases below
    obtain ⟨rfl, rfl⟩ : _ ∧ _ := by simpa [form'] using form
    exact answers_iff.1 (firstAnswer_answers found).2
  | child mapping | made _ mapping => cases mapping

/-! ## The law and its exception -/

/-- The container written to was picked out of a sequence by a query for the key that is set, and
the value is not the string that the query asks for. -/
def Renames (root : Value) (path : Path) (value : Value) : Prop :=
  ∃ parents segment x address items, path.parents = parents ++ [segment] ∧
    SegmentClass.ofText segment = .query path.last x ∧
    Walks false root parents address (seq items) ∧ value ≠ text x

/-- Where a walk arrives at a mapping, the look-up finds what is under the last segment. -/
lemma lookupAt_of_walks {path : Path} (h : Walks false root path.parents address container)
    (mapping : container.isMapping = true) :
    (root.lookupAt path false).outcome = .ok ((container.child? path.last).getD null) := by
  have houtcome := (follow_of_walks h path.text
    fun container => (container.lookup path.last path.text, container)).1
  rw [lookup_mapping mapping] at houtcome
  exact houtcome

/-- Where a look-up succeeds, a walk has arrived. -/
lemma exists_walks_of_lookupAt {path : Path} (h : (root.lookupAt path false).outcome = .ok value) :
    ∃ address container, Walks false root path.parents address container ∧
      container.lookup path.last path.text = .ok value := by
  obtain ⟨address, container, hwalks, hlookup, -⟩ := exists_walks_of_visit h
  exact ⟨address, container, hwalks, hlookup⟩

/-- A walk that leads to a sequence does not start at a null root. -/
lemma walkRoot_of_walks {parents : List String} {items : List Value}
    (h : Walks vivify root parents address (seq items)) : walkRoot true root = root := by
  rcases walkRoot_eq true root with hroot | ⟨-, rfl, -⟩
  · exact hroot
  · cases h with
    | child mapping | made _ mapping => cases mapping

/-- A walk that vivifies and leads to a sequence has made nothing. -/
lemma Walks.reading_of_seq {parents : List String} {items : List Value}
    (h : Walks true (walkRoot true root) parents address (seq items)) :
    Walks false root parents address (seq items) := by
  have hread := h.read_or_empty.resolve_right (by simp)
  rcases walkRoot_eq true root with hroot | ⟨-, rfl, hroot⟩
  · rwa [hroot] at hread
  · rw [hroot] at hread
    cases hread with
    | child _ found => cases found
    | made vivifies => cases vivifies

/-- Without renaming, the container still answers the query that picked it. -/
lemma answers_setChild_of_not_renames {path : Path} (hkeeps : ¬ Renames root path value)
    (mapping : container.isMapping = true) {parents : List String} {segment : String} {B : Address}
    {items : List Value} (hparents : path.parents = parents ++ [segment])
    (form : SegmentClass.ofText segment = .query key x)
    (hseq : Walks true (walkRoot true root) parents B (seq items))
    (hanswers : container.answers key x = true) :
    (container.setChild path.last value).answers key x = true := by
  rw [answers_iff] at hanswers ⊢
  rw [child?_setChild mapping]
  split
  case isFalse => exact hanswers
  case isTrue hkey =>
    subst hkey
    by_contra hne
    refine hkeeps ⟨parents, segment, x, B, items, hparents, form, hseq.reading_of_seq, ?_⟩
    rintro rfl
    exact hne rfl

/-- A sequence stays a sequence when something is written below one of its items. -/
lemma exists_put_seq {items : List Value} {segment : String}
    (h : Walks vivify (seq items) [segment] address container) (below : Address) (new : Value) :
    ∃ items', (seq items).put (address ++ below) new = seq items' := by
  cases h with
  | item form found => exact ⟨_, put_index (firstAnswer_answers found).1 _ new⟩
  | child mapping | made _ mapping => cases mapping

/-- After a renaming, whatever the query picks holds the string it asks for, and not the value. -/
lemma lookupAt_ne_of_renames {path : Path} (hrenames : Renames root path value)
    (hwalks : Walks true (walkRoot true root) path.parents address container) :
    (((walkRoot true root).put (address ++ [.name path.last]) value).lookupAt path false).outcome ≠
      .ok value := by
  intro hread
  obtain ⟨parents, segment, x, B, items, hparents, form, hseq, hvalue⟩ := hrenames
  rw [walkRoot_of_walks hseq] at hread hwalks
  rw [hparents] at hwalks
  obtain ⟨A, between, C, rfl, hA, hC⟩ := hwalks.split
  obtain ⟨rfl, rfl⟩ := hA.unique hseq.vivifying
  obtain ⟨items', hitems'⟩ := exists_put_seq hC [.name path.last] value
  have hnode : root.put (A ++ C ++ [.name path.last]) value = root.put A (seq items') := by
    rw [List.append_assoc, hA.put_append, hitems']
  rw [hnode] at hread
  have hreread : Walks false (root.put A (seq items')) parents A (seq items') := by
    refine hseq.reread rfl fun _ _ key y _ _ _ _ _ hanswers => ?_
    cases answers_iff.1 hanswers
  obtain ⟨A', container', hwalks', hlookup⟩ := exists_walks_of_lookupAt hread
  rw [hparents] at hwalks'
  obtain ⟨A'', between', C', -, hA', hC'⟩ := hwalks'.split
  obtain ⟨-, rfl⟩ := hA'.unique hreread
  have hchild := hC'.child?_of_query form
  rw [lookup_mapping (isMapping_of_child? hchild), hchild] at hlookup
  exact hvalue (Except.ok.inj hlookup).symm

/-- What was set is read back, unless the set renames the item it was led to. -/
theorem lookupAt_setAt_iff {path : Path} (h : (root.setAt path true value).outcome = .ok ()) :
    ((root.setAt path true value).node.lookupAt path false).outcome = .ok value ↔
      ¬ Renames root path value := by
  obtain ⟨address, container, hwalks, mapping, hnode⟩ := setAt_eq_put h
  rw [hnode]
  constructor
  case mp => exact fun hread hrenames => lookupAt_ne_of_renames hrenames hwalks hread
  case mpr =>
    intro hkeeps
    have mapping' : (container.setChild path.last value).isMapping = true := by
      rw [isMapping_setChild, mapping]
    have hreread := hwalks.reread (isContainer_of_isMapping mapping')
      fun parents segment key x B items hparents form hseq hanswers =>
        answers_setChild_of_not_renames hkeeps mapping hparents form hseq hanswers
    rw [hwalks.put_append, put_name, put_nil, lookupAt_of_walks hreread mapping',
      child?_setChild mapping, if_pos rfl, Option.getD_some]

/-- A typed read of what a look-up finds. -/
lemma getScalarAt_of_lookupAt {path : Path}
    (h : (root.lookupAt path false).outcome = .ok value) (type : PropertyType) :
    (root.getScalarAt type path false).outcome =
      match type.extract? value with
      | some s => .ok s
      | none => .error (.typeMismatch path.text type.kind value.display value.kind) := by
  obtain ⟨address, container, hwalks, hlookup⟩ := exists_walks_of_lookupAt h
  have houtcome := (follow_of_walks hwalks path.text
    fun container => (container.getScalar type path.last path.text, container)).1
  simp only [getScalar, hlookup] at houtcome
  exact houtcome

end Value

namespace Selector

variable {s : Selector} {p : Position} {job : Job}

/-- After a property was set in the one selected job, reading at the same path returns the value if
and only if the set did not rename the item it was led to.  A value that is read back is also read
as the scalar type it has, and as no other. -/
theorem getValue_addProperty (hok : s.failure = none) (hp : s.positions = [p])
    (hjob : s.manifest.job? p = some job) (pathText : String) (value : Value)
    (hset : (s.addProperty pathText value).value.failure = none) :
    ∃ path, Path.ofText? pathText = some path ∧
      let s' := (s.addProperty pathText value).value
      ((s'.getValue pathText).value.1 = .ok value ↔ ¬ Value.Renames job.properties path value) ∧
      ((s'.getValue pathText).value.1 = .ok value → ∀ call type,
        (∀ leaf, value = .scalar leaf → leaf.kind = type.kind →
          (s'.getScalar call type pathText).value.1 = .ok leaf) ∧
        ((∀ leaf, value = .scalar leaf → leaf.kind ≠ type.kind) →
          (s'.getScalar call type pathText).value.1 =
            .error (.typeMismatch path.text type.kind value.display value.kind))) := by
  rw [addProperty, perform_of_none hok] at hset ⊢
  have hne : pathText ≠ "" := by
    rintro rfl
    rw [edit_pathless hok] at hset
    cases hset
  obtain ⟨path, hpath⟩ := Path.exists_of_ne_empty hne
  refine ⟨path, hpath, ?_⟩
  rw [edit_single hok hpath hp hjob] at hset ⊢
  intro s'
  have hsetAt : (job.properties.setAt path true value).outcome = .ok () := by
    cases h : (job.properties.setAt path true value).outcome with
    | ok _ => rfl
    | error failure =>
      rw [Value.setAt] at h
      simp [h] at hset
  have hjob' : s'.manifest.job? p =
      some { job with properties := (job.properties.setAt path true value).node } := by
    rw [Manifest.job?_setJob, hjob, Option.map_some, if_pos rfl]
    rfl
  have hvalue : (s'.getValue pathText).value.1 =
      ((job.properties.setAt path true value).node.lookupAt path false).outcome :=
    read_single hset hpath hp hjob' _ _
  have hscalar : ∀ call type, (s'.getScalar call type pathText).value.1 =
      ((job.properties.setAt path true value).node.getScalarAt type path false).outcome :=
    fun call type => read_single hset hpath hp hjob' _ _
  rw [hvalue]
  refine ⟨Value.lookupAt_setAt_iff hsetAt, fun hread call type => ?_⟩
  rw [hscalar, Value.getScalarAt_of_lookupAt hread]
  constructor
  · rintro leaf rfl hkind
    simp [PropertyType.extract?, hkind]
  · intro hkind
    cases value with
    | scalar leaf => simp [PropertyType.extract?, hkind leaf rfl]
    | seq _ | strMap _ | anyMap _ => simp [PropertyType.extract?]

/-- A selector on the one job of a manifest, with properties of all kinds. -/
def mixedSelector : Selector :=
  let job := { Job.new "a" "r" with properties := Value.mixedTree }
  let manifest := (Manifest.new "m").withGroup ((InstanceGroup.new "g").withJob job)
  { manifest, positions := [⟨0, 0⟩], failure := none, options := .quiet }

theorem getValue_addProperty_mixed :
    (mixedSelector.addProperty "routes/name=x/tls/on" (.bool true)).value.failure = none ∧
      ∃ path, Path.ofText? "routes/name=x/tls/on" = some path ∧
        (((mixedSelector.addProperty "routes/name=x/tls/on" (.bool true)).value.getValue
            "routes/name=x/tls/on").value.1 = .ok (.bool true) ↔
          ¬ Value.Renames Value.mixedTree path (.bool true)) := by
  have hset : (mixedSelector.addProperty "routes/name=x/tls/on" (.bool true)).value.failure =
      none := by decide +kernel
  obtain ⟨path, hpath, hiff, -⟩ := getValue_addProperty rfl rfl rfl _ _ hset
  exact ⟨hset, path, hpath, hiff⟩

/-- Setting `name` in the item found by `name=x` renames it, and the path then leads nowhere. -/
example : ((mixedSelector.addProperty "routes/name=x/name" (.text "z")).value.getValue
    "routes/name=x/name").value.1 =
      .error (.queryUnmatched "routes/name=x/name" "name=x"
        "[1, \x7bname: y\x7d, \x7b1: kept, name: z, tls: null\x7d]") := by
  decide +kernel

end Selector

end PropertyTree
