import PropertyTree.Proofs.Address

/-!
# Where a walk goes

`Value.follow` walks, acts and rebuilds in one recursion.  `Walks` separates the first of these from
the rest: it relates a node and the segments of a path to the address that is walked and to the
container at its end, and says nothing about what is done there.

The point of the relation is `walks_or_stuck`.  Every walk either arrives, and then it has the
effect of one `Value.put` at the address walked (`follow_of_walks`), or it gets stuck, and then the
tree is as it was, however much of the way was gone.  What a failing operation leaves behind is
settled here, once for all of them: `visit_node_of_error` says that it is nothing.

A vivifying walk cannot get stuck below the first mapping it made (`walks_empty`), and below a null
root it cannot get stuck at all (`walks_emptyRoot`).  That is why nothing has to be undone.
-/

namespace PropertyTree

namespace Value

/-- `Walks vivify node segments address container`: the segments lead from the node through the
address to the container.  A sequence is searched, a mapping is entered by key, and what is found
must be a container; a walk that vivifies also enters a key that is missing or null, and goes on
from an empty mapping. -/
inductive Walks (vivify : Bool) : Value → List String → Address → Value → Prop
  | here (node : Value) : Walks vivify node [] [] node
  | item {items : List Value} {segment key value : String} {index : Nat} {item container : Value}
      {rest : List String} {address : Address}
      (form : SegmentClass.ofText segment = .query key value)
      (found : firstAnswer key value items = some (index, item))
      (below : Walks vivify item rest address container) :
      Walks vivify (seq items) (segment :: rest) (.index index :: address) container
  | child {node child container : Value} {segment : String} {rest : List String}
      {address : Address} (mapping : node.isMapping = true)
      (found : node.child? segment = some child) (isOpen : child.isContainer = true)
      (below : Walks vivify child rest address container) :
      Walks vivify node (segment :: rest) (.name segment :: address) container
  | made {node container : Value} {segment : String} {rest : List String} {address : Address}
      (vivifies : vivify = true) (mapping : node.isMapping = true)
      (absent : isAbsent (node.child? segment) = true)
      (below : Walks vivify (anyMap []) rest address container) :
      Walks vivify node (segment :: rest) (.name segment :: address) container

/-- An action that succeeds on every mapping, and that leaves a container as it is when it fails.
Storing and removing are such actions. -/
structure Restrained {α : Type} (act : Action α) : Prop where
  succeeds : ∀ container, container.isMapping = true → ∃ a, (act container).1 = .ok a
  keeps : ∀ container failure, (act container).1 = .error failure → (act container).2 = container

variable {α : Type} {vivify : Bool} {node container : Value} {segments : List String}
  {address : Address}

/-! ## The steps of `follow` -/

lemma isAbsent_of_isContainer {child : Value} (h : child.isContainer = true) :
    isAbsent (some child) = false :=
  isNull_of_isContainer h

lemma slot_of_isContainer {child : Value} {segment : String}
    (h : node.child? segment = some child) (hopen : child.isContainer = true) :
    node.slot segment = child := by
  rw [slot, h]
  exact opened_some (isAbsent_of_isContainer hopen)

/-- An item answers a query through the string it holds. -/
lemma answers_iff {item : Value} {key x : String} :
    item.answers key x = true ↔ item.child? key = some (text x) := by
  unfold answers
  cases h : item.child? key with
  | none => simp
  | some child => simp [text?_eq_some_iff]

lemma matchQuery_eq_ok (path : String) {segment key value : String} {items : List Value}
    {found : Nat × Value} (form : SegmentClass.ofText segment = .query key value)
    (h : firstAnswer key value items = some found) :
    matchQuery path segment items = .ok found := by
  simp [matchQuery, form, h]

lemma exists_of_matchQuery {path segment : String} {items : List Value} {found : Nat × Value}
    (h : matchQuery path segment items = .ok found) :
    ∃ key value, SegmentClass.ofText segment = .query key value ∧
      firstAnswer key value items = some found := by
  unfold matchQuery at h
  split at h
  case h_1 key value form =>
    split at h
    case h_1 found' hfound =>
      obtain rfl : found' = found := by simpa using h
      exact ⟨key, value, form, hfound⟩
    case h_2 => simp at h
  case h_2 => simp at h

/-- The step of a walk through a mapping that finds a container. -/
lemma follow_child {path segment : String} {rest : List String} {child : Value} (act : Action α)
    (mapping : node.isMapping = true) (found : node.child? segment = some child)
    (isOpen : child.isContainer = true) :
    let below := follow path vivify act rest child
    follow path vivify act (segment :: rest) node =
      ⟨below.outcome, node.setChild segment below.node, below.events⟩ := by
  have habsent := isAbsent_of_isContainer isOpen
  cases node with
  | scalar _ => simp [isMapping] at mapping
  | seq _ => simp [isMapping] at mapping
  | strMap _ => simp [follow, found, habsent, isOpen]
  | anyMap _ => simp [follow, found, habsent, isOpen]

/-- The step of a walk through a mapping that makes what is missing. -/
lemma follow_made {path segment : String} {rest : List String} (act : Action α)
    (mapping : node.isMapping = true) (absent : isAbsent (node.child? segment) = true) :
    let below := follow path true act rest (anyMap [])
    follow path true act (segment :: rest) node =
      ⟨below.outcome, node.setChild segment below.node, .vivified segment :: below.events⟩ := by
  cases node with
  | scalar _ => simp [isMapping] at mapping
  | seq _ => simp [isMapping] at mapping
  | strMap _ => simp [follow, absent]
  | anyMap _ => simp [follow, absent]

/-- The step of a walk through a mapping that is blocked. -/
lemma follow_blocked {path segment : String} {rest : List String} (act : Action α)
    (mapping : node.isMapping = true)
    (notMade : (vivify && isAbsent (node.child? segment)) = false)
    (notOpen : ((node.child? segment).getD null).isContainer = false) :
    follow path vivify act (segment :: rest) node =
      ⟨.error (blocked path segment ((node.child? segment).getD null)), node, []⟩ := by
  cases node with
  | scalar _ => simp [isMapping] at mapping
  | seq _ => simp [isMapping] at mapping
  | strMap _ => simp [follow, notMade, notOpen]
  | anyMap _ => simp [follow, notMade, notOpen]

/-! ## Arriving -/

/-- A walk that arrives acts on the container and writes what comes of it at the address walked. -/
theorem follow_of_walks (h : Walks vivify node segments address container) (path : String)
    (act : Action α) :
    (follow path vivify act segments node).outcome = (act container).1 ∧
      (follow path vivify act segments node).node = node.put address (act container).2 := by
  induction h with
  | here node => simp [follow]
  | @item items segment key value index item container rest address form found _ ih =>
    obtain ⟨hitem, -⟩ := firstAnswer_answers found
    have hfollow := matchQuery_eq_ok path form found
    simp only [follow, hfollow, put_index hitem]
    exact ⟨ih.1, by rw [ih.2]⟩
  | @child node child container segment rest address mapping found isOpen _ ih =>
    rw [follow_child act mapping found isOpen, put_name, slot_of_isContainer found isOpen]
    exact ⟨ih.1, by rw [ih.2]⟩
  | @made node container segment rest address vivifies mapping absent _ ih =>
    subst vivifies
    rw [follow_made act mapping absent, put_name, slot, opened_of_absent absent]
    exact ⟨ih.1, by rw [ih.2]⟩

/-- A path has at most one address. -/
theorem Walks.unique {address' : Address} {container' : Value}
    (h : Walks vivify node segments address container)
    (h' : Walks vivify node segments address' container') :
    address = address' ∧ container = container' := by
  induction h generalizing address' container' with
  | here node => cases h'; exact ⟨rfl, rfl⟩
  | item form found _ ih =>
    cases h' with
    | item form' found' below' =>
      obtain ⟨rfl, rfl⟩ : _ ∧ _ := by simpa [form'] using form
      obtain ⟨rfl, rfl⟩ : _ ∧ _ := by simpa [found'] using found
      obtain ⟨rfl, rfl⟩ := ih below'
      exact ⟨rfl, rfl⟩
    | child mapping | made _ mapping => simp [isMapping] at mapping
  | child mapping found isOpen _ ih =>
    cases h' with
    | item => simp [isMapping] at mapping
    | child _ found' _ below' =>
      obtain rfl : _ = _ := by simpa [found'] using found
      obtain ⟨rfl, rfl⟩ := ih below'
      exact ⟨rfl, rfl⟩
    | made _ _ absent => simp [found, isAbsent_of_isContainer isOpen] at absent
  | made _ mapping absent _ ih =>
    cases h' with
    | item => simp [isMapping] at mapping
    | child _ found' isOpen' => simp [found', isAbsent_of_isContainer isOpen'] at absent
    | made _ _ _ below' =>
      obtain ⟨rfl, rfl⟩ := ih below'
      exact ⟨rfl, rfl⟩

/-- From an empty mapping, a walk that vivifies makes all of its way. -/
theorem walks_empty (segments : List String) :
    Walks true (anyMap []) segments (segments.map Step.name) (anyMap []) := by
  induction segments with
  | nil => exact .here _
  | cons segment rest ih => exact .made rfl rfl rfl ih

/-- A walk that vivifies arrives from a null root, at a mapping. -/
theorem walks_emptyRoot (segments : List String) :
    ∃ container, Walks true (strMap []) segments (segments.map Step.name) container ∧
      container.isMapping = true := by
  cases segments with
  | nil => exact ⟨_, .here _, rfl⟩
  | cons segment rest => exact ⟨_, .made rfl rfl rfl (walks_empty rest), rfl⟩

/-! ## Getting stuck -/

/-- The walk fails for a reason that does not depend on what was to be done at its end, and leaves
the node as it was. -/
def Stuck (path : String) (vivify : Bool) (segments : List String) (node : Value)
    (failure : Failure) : Prop :=
  ∀ {α : Type} (act : Action α),
    (follow path vivify act segments node).outcome = .error failure ∧
      (follow path vivify act segments node).node = node

section Stuck

variable {path segment : String} {rest : List String} {failure : Failure}

lemma stuck_scalar (s : Scalar) :
    Stuck path vivify (segment :: rest) (scalar s) (blocked path segment (scalar s)) :=
  fun _ => ⟨rfl, rfl⟩

lemma stuck_search {items : List Value} (h : matchQuery path segment items = .error failure) :
    Stuck path vivify (segment :: rest) (seq items) failure :=
  fun act => by simp [follow, h]

lemma stuck_blocked (mapping : node.isMapping = true)
    (notMade : (vivify && isAbsent (node.child? segment)) = false)
    (notOpen : ((node.child? segment).getD null).isContainer = false) :
    Stuck path vivify (segment :: rest) node
      (blocked path segment ((node.child? segment).getD null)) :=
  fun act => by rw [follow_blocked act mapping notMade notOpen]; exact ⟨rfl, rfl⟩

/-- A walk that gets stuck below a child is stuck, and puts the child back. -/
lemma Stuck.child {child : Value} (h : Stuck path vivify rest child failure)
    (mapping : node.isMapping = true) (found : node.child? segment = some child)
    (isOpen : child.isContainer = true) : Stuck path vivify (segment :: rest) node failure := by
  intro α act
  rw [follow_child act mapping found isOpen]
  exact ⟨(h act).1, by rw [(h act).2, setChild_child? found]⟩

/-- A walk that gets stuck below an item is stuck, and puts the item back. -/
lemma Stuck.item {items : List Value} {key value : String} {index : Nat} {item : Value}
    (h : Stuck path vivify rest item failure)
    (form : SegmentClass.ofText segment = .query key value)
    (found : firstAnswer key value items = some (index, item)) :
    Stuck path vivify (segment :: rest) (seq items) failure := by
  intro α act
  obtain ⟨hi, rfl⟩ := List.getElem?_eq_some_iff.1 (firstAnswer_answers found).1
  have hmatch := matchQuery_eq_ok path form found
  simp [follow, hmatch, h act]

end Stuck

/-- One more segment, at a mapping. -/
lemma walks_or_stuck_mapping {path segment : String} {rest : List String}
    (mapping : node.isMapping = true)
    (ih : ∀ child, (∃ address container, Walks vivify child rest address container) ∨
      ∃ failure, Stuck path vivify rest child failure) :
    (∃ address container, Walks vivify node (segment :: rest) address container) ∨
      ∃ failure, Stuck path vivify (segment :: rest) node failure := by
  by_cases hmade : (vivify && isAbsent (node.child? segment)) = true
  case pos =>
    obtain ⟨rfl, habsent⟩ : vivify = true ∧ isAbsent (node.child? segment) = true := by
      simpa using hmade
    exact .inl ⟨_, _, .made rfl mapping habsent (walks_empty rest)⟩
  case neg =>
    by_cases hopen : ((node.child? segment).getD null).isContainer = true
    case neg => exact .inr ⟨_, stuck_blocked mapping (by simpa using hmade) (by simpa using hopen)⟩
    case pos =>
      obtain ⟨child, hchild⟩ : ∃ child, node.child? segment = some child := by
        cases h : node.child? segment with
        | none => simp [h, isContainer] at hopen
        | some child => exact ⟨child, rfl⟩
      rw [hchild, Option.getD_some] at hopen
      rcases ih child with ⟨address, container, h⟩ | ⟨failure, h⟩
      · exact .inl ⟨_, _, .child mapping hchild hopen h⟩
      · exact .inr ⟨failure, h.child mapping hchild hopen⟩

/-- A walk arrives or gets stuck. -/
theorem walks_or_stuck (path : String) (vivify : Bool) (segments : List String) (node : Value) :
    (∃ address container, Walks vivify node segments address container) ∨
      ∃ failure, Stuck path vivify segments node failure := by
  induction segments generalizing node with
  | nil => exact .inl ⟨[], node, .here node⟩
  | cons segment rest ih =>
    cases node with
    | scalar s => exact .inr ⟨_, stuck_scalar s⟩
    | strMap _ | anyMap _ => exact walks_or_stuck_mapping rfl ih
    | seq items =>
      cases hmatch : matchQuery path segment items with
      | error failure => exact .inr ⟨failure, stuck_search hmatch⟩
      | ok found =>
        obtain ⟨index, item⟩ := found
        obtain ⟨key, value, form, hfound⟩ := exists_of_matchQuery hmatch
        rcases ih item with ⟨address, container, h⟩ | ⟨failure, h⟩
        · exact .inl ⟨_, _, .item form hfound h⟩
        · exact .inr ⟨failure, h.item form hfound⟩

/-- A walk that succeeds has arrived, and its action has succeeded on the container. -/
lemma exists_walks_of_visit {root : Value} {path : Path} {act : Action α} {a : α}
    (h : (root.visit path vivify act).outcome = .ok a) :
    ∃ address container, Walks vivify (walkRoot vivify root) path.parents address container ∧
      (act container).1 = .ok a ∧
      (root.visit path vivify act).node = (walkRoot vivify root).put address (act container).2 := by
  rcases walks_or_stuck path.text vivify path.parents (walkRoot vivify root) with
    ⟨address, container, hwalks⟩ | ⟨failure, hstuck⟩
  · obtain ⟨houtcome, hnode⟩ := follow_of_walks hwalks path.text act
    exact ⟨address, container, hwalks, houtcome.symm.trans h, hnode⟩
  · cases (hstuck act).1.symm.trans h

/-! ## Walks that make nothing -/

/-- A walk that vivifies and does not end at a mapping it made is a walk that only reads. -/
lemma Walks.read_or_empty (h : Walks vivify node segments address container) :
    Walks false node segments address container ∨ container = anyMap [] := by
  induction h with
  | here node => exact .inl (.here node)
  | item form found _ ih => exact ih.imp_left (.item form found)
  | child mapping found isOpen _ ih => exact ih.imp_left (.child mapping found isOpen)
  | @made node container segment rest address vivifies _ _ below _ =>
    subst vivifies
    exact .inr (below.unique (walks_empty rest)).2

/-- Where a reading walk arrives, there is the container, and writing it back changes nothing. -/
theorem Walks.of_read (h : Walks false node segments address container) :
    node.at? address = some container ∧ node.put address container = node := by
  induction h with
  | here node => simp
  | @item items segment key value index item container rest address form found _ ih =>
    obtain ⟨hi, rfl⟩ := List.getElem?_eq_some_iff.1 (firstAnswer_answers found).1
    have hitem : items[index]? = some items[index] := List.getElem?_eq_getElem hi
    rw [at?_cons, childAt?_seq_index, hitem, put_index hitem, ih.2, List.set_getElem_self]
    exact ⟨ih.1, rfl⟩
  | @child node child container segment rest address mapping found isOpen _ ih =>
    rw [at?_cons, childAt?_name, found, put_name, slot_of_isContainer found isOpen, ih.2,
      setChild_child? found]
    exact ⟨ih.1, rfl⟩
  | made vivifies => simp at vivifies

/-- A walk that makes nothing and whose action only looks leaves the tree as it was. -/
lemma visit_node_of_look (root : Value) (path : Path) (look : Value → Except Failure α) :
    (root.visit path false fun container => (look container, container)).node = root := by
  rw [visit, show walkRoot false root = root from rfl]
  rcases walks_or_stuck path.text false path.parents root with
    ⟨address, container, hwalks⟩ | ⟨failure, hstuck⟩
  · rw [(follow_of_walks hwalks path.text _).2]
    exact hwalks.of_read.2
  · exact (hstuck _).2

/-! ## Failing leaves nothing behind -/

lemma walkRoot_eq (vivify : Bool) (root : Value) :
    walkRoot vivify root = root ∨
      vivify = true ∧ root = null ∧ walkRoot vivify root = strMap [] := by
  unfold walkRoot
  split
  case isFalse => exact .inl rfl
  case isTrue h =>
    obtain ⟨hvivify, hnull⟩ : vivify = true ∧ root.isNull = true := by simpa using h
    exact .inr ⟨hvivify, isNull_iff.1 hnull, rfl⟩

/-- An operation that fails leaves the tree as it was: no mapping that was made on the way is left
behind, and a null root is null again. -/
theorem visit_node_of_error {act : Action α} (hact : Restrained act) {root : Value} {path : Path}
    {failure : Failure} (h : (root.visit path vivify act).outcome = .error failure) :
    (root.visit path vivify act).node = root := by
  have hmapping : ∀ container, container.isMapping = true → (act container).1 ≠ .error failure := by
    intro container hc herror
    obtain ⟨a, ha⟩ := hact.succeeds container hc
    rw [ha] at herror
    cases herror
  unfold visit at h ⊢
  rcases walkRoot_eq vivify root with hroot | ⟨rfl, rfl, hroot⟩
  case inr =>
    -- a walk from a null root ends at a mapping, where the action does not fail
    rw [hroot] at h
    obtain ⟨container, hwalks, hc⟩ := walks_emptyRoot path.parents
    rw [(follow_of_walks hwalks path.text act).1] at h
    exact absurd h (hmapping container hc)
  case inl =>
    rw [hroot] at h ⊢
    rcases walks_or_stuck path.text vivify path.parents root with
      ⟨address, container, hwalks⟩ | ⟨_, hstuck⟩
    · obtain ⟨houtcome, hnode⟩ := follow_of_walks hwalks path.text act
      rw [houtcome] at h
      rcases hwalks.read_or_empty with hread | rfl
      · rw [hnode, hact.keeps container failure h, hread.of_read.2]
      · exact absurd h (hmapping _ rfl)
    · exact (hstuck act).2

section Map

variable {β : Type} {f : α → β} {outcome : Except Failure α}

lemma exists_of_map_eq_ok {b : β} (h : outcome.map f = .ok b) : ∃ a, outcome = .ok a := by
  cases outcome with
  | ok a => exact ⟨a, rfl⟩
  | error _ => cases h

lemma eq_error_of_map_eq_error {failure : Failure} (h : outcome.map f = .error failure) :
    outcome = .error failure := by
  cases outcome with
  | ok _ => cases h
  | error _ => exact congrArg Except.error (Except.error.inj h)

end Map

/-- An action that does not return what it took. -/
def forgetful (act : Action α) : Action Unit :=
  fun container => ((act container).1.map fun _ => (), (act container).2)

/-- Forgetting what an action returns changes neither the tree nor which walks succeed. -/
lemma visit_forgetful (act : Action α) (root : Value) (path : Path) (vivify : Bool) :
    (root.visit path vivify (forgetful act)).outcome =
        (root.visit path vivify act).outcome.map (fun _ => ()) ∧
      (root.visit path vivify (forgetful act)).node = (root.visit path vivify act).node := by
  unfold visit
  rcases walks_or_stuck path.text vivify path.parents (walkRoot vivify root) with
    ⟨address, container, hwalks⟩ | ⟨failure, hstuck⟩
  · obtain ⟨houtcome, hnode⟩ := follow_of_walks hwalks path.text act
    obtain ⟨houtcome', hnode'⟩ := follow_of_walks hwalks path.text (forgetful act)
    rw [houtcome, houtcome', hnode, hnode']
    exact ⟨rfl, rfl⟩
  · rw [(hstuck act).1, (hstuck act).2, (hstuck (forgetful act)).1, (hstuck (forgetful act)).2]
    exact ⟨rfl, rfl⟩

lemma Restrained.forgetful {act : Action α} (h : Restrained act) : Restrained (forgetful act) where
  succeeds container hc := by
    obtain ⟨a, ha⟩ := h.succeeds container hc
    exact ⟨(), by rw [Value.forgetful, ha]; rfl⟩
  keeps container failure hf := h.keeps container failure (eq_error_of_map_eq_error hf)

lemma restrained_set (segment path : String) (value : Value) :
    Restrained (set segment path value) where
  succeeds container h := ⟨(), by rw [set_mapping h]⟩
  keeps container failure h := by
    cases container <;> simp_all [set]

lemma restrained_remove (segment path : String) : Restrained (remove segment path) where
  succeeds container h := by
    cases container with
    | scalar _ | seq _ => simp [isMapping] at h
    | strMap fields => exact ⟨_, rfl⟩
    | anyMap entries => exact ⟨_, rfl⟩
  keeps container failure h := by
    cases container <;> simp_all [remove]

end Value

end PropertyTree
