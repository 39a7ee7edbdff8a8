import PropertyTree.Proofs.SegmentForms
import PropertyTree.Proofs.WellFormed

/-!
# What a path reads

What a segment means depends on the node it meets.  On the way, a mapping is entered by key,
whatever the segment looks like, and a sequence is searched by a query; at the end, a mapping gives
what is under the key, or null, and a sequence gives the item of an index.  `Descends` and `Gives`
say which steps can be taken, in terms of the entries of mappings and the items of sequences, and
`Refuses` and `RefusesLast` say how a step fails that cannot be taken.

A read takes the steps in order, and `lookupAt_exact` says that it does nothing else: it finds a
node if and only if there is a chain of steps to it, and it fails with a failure if and only if that
is the failure of the first step that cannot be taken.

Both halves of each equivalence come from one fact: at every node and for every segment there is a
step or a refusal (`descends_or_refuses`, `gives_or_refuses`).  Since a read has one outcome, what
is sound and covers all cases is exact (`exact_of_total`).
-/

namespace PropertyTree

/-- A description of when an outcome is a result and when a failure is exact if it is sound and
covers all cases. -/
lemma exact_of_total {ε α : Type} {outcome : Except ε α} {P : α → Prop} {Q : ε → Prop}
    (hok : ∀ a, P a → outcome = .ok a) (herror : ∀ e, Q e → outcome = .error e)
    (total : (∃ a, P a) ∨ ∃ e, Q e) :
    (∀ a, outcome = .ok a ↔ P a) ∧ ∀ e, outcome = .error e ↔ Q e := by
  rcases total with ⟨a, ha⟩ | ⟨e, he⟩
  · have hne : ∀ e, ¬ Q e := fun e he => by
      have hboth := (hok a ha).symm.trans (herror e he)
      cases hboth
    refine ⟨fun b => ⟨fun hb => ?_, hok b⟩, fun e => ⟨fun h => ?_, herror e⟩⟩
    · obtain rfl : a = b := by simpa [hok a ha] using hb
      exact ha
    · rw [hok a ha] at h
      cases h
  · refine ⟨fun b => ⟨fun h => ?_, hok b⟩, fun f => ⟨fun hf => ?_, herror f⟩⟩
    · rw [herror e he] at h
      cases h
    · obtain rfl : e = f := by simpa [herror e he] using hf
      exact he

namespace Value

variable {node child next container root : Value} {key x segment : String} {items : List Value}
  {path : String} {failure : Failure}

/-! ## Entries under a string key -/

/-- A mapping, of either kind, has a child under a string key: its first entry with the key. -/
def Stores (node : Value) (key : String) (child : Value) : Prop :=
  ∃ before after, node.entries? = some (before ++ (text key, child) :: after) ∧
    ∀ e ∈ before, e.1 ≠ text key

/-- A mapping, of either kind, has no entry under a string key. -/
def Lacks (node : Value) (key : String) : Prop :=
  ∃ entries, node.entries? = some entries ∧ ∀ e ∈ entries, e.1 ≠ text key

lemma stores_iff : node.Stores key child ↔ node.child? key = some child := by
  constructor
  · rintro ⟨before, after, hentries, hbefore⟩
    rw [child?_eq_getText? hentries]
    clear hentries
    induction before with
    | nil => rw [List.nil_append, Table.getText?_cons, if_pos rfl]
    | cons e before ih =>
      obtain ⟨he, hbefore⟩ := List.forall_mem_cons.1 hbefore
      rw [List.cons_append, Table.getText?_cons, if_neg he, ih hbefore]
  · intro h
    obtain ⟨entries, hentries⟩ := exists_entries (isMapping_of_child? h)
    rw [child?_eq_getText? hentries] at h
    obtain ⟨before, after, rfl, hbefore⟩ := Table.exists_of_getText? h
    exact ⟨before, after, hentries, hbefore⟩

lemma lacks_iff : node.Lacks key ↔ node.isMapping = true ∧ node.child? key = none := by
  constructor
  · rintro ⟨entries, hentries, hnone⟩
    rw [child?_eq_getText? hentries]
    exact ⟨isMapping_of_entries hentries, Table.getText?_eq_none_iff.2 hnone⟩
  · rintro ⟨mapping, hnone⟩
    obtain ⟨entries, hentries⟩ := exists_entries mapping
    rw [child?_eq_getText? hentries] at hnone
    exact ⟨entries, hentries, Table.getText?_eq_none_iff.1 hnone⟩

lemma stores_or_lacks (mapping : node.isMapping = true) (key : String) :
    (∃ child, node.Stores key child) ∨ node.Lacks key := by
  cases hchild : node.child? key with
  | some child => exact .inl ⟨child, stores_iff.2 hchild⟩
  | none => exact .inr (lacks_iff.2 ⟨mapping, hchild⟩)

/-! ## The item that a query picks -/

/-- The item of least index that has the string `x` under `key`. -/
structure IsFirst (items : List Value) (key x : String) (index : Nat) (item : Value) : Prop where
  isItem : items[index]? = some item
  answers : item.Stores key (text x)
  least : ∀ j other, j < index → items[j]? = some other → ¬ other.Stores key (text x)

lemma answers_iff_stores : node.answers key x = true ↔ node.Stores key (text x) := by
  rw [stores_iff, answers_iff]

lemma firstAnswer_eq_none_iff :
    firstAnswer key x items = none ↔ ∀ item ∈ items, ¬ item.Stores key (text x) := by
  induction items with
  | nil => simp [firstAnswer]
  | cons first rest ih =>
    rw [firstAnswer, List.forall_mem_cons, ← answers_iff_stores]
    split
    case isTrue h => simp [h]
    case isFalse h => simp [h, ih]

lemma isFirst_of_firstAnswer {index : Nat} {item : Value}
    (h : firstAnswer key x items = some (index, item)) : IsFirst items key x index item := by
  obtain ⟨hitem, hanswers⟩ := firstAnswer_answers h
  refine ⟨hitem, answers_iff_stores.1 hanswers, ?_⟩
  clear hitem hanswers
  induction items generalizing index with
  | nil => cases h
  | cons first rest ih =>
    intro j other hj hother hstores
    rw [firstAnswer] at h
    split at h
    case isTrue =>
      obtain ⟨rfl, -⟩ : 0 = index ∧ first = item := by simpa using h
      exact Nat.not_lt_zero j hj
    case isFalse hfirst =>
      obtain ⟨⟨i, v⟩, hi, heq⟩ := Option.map_eq_some_iff.1 h
      obtain ⟨rfl, rfl⟩ : i + 1 = index ∧ v = item := by simpa using heq
      cases j with
      | zero =>
        obtain rfl : first = other := by simpa using hother
        exact hfirst (answers_iff_stores.2 hstores)
      | succ j =>
        rw [List.getElem?_cons_succ] at hother
        exact ih hi j other (Nat.lt_of_succ_lt_succ hj) hother hstores

lemma isFirst_iff {index : Nat} {item : Value} :
    IsFirst items key x index item ↔ firstAnswer key x items = some (index, item) := by
  refine ⟨fun h => ?_, isFirst_of_firstAnswer⟩
  cases hfound : firstAnswer key x items with
  | none =>
    have hmem := List.mem_of_getElem? h.isItem
    exact absurd h.answers (firstAnswer_eq_none_iff.1 hfound item hmem)
  | some found =>
    -- two items of least index are the same
    obtain ⟨index', item'⟩ := found
    have h' := isFirst_of_firstAnswer hfound
    have hindex : index' = index := by
      rcases Nat.lt_trichotomy index' index with hlt | heq | hlt
      · exact absurd h'.answers (h.least index' item' hlt h'.isItem)
      · exact heq
      · exact absurd h.answers (h'.least index item hlt h.isItem)
    subst hindex
    rw [Option.some.inj (h.isItem.symm.trans h'.isItem)]

/-! ## Steps on the way -/

/-- A parent segment leads from a node to the next one: from a mapping to the container under the
segment as a key, and from a sequence, by a query, to the first item that answers it. -/
inductive Descends : Value → String → Value → Prop
  | key {node child : Value} {segment : String} (stored : node.Stores segment child)
      (isOpen : child.isContainer = true) : Descends node segment child
  | query {items : List Value} {segment key x : String} {index : Nat} {item : Value}
      (form : IsQuery segment key x) (first : IsFirst items key x index item) :
      Descends (seq items) segment item

/-- The chain of steps that parents lead from a node to a container. -/
inductive Leads : Value → List String → Value → Prop
  | here (node : Value) : Leads node [] node
  | step {node next container : Value} {segment : String} {rest : List String}
      (first : Descends node segment next) (below : Leads next rest container) :
      Leads node (segment :: rest) container

/-- A parent segment leads nowhere from a node, with this failure: a scalar has nothing below it, a
mapping has no container under the key, a segment is no query, or no item of a sequence answers the
query. -/
inductive Refuses (path : String) : Value → String → Failure → Prop
  | scalar (s : Scalar) (segment : String) :
      Refuses path (scalar s) segment
        (.unsupportedContainer path segment (Value.scalar s).display s.kind)
  | closed {node : Value} {segment : String} {s : Scalar}
      (stored : node.Stores segment (Value.scalar s)) :
      Refuses path node segment
        (.unsupportedContainer path segment (Value.scalar s).display s.kind)
  | missing {node : Value} {segment : String} (lacks : node.Lacks segment) :
      Refuses path node segment (.unsupportedContainer path segment "null" .null)
  | noQuery {items : List Value} {segment : String} (form : ∀ key x, ¬ IsQuery segment key x) :
      Refuses path (seq items) segment (.queryMismatch path segment (displaySequence items))
  | unanswered {items : List Value} {segment key x : String} (form : IsQuery segment key x)
      (none : ∀ item ∈ items, ¬ item.Stores key (text x)) :
      Refuses path (seq items) segment (.queryUnmatched path segment (displaySequence items))

/-- The parents get to a node and no further: the first step that cannot be taken is refused with
this failure. -/
def Halts (path : String) (node : Value) (parents : List String) (failure : Failure) : Prop :=
  ∃ before segment after last, parents = before ++ segment :: after ∧ Leads node before last ∧
    Refuses path last segment failure

lemma Descends.halts {rest : List String} (first : Descends node segment next)
    (h : Halts path next rest failure) : Halts path node (segment :: rest) failure := by
  obtain ⟨before, stop, after, last, rfl, hleads, hrefuses⟩ := h
  exact ⟨segment :: before, stop, after, last, rfl, .step first hleads, hrefuses⟩

/-- At every node a segment leads on or is refused. -/
theorem descends_or_refuses (path : String) (node : Value) (segment : String) :
    (∃ next, Descends node segment next) ∨ ∃ failure, Refuses path node segment failure := by
  have mapping : node.isMapping = true → (∃ next, Descends node segment next) ∨
      ∃ failure, Refuses path node segment failure := by
    intro mapping
    rcases stores_or_lacks mapping segment with ⟨child, hstored⟩ | hlacks
    · cases child with
      | scalar s => exact .inr ⟨_, .closed hstored⟩
      | seq _ | strMap _ | anyMap _ => exact .inl ⟨_, .key hstored rfl⟩
    · exact .inr ⟨_, .missing hlacks⟩
  cases node with
  | scalar s => exact .inr ⟨_, .scalar s segment⟩
  | strMap _ | anyMap _ => exact mapping rfl
  | seq items =>
    by_cases hform : ∃ key x, IsQuery segment key x
    case neg => exact .inr ⟨_, .noQuery fun key x h => hform ⟨key, x, h⟩⟩
    case pos =>
      obtain ⟨key, x, form⟩ := hform
      cases hfound : firstAnswer key x items with
      | none => exact .inr ⟨_, .unanswered form (firstAnswer_eq_none_iff.1 hfound)⟩
      | some found => exact .inl ⟨_, .query form (isFirst_of_firstAnswer hfound)⟩

/-- The parents of a path lead to a container or halt. -/
theorem leads_or_halts (path : String) (node : Value) (parents : List String) :
    (∃ container, Leads node parents container) ∨ ∃ failure, Halts path node parents failure := by
  induction parents generalizing node with
  | nil => exact .inl ⟨node, .here node⟩
  | cons segment rest ih =>
    rcases descends_or_refuses path node segment with ⟨next, hnext⟩ | ⟨failure, hrefuses⟩
    · rcases ih next with ⟨container, hleads⟩ | ⟨failure, hhalts⟩
      · exact .inl ⟨container, .step hnext hleads⟩
      · exact .inr ⟨failure, hnext.halts hhalts⟩
    · exact .inr ⟨failure, [], segment, rest, node, rfl, .here node, hrefuses⟩

/-! ## The walk takes these steps -/

/-- A chain of steps is a reading walk. -/
lemma Leads.exists_walks {parents : List String} (h : Leads node parents container) :
    ∃ address, Walks false node parents address container := by
  induction h with
  | here node => exact ⟨[], .here node⟩
  | step first _ ih =>
    obtain ⟨address, hwalks⟩ := ih
    cases first with
    | key stored isOpen =>
      have hchild := stores_iff.1 stored
      exact ⟨_, .child (isMapping_of_child? hchild) hchild isOpen hwalks⟩
    | query form first =>
      exact ⟨_, .item (SegmentClass.ofText_eq_query_iff.2 form) (isFirst_iff.1 first) hwalks⟩

lemma matchQuery_of_noQuery (path : String) (form : ∀ key x, ¬ IsQuery segment key x)
    (items : List Value) :
    matchQuery path segment items =
      .error (.queryMismatch path segment (displaySequence items)) := by
  unfold matchQuery
  split
  case h_1 key x hform => exact absurd (SegmentClass.ofText_eq_query_iff.1 hform) (form key x)
  case h_2 => rfl

lemma matchQuery_of_unanswered (path : String) (form : IsQuery segment key x)
    (none : ∀ item ∈ items, ¬ item.Stores key (text x)) :
    matchQuery path segment items =
      .error (.queryUnmatched path segment (displaySequence items)) := by
  simp only [matchQuery, SegmentClass.ofText_eq_query_iff.2 form, firstAnswer_eq_none_iff.2 none]

/-- A walk stops at a step that is refused, unless it vivifies and has a mapping to make there. -/
lemma Refuses.follow_eq (h : Refuses path node segment failure) {vivify : Bool}
    (notMade : node.isMapping = true → (vivify && isAbsent (node.child? segment)) = false)
    {α : Type} (act : Action α) (rest : List String) :
    follow path vivify act (segment :: rest) node = ⟨.error failure, node, []⟩ := by
  have onMapping : node.isMapping = true → ∀ child, (node.child? segment).getD null = child →
      child.isContainer = false →
      follow path vivify act (segment :: rest) node =
        ⟨.error (blocked path segment child), node, []⟩ := by
    rintro mapping child rfl hnotOpen
    exact follow_blocked act mapping (notMade mapping) hnotOpen
  cases h with
  | scalar s => rfl
  | noQuery form => simp [follow, matchQuery_of_noQuery path form]
  | unanswered form none => simp [follow, matchQuery_of_unanswered path form none]
  | @closed _ _ s stored =>
    have hchild := stores_iff.1 stored
    exact onMapping (isMapping_of_child? hchild) (Value.scalar s) (by rw [hchild]; rfl) rfl
  | missing lacks =>
    obtain ⟨mapping, hnone⟩ := lacks_iff.1 lacks
    exact onMapping mapping null (by rw [hnone]; rfl) rfl

/-- A reading walk gets stuck at a step that is refused. -/
lemma Refuses.stuck (h : Refuses path node segment failure) (rest : List String) :
    Stuck path false (segment :: rest) node failure := by
  intro α act
  rw [h.follow_eq (fun _ => rfl) act rest]
  exact ⟨rfl, rfl⟩

/-- A walk that gets stuck below a node that was reached is stuck. -/
lemma Walks.stuck {vivify : Bool} {before rest : List String} {address : Address}
    (h : Walks false node before address container)
    (hstuck : Stuck path vivify rest container failure) :
    Stuck path vivify (before ++ rest) node failure := by
  induction h with
  | here node => exact hstuck
  | item form found _ ih => exact Stuck.item (@ih hstuck) form found
  | child mapping found isOpen _ ih => exact Stuck.child (@ih hstuck) mapping found isOpen
  | made vivifies => cases vivifies

/-- A reading walk gets stuck where the parents halt. -/
theorem Halts.stuck {parents : List String} (h : Halts path node parents failure) :
    Stuck path false parents node failure := by
  obtain ⟨before, segment, after, last, rfl, hleads, hrefuses⟩ := h
  obtain ⟨address, hwalks⟩ := hleads.exists_walks
  exact hwalks.stuck (hrefuses.stuck after)

/-! ## The last segment -/

/-- What the last segment gives in a container: the value under the key of a mapping, null if there
is none, or the item of a sequence at a decimal index. -/
inductive Gives : Value → String → Value → Prop
  | stored {container node : Value} {segment : String} (stored : container.Stores segment node) :
      Gives container segment node
  | missing {container : Value} {segment : String} (lacks : container.Lacks segment) :
      Gives container segment null
  | item {items : List Value} {segment : String} {n : Nat} {node : Value}
      (form : IsNumeral segment n) (isItem : items[n]? = some node) :
      Gives (seq items) segment node

/-- The last segment gives nothing, with this failure: a scalar has nothing below it, a segment is
no index, or the index is past the end of the sequence. -/
inductive RefusesLast (path : String) : Value → String → Failure → Prop
  | scalar (s : Scalar) (segment : String) :
      RefusesLast path (scalar s) segment (.unsupportedAccess .read path s.kind)
  | noIndex {items : List Value} {segment : String} (form : ∀ n, ¬ IsNumeral segment n) :
      RefusesLast path (seq items) segment (.indexNotNumeric path segment)
  | pastEnd {items : List Value} {segment : String} {n : Nat} (form : IsNumeral segment n)
      (past : items.length ≤ n) :
      RefusesLast path (seq items) segment (.indexOutOfRange path segment items.length)

/-- In every container the last segment gives something or is refused. -/
theorem gives_or_refuses (path : String) (container : Value) (segment : String) :
    (∃ node, Gives container segment node) ∨
      ∃ failure, RefusesLast path container segment failure := by
  have mapping : container.isMapping = true → ∃ node, Gives container segment node := by
    intro mapping
    rcases stores_or_lacks mapping segment with ⟨child, hstored⟩ | hlacks
    · exact ⟨child, .stored hstored⟩
    · exact ⟨null, .missing hlacks⟩
  cases container with
  | scalar s => exact .inr ⟨_, .scalar s segment⟩
  | strMap _ | anyMap _ => exact .inl (mapping rfl)
  | seq items =>
    by_cases hform : ∃ n, IsNumeral segment n
    case neg => exact .inr ⟨_, .noIndex fun n h => hform ⟨n, h⟩⟩
    case pos =>
      obtain ⟨n, form⟩ := hform
      rcases Nat.lt_or_ge n items.length with hlt | hge
      · exact .inl ⟨_, .item form (List.getElem?_eq_getElem hlt)⟩
      · exact .inr ⟨_, .pastEnd form hge⟩

lemma ofText_of_isNumeral {n : Nat} (form : IsNumeral segment n) :
    SegmentClass.ofText segment = .index segment :=
  SegmentClass.ofText_eq_index_iff.2 ⟨rfl, n, form⟩

/-- An index below a length that fits 64 bits is found, however many zeros are in front of it. -/
lemma Gives.lookup (h : Gives container segment node)
    (hfits : ∀ items, container = seq items → items.length ≤ 2 ^ 64) (path : String) :
    container.lookup segment path = .ok node := by
  cases h with
  | stored stored =>
    have hchild := stores_iff.1 stored
    rw [lookup_mapping (isMapping_of_child? hchild), hchild, Option.getD_some]
  | missing lacks =>
    obtain ⟨mapping, hnone⟩ := lacks_iff.1 lacks
    rw [lookup_mapping mapping, hnone, Option.getD_none]
  | @item items _ n _ form isItem =>
    have hlength := hfits items rfl
    obtain ⟨hn, -⟩ := List.getElem?_eq_some_iff.1 isItem
    have hword : wordIndex? segment.toList = some n := by
      rw [wordIndex?, form.decimalValue_eq]
      exact if_pos (by omega)
    simp [Value.lookup, ofText_of_isNumeral form, hword, isItem]

lemma RefusesLast.lookup (h : RefusesLast path container segment failure) :
    container.lookup segment path = .error failure := by
  cases h with
  | scalar s => rfl
  | noIndex form =>
    rw [Value.lookup]
    split
    case h_1 digits hindex =>
      obtain ⟨-, n, hn⟩ := SegmentClass.ofText_eq_index_iff.1 hindex
      exact absurd hn (form n)
    case h_2 => rfl
  | @pastEnd items _ n form past =>
    have hnone : (wordIndex? segment.toList).bind (items[·]?) = none := by
      rw [wordIndex?, form.decimalValue_eq]
      split
      case isTrue => exact List.getElem?_eq_none past
      case isFalse => rfl
    simp [Value.lookup, ofText_of_isNumeral form, hnone]

/-! ## The main statement -/

/-- What a path reads: the parents lead to a container, and there the last segment gives the
node. -/
def Reads (root : Value) (path : Path) (node : Value) : Prop :=
  ∃ container, Leads root path.parents container ∧ Gives container path.last node

/-- How a path fails to read: the first step that cannot be taken, on the way or at the end, is
refused with this failure. -/
def FailsToRead (root : Value) (path : Path) (failure : Failure) : Prop :=
  Halts path.text root path.parents failure ∨
    ∃ container, Leads root path.parents container ∧
      RefusesLast path.text container path.last failure

lemma resolve_of_leads {path : Path} (h : Leads root path.parents container) :
    (root.resolve path false).outcome = .ok container := by
  obtain ⟨address, hwalks⟩ := h.exists_walks
  exact (follow_of_walks hwalks path.text _).1

lemma lookupAt_of_leads {path : Path} (h : Leads root path.parents container) :
    (root.lookupAt path false).outcome = container.lookup path.last path.text := by
  obtain ⟨address, hwalks⟩ := h.exists_walks
  exact (follow_of_walks hwalks path.text _).1

/-- A read leaves the tree as it is.  It walks to a container and looks up the last segment there;
it finds a node if and only if the path reads it, and fails with a failure if and only if that is
the one of the first step that cannot be taken.  If the walk ends at a sequence, its length is taken
to fit 64 bits. -/
theorem lookupAt_exact (root : Value) (path : Path)
    (hfits : ∀ items, (root.resolve path false).outcome = .ok (seq items) → items.length ≤ 2 ^ 64) :
    (root.lookupAt path false).node = root ∧
      (root.lookupAt path false).outcome =
        (root.resolve path false).outcome.bind (·.lookup path.last path.text) ∧
      (∀ node, (root.lookupAt path false).outcome = .ok node ↔ Reads root path node) ∧
      ∀ failure, (root.lookupAt path false).outcome = .error failure ↔
        FailsToRead root path failure := by
  have hread : ∀ node, Reads root path node → (root.lookupAt path false).outcome = .ok node := by
    rintro node ⟨container, hleads, hgives⟩
    rw [lookupAt_of_leads hleads]
    exact hgives.lookup (fun items h => hfits items (h ▸ resolve_of_leads hleads)) path.text
  have hfail : ∀ failure, FailsToRead root path failure →
      (root.lookupAt path false).outcome = .error failure := by
    rintro failure (hhalts | ⟨container, hleads, hrefuses⟩)
    · exact (hhalts.stuck _).1
    · rw [lookupAt_of_leads hleads]
      exact hrefuses.lookup
  refine ⟨visit_node_of_look root path _, ?_, exact_of_total hread hfail ?_⟩
  · rcases leads_or_halts path.text root path.parents with ⟨container, hleads⟩ | ⟨failure, hhalts⟩
    · rw [lookupAt_of_leads hleads, resolve_of_leads hleads]
      rfl
    · have hresolve : (root.resolve path false).outcome = .error failure := (hhalts.stuck _).1
      rw [hfail failure (.inl hhalts), hresolve]
      rfl
  · rcases leads_or_halts path.text root path.parents with ⟨container, hleads⟩ | ⟨failure, hhalts⟩
    · rcases gives_or_refuses path.text container path.last with
        ⟨node, hgives⟩ | ⟨failure, hrefuses⟩
      · exact .inl ⟨node, container, hleads, hgives⟩
      · exact .inr ⟨failure, .inr ⟨container, hleads, hrefuses⟩⟩
    · exact .inr ⟨failure, .inl hhalts⟩

/-- The path goes by the key `a=b` of a mapping and by the query `name=x` of a sequence to an index
with zeros in front. -/
theorem lookupAt_exact_ports :
    let root := strMap [("a=b", seq [strMap [("name", text "y")],
      anyMap [(int 1, null), (text "name", text "x"), (text "ports", seq [int 80, int 443])]])]
    let path : Path := ⟨["a=b", "name=x", "ports"], "0001"⟩
    (∀ items, (root.resolve path false).outcome = .ok (seq items) → items.length ≤ 2 ^ 64) ∧
      (root.lookupAt path false).outcome = .ok (int 443) ∧ Reads root path (int 443) := by
  intro root path
  have hresolve : (root.resolve path false).outcome = .ok (seq [int 80, int 443]) := by
    decide +kernel
  have hfits : ∀ items, (root.resolve path false).outcome = .ok (seq items) →
      items.length ≤ 2 ^ 64 := by
    intro items h
    obtain rfl : [int 80, int 443] = items := by simpa [hresolve] using h
    decide
  have houtcome : (root.lookupAt path false).outcome = .ok (int 443) := by decide +kernel
  exact ⟨hfits, houtcome, ((lookupAt_exact root path hfits).2.2.1 _).1 houtcome⟩

end Value

end PropertyTree
