import PropertyTree.Proofs.RoundTrip
import PropertyTree.Proofs.Similar
import PropertyTree.Proofs.SortedFields

/-!
# Sets that commute

Two sets at addresses of which neither leads to the other may be done in either order.  Both orders
succeed if each set succeeds alone, and they leave the same nodes at every address.  The trees need
not be equal, because a new entry of an any-keyed mapping comes last, and which of two new entries
is the later one depends on the order.  `Reordered` allows for this and for nothing else.

Most of the argument is about writes at addresses (`put_put`), whatever led there.  What is left is
that the path of one set still leads to the same address after the other set, and this is where
queries come in.  A write below an item leaves the answers of the item alone as long as the last key
that is written is not the one that is asked for (`answers_put_of_last`).  A key further up is no
danger: a write that goes on below a key goes through a container there, and a container answers no
query.

## Main statements

* `at?_put_put`: writes apart from each other commute, seen from any address.
* `Walks.put_apart`: a walk arrives at the same address after a write elsewhere.
* `setAt_commutes`: independent sets commute.
-/

namespace PropertyTree

/-! ## Addresses apart -/

/-- Neither address leads to the other. -/
structure Apart (A B : Address) : Prop where
  left : ¬ A <+: B
  right : ¬ B <+: A

namespace Apart

variable {A B C : Address} {step : Step}

lemma symm (h : Apart A B) : Apart B A := ⟨h.right, h.left⟩

lemma cons_iff : Apart (step :: A) (step :: B) ↔ Apart A B := by
  have hcons : ∀ {B C : Address}, step :: B <+: step :: C ↔ B <+: C := by
    intro B C
    simp [List.cons_prefix_cons]
  constructor
  · intro h
    exact ⟨fun hp => h.left (hcons.2 hp), fun hp => h.right (hcons.2 hp)⟩
  · intro h
    exact ⟨fun hp => h.left (hcons.1 hp), fun hp => h.right (hcons.1 hp)⟩

lemma ne_nil (h : Apart A B) : A ≠ [] := by
  rintro rfl
  exact h.left List.nil_prefix

/-- An address is apart from one of the two, or leads to both. -/
lemma cases (h : Apart A B) (C : Address) : Apart A C ∨ Apart B C ∨ C <+: A ∧ C <+: B := by
  by_cases hCA : C <+: A
  case pos =>
    by_cases hCB : C <+: B
    case pos => exact .inr (.inr ⟨hCA, hCB⟩)
    case neg => exact .inr (.inl ⟨fun hBC => h.right (hBC.trans hCA), hCB⟩)
  case neg =>
    by_cases hAC : A <+: C
    case neg => exact .inl ⟨hAC, hCA⟩
    case pos =>
      refine .inr (.inl ⟨fun hBC => ?_, fun hCB => h.left (hAC.trans hCB)⟩)
      rcases List.prefix_or_prefix_of_prefix hAC hBC with hAB | hBA
      · exact h.left hAB
      · exact h.right hBA

end Apart

namespace Value

variable {root node container old new x y v w : Value} {A B C address : Address} {s t : String}
  {segments : List String} {vivify : Bool}

/-! ## Trees up to the order of entries -/

/-- Two entries under one key with related values. -/
inductive UnderKey {κ : Type} (R : Value → Value → Prop) : κ × Value → κ × Value → Prop
  | mk (key : κ) {x y : Value} (values : R x y) : UnderKey R (key, x) (key, y)

/-- Trees that are the same except for the order of entries: the entries of any-keyed mappings, at
any depth, may come in another one. -/
inductive Reordered : Value → Value → Prop
  | scalar (s : Scalar) : Reordered (scalar s) (scalar s)
  | seq {as bs : List Value} (items : List.Forall₂ Reordered as bs) : Reordered (seq as) (seq bs)
  | strMap {as bs : List (String × Value)} (fields : List.Forall₂ (UnderKey Reordered) as bs) :
      Reordered (strMap as) (strMap bs)
  | anyMap {as bs cs : Table} (order : bs.Perm cs)
      (entries : List.Forall₂ (UnderKey Reordered) as cs) : Reordered (anyMap as) (anyMap bs)

theorem Reordered.refl (a : Value) : Reordered a a := by
  induction a using byChildren with
  | scalar s => exact .scalar s
  | seq items ih => exact .seq (List.forall₂_same.2 ih)
  | strMap fields ih =>
    exact .strMap (List.forall₂_same.2 fun e he => .mk e.1 (ih e he))
  | anyMap entries ih =>
    exact .anyMap (.refl _) (List.forall₂_same.2 fun e he => .mk e.1 (ih e he).2)

lemma reordered_of_perm {as bs : Table} (h : as.Perm bs) : Reordered (anyMap as) (anyMap bs) :=
  .anyMap h.symm (List.forall₂_same.2 fun e _ => .mk e.1 (.refl e.2))

/-! ## Storing a child -/

section Store

variable {fields : List (String × Value)}

lemma forall₂_underKey_refl {κ : Type} (entries : List (κ × Value)) :
    List.Forall₂ (UnderKey Reordered) entries entries :=
  List.forall₂_same.2 fun e _ => .mk e.1 (.refl e.2)

lemma forall₂_replace (h : Reordered x y) (fields : List (String × Value)) (s : String) :
    List.Forall₂ (UnderKey Reordered) (Fields.replace fields s x) (Fields.replace fields s y) := by
  induction fields with
  | nil => exact .nil
  | cons f rest ih =>
    obtain ⟨k, z⟩ := f
    rw [Fields.replace, Fields.replace]
    split
    case isTrue => exact .cons (.mk k h) (forall₂_underKey_refl rest)
    case isFalse => exact .cons (.mk k (.refl z)) ih

lemma forall₂_place (h : Reordered x y) (fields : List (String × Value)) (s : String) :
    List.Forall₂ (UnderKey Reordered) (Fields.place fields s x) (Fields.place fields s y) := by
  induction fields with
  | nil => exact .cons (.mk s h) .nil
  | cons f rest ih =>
    obtain ⟨k, z⟩ := f
    rw [Fields.place, Fields.place]
    split
    case isTrue => exact .cons (.mk s h) (forall₂_underKey_refl _)
    case isFalse => exact .cons (.mk k (.refl z)) ih

lemma putText_nil (s : String) (x : Value) : Table.putText [] s x = [(text s, x)] := rfl

lemma putText_cons (k z : Value) (rest : Table) (s : String) (x : Value) :
    Table.putText ((k, z) :: rest) s x =
      if k = text s then (k, x) :: rest else (k, z) :: Table.putText rest s x := by
  rw [← Table.put_text, ← Table.put_text]
  by_cases hk : k = text s
  · simp [Table.put, Table.insert, equal_text, text?, hk]
  · have hne : k.equal (text s) = false := by
      simpa [equal_text, text?_eq_some_iff] using hk
    simp [Table.put, Table.insert, hne, hk]

lemma forall₂_putText (h : Reordered x y) (entries : Table) (s : String) :
    List.Forall₂ (UnderKey Reordered) (entries.putText s x) (entries.putText s y) := by
  induction entries with
  | nil => exact .cons (.mk (text s) h) .nil
  | cons e rest ih =>
    obtain ⟨k, z⟩ := e
    rw [putText_cons, putText_cons]
    split
    case isTrue => exact .cons (.mk k h) (forall₂_underKey_refl rest)
    case isFalse => exact .cons (.mk k (.refl z)) ih

lemma Reordered.setChild (h : Reordered x y) (node : Value) (s : String) :
    Reordered (node.setChild s x) (node.setChild s y) := by
  cases node with
  | scalar _ | seq _ => exact .refl _
  | strMap fields =>
    refine .strMap ?_
    unfold Fields.insert
    split
    · exact forall₂_replace h fields s
    · exact forall₂_place h fields s
  | anyMap entries => exact .anyMap (.refl _) (forall₂_putText h entries s)

lemma putText_putText (entries : Table) (s : String) (x y : Value) :
    (entries.putText s x).putText s y = entries.putText s y := by
  induction entries with
  | nil => simp [putText_nil, putText_cons]
  | cons e rest ih =>
    obtain ⟨k, z⟩ := e
    rw [putText_cons, putText_cons]
    split
    case isTrue hk => rw [putText_cons, if_pos hk]
    case isFalse hk => rw [putText_cons, if_neg hk, ih]

/-- Of two new entries the one stored last comes last, so the orders differ. -/
lemma putText_comm (hne : s ≠ t) (entries : Table) (x y : Value) :
    ((entries.putText s x).putText t y).Perm ((entries.putText t y).putText s x) := by
  induction entries with
  | nil =>
    have hts : text s ≠ text t := by simpa using hne
    simp only [putText_nil, putText_cons, if_neg hts, if_neg hts.symm]
    exact .swap _ _ _
  | cons e rest ih =>
    obtain ⟨k, z⟩ := e
    rw [putText_cons, putText_cons]
    by_cases hs : k = text s
    · have ht : k ≠ text t := by simpa [hs] using hne
      rw [if_pos hs, if_neg ht, putText_cons, putText_cons, if_neg ht, if_pos hs]
    · by_cases ht : k = text t
      · rw [if_neg hs, if_pos ht, putText_cons, putText_cons, if_pos ht, if_neg hs]
      · rw [if_neg hs, if_neg ht, putText_cons, putText_cons, if_neg ht, if_neg hs]
        exact ih.cons _

lemma setChild_setChild (h : node.WellFormed) (s : String) (x y : Value) :
    (node.setChild s x).setChild s y = node.setChild s y := by
  cases h with
  | scalar _ | seq _ => rfl
  | strMap sorted _ => exact congrArg strMap (Fields.insert_insert sorted s x y)
  | anyMap _ _ _ => exact congrArg anyMap (putText_putText _ s x y)

lemma setChild_comm (h : node.WellFormed) (hne : s ≠ t) (x y : Value) :
    Reordered ((node.setChild s x).setChild t y) ((node.setChild t y).setChild s x) := by
  cases h with
  | scalar _ | seq _ => exact .refl _
  | strMap sorted _ =>
    rw [setChild, setChild, setChild, setChild, Fields.insert_comm sorted hne]
    exact .refl _
  | anyMap _ _ _ => exact reordered_of_perm (putText_comm hne _ x y)

end Store

/-! ## Two writes apart from each other -/

lemma opened_put_of_apart (hA : Writable node A) (hAB : Apart A B) (w : Value) :
    opened (some (node.put A w)) = node.put A w := by
  obtain ⟨step, rest, rfl⟩ := List.exists_cons_of_ne_nil hAB.ne_nil
  exact opened_some (isNull_of_isContainer (isContainer_put hA w))

lemma slot_setChild_self (mapping : node.isMapping = true) (s : String) (child : Value) :
    (node.setChild s child).slot s = opened (some child) := by
  rw [slot, child?_setChild mapping, if_pos rfl]

lemma slot_setChild_of_ne (mapping : node.isMapping = true) (hne : s ≠ t) (child : Value) :
    (node.setChild s child).slot t = node.slot t := by
  rw [slot, child?_setChild mapping, if_neg hne]

lemma WellFormed.slot (h : node.WellFormed) (s : String) : (node.slot s).WellFormed := by
  unfold Value.slot opened
  split
  case isTrue => exact wellFormed_empty
  case isFalse hchild =>
    cases hs : node.child? s with
    | none => simp [hs, isAbsent] at hchild
    | some child => exact h.child? hs

/-- An address can be written to after a write apart from it. -/
lemma Writable.put_apart (hA : Writable node A) (hB : Writable node B) (h : Apart A B) (v : Value) :
    Writable (node.put A v) B := by
  induction hA generalizing B with
  | here node => exact absurd rfl h.ne_nil
  | @item items i item rest found below ih =>
    have hi : i < items.length := (List.getElem?_eq_some_iff.1 found).1
    rw [put_index found]
    cases hB with
    | here => exact absurd rfl h.symm.ne_nil
    | key mapping => cases mapping
    | @item _ j item' rest' found' below' =>
      by_cases hij : i = j
      · subst hij
        obtain rfl : item = item' := Option.some.inj (found.symm.trans found')
        exact .item (by rw [List.getElem?_set_self hi]) (ih below' (Apart.cons_iff.1 h))
      · exact .item (by rw [List.getElem?_set_ne hij, found']) below'
  | @key node s rest mapping below ih =>
    rw [put_name]
    cases hB with
    | here => exact absurd rfl h.symm.ne_nil
    | item => cases mapping
    | @key _ t rest' _ below' =>
      refine .key (by rw [isMapping_setChild, mapping]) ?_
      by_cases hst : s = t
      · subst hst
        have hrest := Apart.cons_iff.1 h
        rw [slot_setChild_self mapping, opened_put_of_apart below hrest]
        exact ih below' hrest
      · rwa [slot_setChild_of_ne mapping hst]

/-- Two writes apart from each other leave the same tree in either order, up to the order of
entries. -/
theorem put_put (hA : Writable node A) (hB : Writable node B) (hnode : node.WellFormed)
    (h : Apart A B) (v w : Value) :
    Reordered ((node.put A v).put B w) ((node.put B w).put A v) := by
  induction hA generalizing B with
  | here node => exact absurd rfl h.ne_nil
  | @item items i item rest found below ih =>
    have hi : i < items.length := (List.getElem?_eq_some_iff.1 found).1
    cases hB with
    | here => exact absurd rfl h.symm.ne_nil
    | key mapping => cases mapping
    | @item _ j item' rest' found' below' =>
      rw [put_index found, put_index found']
      by_cases hij : i = j
      · subst hij
        obtain rfl : item = item' := Option.some.inj (found.symm.trans found')
        rw [put_index (List.getElem?_set_self hi), put_index (List.getElem?_set_self hi),
          List.set_set, List.set_set]
        have hitem := hnode.items item (List.mem_of_getElem? found)
        refine .seq (forall₂_set ?_ (ih below' hitem (Apart.cons_iff.1 h)) i)
        exact List.forall₂_same.2 fun x _ => .refl x
      · rw [put_index (by rw [List.getElem?_set_ne hij, found']),
          put_index (by rw [List.getElem?_set_ne (Ne.symm hij), found]), List.set_comm _ _ hij]
        exact .refl _
  | @key node s rest mapping below ih =>
    cases hB with
    | here => exact absurd rfl h.symm.ne_nil
    | item => cases mapping
    | @key _ t rest' _ below' =>
      simp only [put_name]
      by_cases hst : s = t
      · subst hst
        have hrest := Apart.cons_iff.1 h
        rw [slot_setChild_self mapping, slot_setChild_self mapping,
          opened_put_of_apart below hrest, opened_put_of_apart below' hrest.symm,
          setChild_setChild hnode, setChild_setChild hnode]
        exact (ih below' (hnode.slot s) hrest).setChild node s
      · rw [slot_setChild_of_ne mapping hst, slot_setChild_of_ne mapping (Ne.symm hst)]
        exact setChild_comm hnode hst _ _

/-- What is found at an address after a write depends on what was found there before it, and on
nothing else. -/
lemma at?_put_congr {other : Value} (h : Writable node B) (h' : Writable other B)
    (hC : node.at? C = other.at? C) (w : Value) :
    (node.put B w).at? C = (other.put B w).at? C := by
  by_cases hBC : B <+: C
  case pos =>
    obtain ⟨D, rfl⟩ := hBC
    rw [at?_append, at?_append, at?_put_self h, at?_put_self h']
  case neg =>
    by_cases hCB : C <+: B
    case pos =>
      obtain ⟨D, rfl⟩ := hCB
      rw [(at?_put_before h w).1, (at?_put_before h' w).1, hC]
    case neg => rw [at?_put_of_apart h hBC hCB, at?_put_of_apart h' hBC hCB, hC]

lemma WellFormed.childAt? {step : Step} (h : node.WellFormed) (hx : node.childAt? step = some x) :
    x.WellFormed := by
  cases h with
  | scalar _ => cases hx
  | seq items_ok =>
    cases step with
    | key k => simp at hx
    | index i => exact items_ok x (List.mem_of_getElem? hx)
  | anyMap _ _ children =>
    cases step with
    | index i => cases hx
    | key k =>
      obtain ⟨e, he, rfl⟩ := Option.map_eq_some_iff.1 hx
      exact children e (List.mem_of_find?_eq_some he)
  | @strMap fields sorted children =>
    cases step with
    | index i => cases hx
    | key k =>
      have hchild : ∃ s, Fields.get? fields s = some x := by
        cases k with
        | scalar a =>
          cases a with
          | text s => exact ⟨s, hx⟩
          | null | bool _ | int _ | float _ => cases hx
        | seq _ | strMap _ | anyMap _ => cases hx
      obtain ⟨s, hs⟩ := hchild
      exact children _ (Fields.mem_of_get? hs)

lemma WellFormed.at? (h : node.WellFormed) (hx : node.at? A = some x) : x.WellFormed := by
  induction A generalizing node with
  | nil =>
    obtain rfl : node = x := by simpa using hx
    exact h
  | cons step rest ih =>
    obtain ⟨child, hchild, hx⟩ := Option.bind_eq_some_iff.1 hx
    exact ih (h.childAt? hchild) hx

lemma WellFormed.opened_at? (h : node.WellFormed) (A : Address) :
    (opened (node.at? A)).WellFormed := by
  unfold opened
  split
  case isTrue => exact wellFormed_empty
  case isFalse hchild =>
    cases hA : node.at? A with
    | none => simp [hA, isAbsent] at hchild
    | some child => exact h.at? hA

/-- Two writes apart from each other leave the same nodes at every address in either order, up to
the order of entries. -/
theorem at?_put_put (hA : Writable node A) (hB : Writable node B) (hnode : node.WellFormed)
    (h : Apart A B) (v w : Value) (C : Address) :
    Option.Rel Reordered (((node.put A v).put B w).at? C) (((node.put B w).put A v).at? C) := by
  have hA' : Writable (node.put B w) A := hB.put_apart hA h.symm w
  have hB' : Writable (node.put A v) B := hA.put_apart hB h v
  have hrefl : ∀ a : Option Value, Option.Rel Reordered a a := by
    rintro (_ | a)
    · exact .none
    · exact .some (.refl a)
  rcases h.cases C with hAC | hBC | ⟨⟨A, rfl⟩, ⟨B, rfl⟩⟩
  · have hsame : ((node.put A v).put B w).at? C = ((node.put B w).put A v).at? C := by
      rw [at?_put_of_apart hA' hAC.left hAC.right]
      exact at?_put_congr hB' hB (at?_put_of_apart hA hAC.left hAC.right v) w
    rw [hsame]
    exact hrefl _
  · have hsame : ((node.put A v).put B w).at? C = ((node.put B w).put A v).at? C := by
      rw [at?_put_of_apart hB' hBC.left hBC.right]
      exact at?_put_congr hA hA' (at?_put_of_apart hB hBC.left hBC.right w).symm v
    rw [hsame]
    exact hrefl _
  · -- the address leads to both: the writes go on from the node there, or from an empty mapping
    have hAB : Apart A B := by
      refine ⟨fun hp => h.left ?_, fun hp => h.right ?_⟩
      · simpa using hp
      · simpa using hp
    obtain ⟨hatA, hbelowA⟩ := at?_put_before hA v
    obtain ⟨hatB, hbelowB⟩ := at?_put_before hB w
    rw [(at?_put_before hB' w).1, (at?_put_before hA' v).1, hatA, hatB,
      opened_put_of_apart hbelowA hAB, opened_put_of_apart hbelowB hAB.symm]
    exact .some (put_put hbelowA hbelowB (hnode.opened_at? C) hAB v w)

/-! ## Walks after a write elsewhere -/

/-- A write changes what an item answers only if the last key written is the one asked for. -/
lemma answers_put_of_last {key value : String} (h : Writable node A)
    (hlast : A.getLast? = some (.name s)) (hne : s ≠ key) (v : Value) :
    (node.put A v).answers key value = node.answers key value := by
  rw [Bool.eq_iff_iff, answers_iff, answers_iff]
  cases h with
  | here => cases hlast
  | item found below => rw [put_index found]; rfl
  | @key _ t rest mapping below =>
    rw [put_name, child?_setChild mapping]
    split
    case isFalse => rfl
    case isTrue hkey =>
      subst hkey
      -- the write goes on below the key, so there is a container under it, before and after
      cases rest with
      | nil =>
        obtain rfl : t = s := by simpa using hlast
        exact absurd rfl hne
      | cons step rest =>
        constructor
        · intro hput
          have hcontainer := isContainer_put below v
          rw [Option.some.inj hput] at hcontainer
          cases hcontainer
        · intro hchild
          rw [slot, hchild, opened_some rfl] at below
          cases below with
          | key mapping' => cases mapping'

lemma firstAnswer_set_of_answers {key value : String} {items : List Value} {i : Nat}
    (hold : items[i]? = some old) (hsame : new.answers key value = old.answers key value) :
    firstAnswer key value (items.set i new) =
      (firstAnswer key value items).map fun (j, item) => (j, if j = i then new else item) := by
  induction items generalizing i with
  | nil => cases hold
  | cons first rest ih =>
    cases i with
    | zero =>
      obtain rfl : first = old := by simpa using hold
      rw [List.set_cons_zero, firstAnswer, firstAnswer, hsame]
      split
      case isTrue => simp
      case isFalse => simp [Function.comp_def]
    | succ i =>
      rw [List.set_cons_succ, firstAnswer, firstAnswer]
      split
      case isTrue => simp
      case isFalse =>
        rw [ih (by simpa using hold)]
        simp [Function.comp_def]

/-- A walk goes on into what a write left below a key. -/
lemma Walks.into_slot {segment : String} {step : Step} {rest : Address}
    (mapping : node.isMapping = true) (below : Writable (node.slot segment) (step :: rest))
    (h : Walks vivify ((node.slot segment).put (step :: rest) v) segments B container) :
    Walks vivify (node.put (.name segment :: step :: rest) v) (segment :: segments)
      (.name segment :: B) container := by
  rw [put_name]
  refine .child (by rw [isMapping_setChild, mapping]) ?_ (Value.isContainer_put below v) h
  rw [child?_setChild mapping, if_pos rfl]

/-- A walk that enters a key of a mapping goes on after a write: into what was written below the
key, or past what was written under another one. -/
lemma Walks.put_apart_mapping {segment : String} (mapping : node.isMapping = true)
    (hA : Writable node A) (hlast : A.getLast? = some (.name s)) (hAB : ¬ A <+: .name segment :: B)
    (inside : ∀ rest, Writable (node.slot segment) rest → rest.getLast? = some (.name s) →
      ¬ rest <+: B → ∃ container',
        Walks vivify ((node.slot segment).put rest v) segments B container' ∧
          container'.isMapping = container.isMapping)
    (outside : ∀ t child, t ≠ segment →
      Walks vivify (node.setChild t child) (segment :: segments) (.name segment :: B) container) :
    ∃ container',
      Walks vivify (node.put A v) (segment :: segments) (.name segment :: B) container' ∧
        container'.isMapping = container.isMapping := by
  cases hA with
  | here => exact absurd List.nil_prefix hAB
  | item => cases mapping
  | @key _ t rest _ below =>
    by_cases ht : t = segment
    case pos =>
      subst ht
      have hrest : ¬ rest <+: B := by simpa using hAB
      cases rest with
      | nil => exact absurd List.nil_prefix hrest
      | cons step rest =>
        obtain ⟨container', hwalks, hmapping⟩ := inside _ below hlast hrest
        exact ⟨container', .into_slot mapping below hwalks, hmapping⟩
    case neg =>
      rw [put_name]
      exact ⟨container, outside t _ ht, rfl⟩

/-- A walk that picks an item by a query goes on after a write: into what was written in this item,
or past what was written in another one.  The query still picks this item unless it asks for the
last key that was written. -/
lemma Walks.put_apart_item {items : List Value} {item : Value} {index : Nat}
    {segment key value : String} (form : SegmentClass.ofText segment = .query key value)
    (found : firstAnswer key value items = some (index, item)) (hA : Writable (seq items) A)
    (hlast : A.getLast? = some (.name s)) (hAB : ¬ A <+: .index index :: B) (hne : s ≠ key)
    (below : Walks vivify item segments B container)
    (inside : ∀ rest, Writable item rest → rest.getLast? = some (.name s) → ¬ rest <+: B →
      ∃ container', Walks vivify (item.put rest v) segments B container' ∧
        container'.isMapping = container.isMapping) :
    ∃ container',
      Walks vivify ((seq items).put A v) (segment :: segments) (.index index :: B) container' ∧
        container'.isMapping = container.isMapping := by
  cases hA with
  | here => exact absurd List.nil_prefix hAB
  | key mapping => cases mapping
  | @item _ i old rest hold below' =>
    have hlast' : rest.getLast? = some (.name s) := by
      cases rest with
      | nil => cases hlast
      | cons => exact hlast
    have hsame : (old.put rest v).answers key value = old.answers key value :=
      answers_put_of_last below' hlast' hne v
    have hfound := firstAnswer_set_of_answers hold hsame
    rw [put_index hold]
    simp only [found, Option.map_some] at hfound
    by_cases hi : index = i
    case pos =>
      subst hi
      obtain rfl : item = old := Option.some.inj ((firstAnswer_answers found).1.symm.trans hold)
      rw [if_pos rfl] at hfound
      obtain ⟨container', hwalks, hmapping⟩ := inside rest below' hlast' (by simpa using hAB)
      exact ⟨container', .item form hfound hwalks, hmapping⟩
    case neg =>
      rw [if_neg hi] at hfound
      exact ⟨container, .item form hfound below, rfl⟩

/-- A walk arrives at the same address after a write elsewhere, if no query on the way asks for the
last key that was written. -/
theorem Walks.put_apart (h : Walks true node segments B container) (hA : Writable node A)
    (hlast : A.getLast? = some (.name s)) (hAB : ¬ A <+: B)
    (hkeys : ∀ segment ∈ segments, ∀ x, SegmentClass.ofText segment ≠ .query s x) (v : Value) :
    ∃ container', Walks true (node.put A v) segments B container' ∧
      container'.isMapping = container.isMapping := by
  induction h generalizing A with
  | here node =>
    refine ⟨_, .here _, ?_⟩
    cases hA with
    | here => exact absurd List.nil_prefix hAB
    | item found => rw [put_index found]; rfl
    | key mapping => rw [put_name, isMapping_setChild]
  | @item items segment key value index item container rest B form found below ih =>
    obtain ⟨hkey, hrest⟩ := List.forall_mem_cons.1 hkeys
    have hne : s ≠ key := by
      rintro rfl
      exact hkey value form
    exact Walks.put_apart_item form found hA hlast hAB hne below fun A hA hlast hAB =>
      ih hA hlast hAB hrest
  | @child node child container segment rest B mapping found isOpen below ih =>
    obtain ⟨-, hrest⟩ := List.forall_mem_cons.1 hkeys
    have hslot := slot_of_isContainer found isOpen
    refine Walks.put_apart_mapping mapping hA hlast hAB (fun A hA hlast hAB => ?_)
      fun t new ht => ?_
    · rw [hslot] at hA ⊢
      exact ih hA hlast hAB hrest
    · refine .child (by rw [isMapping_setChild, mapping]) ?_ isOpen below
      rw [child?_setChild mapping, if_neg ht, found]
  | @made node container segment rest B vivifies mapping absent below ih =>
    obtain ⟨-, hrest⟩ := List.forall_mem_cons.1 hkeys
    have hslot : node.slot segment = anyMap [] := opened_of_absent absent
    refine Walks.put_apart_mapping mapping hA hlast hAB (fun A hA hlast hAB => ?_)
      fun t new ht => ?_
    · rw [hslot] at hA ⊢
      exact ih hA hlast hAB hrest
    · refine .made rfl (by rw [isMapping_setChild, mapping]) ?_ below
      rw [child?_setChild mapping, if_neg ht, absent]

/-! ## The main statement -/

/-- The address that a set at a path writes to: the one its parents lead to from the tree, with the
last segment as one more key. -/
def Writes (root : Value) (path : Path) (target : Address) : Prop :=
  ∃ address container, Walks true (walkRoot true root) path.parents address container ∧
    target = address ++ [.name path.last]

end Value

/-- Some parent of the path is a query that asks for the key. -/
def Path.Asks (path : Path) (key : String) : Prop :=
  ∃ segment ∈ path.parents, ∃ value, SegmentClass.ofText segment = .query key value

namespace Value

variable {root v w : Value} {A B : Address} {p q : Path}

/-- A set after an independent one still writes to its own address. -/
lemma setAt_setAt_eq_put (hp : (root.setAt p true v).outcome = .ok ())
    (hq : (root.setAt q true w).outcome = .ok ()) (hA : root.Writes p A) (hB : root.Writes q B)
    (h : Apart A B) (hkeys : ¬ q.Asks p.last) :
    Writable (walkRoot true root) A ∧
      (((root.setAt p true v).node.setAt q true w).outcome = .ok () ∧
        ((root.setAt p true v).node.setAt q true w).node =
          ((walkRoot true root).put A v).put B w) := by
  obtain ⟨address, container, hwalks, rfl⟩ := hA
  obtain ⟨address', container', hwalks', rfl⟩ := hB
  obtain ⟨_, _, hset, mapping, hnode⟩ := setAt_eq_put hp
  obtain ⟨rfl, rfl⟩ := hwalks.unique hset
  obtain ⟨_, _, hset', mapping', -⟩ := setAt_eq_put hq
  obtain ⟨rfl, rfl⟩ := hwalks'.unique hset'
  have hwritable := hwalks.writable mapping p.last
  -- the tree after the first set is a container, so the second set does not replace its root
  have hroot : walkRoot true (root.setAt p true v).node = (root.setAt p true v).node := by
    obtain ⟨step, rest, hcons⟩ := List.exists_cons_of_ne_nil h.ne_nil
    have hopen : (root.setAt p true v).node.isContainer = true := by
      rw [hnode, hcons]
      exact isContainer_put (hcons ▸ hwritable) v
    rw [walkRoot, isNull_of_isContainer hopen]
    rfl
  have helsewhere : ¬ address ++ [.name p.last] <+: address' :=
    fun hbefore => h.left (hbefore.trans (List.prefix_append _ _))
  have hasks : ∀ segment ∈ q.parents, ∀ x, SegmentClass.ofText segment ≠ .query p.last x :=
    fun segment hsegment x hquery => hkeys ⟨segment, hsegment, x, hquery⟩
  obtain ⟨after, hafter, hmapping⟩ :=
    hwalks'.put_apart hwritable List.getLast?_concat helsewhere hasks v
  rw [← hnode, ← hroot] at hafter
  have hsecond := setAt_of_walks hafter (hmapping.trans mapping') w
  rw [hroot, hnode] at hsecond
  rw [hnode]
  exact ⟨hwritable, hsecond⟩

/-- Two sets that succeed, at addresses apart, neither of which writes a key that a query of the
other asks for, succeed in either order and leave the same nodes at every address. -/
theorem setAt_commutes (hroot : root.WellFormed) (hp : (root.setAt p true v).outcome = .ok ())
    (hq : (root.setAt q true w).outcome = .ok ()) (hA : root.Writes p A) (hB : root.Writes q B)
    (hAB : Apart A B) (hqp : ¬ q.Asks p.last) (hpq : ¬ p.Asks q.last) :
    let pq := (root.setAt p true v).node.setAt q true w
    let qp := (root.setAt q true w).node.setAt p true v
    pq.outcome = .ok () ∧ qp.outcome = .ok () ∧ Reordered pq.node qp.node ∧
      ∀ C, Option.Rel Reordered (pq.node.at? C) (qp.node.at? C) := by
  intro pq qp
  obtain ⟨hwritable, houtcome, hnode⟩ := setAt_setAt_eq_put hp hq hA hB hAB hqp
  obtain ⟨hwritable', houtcome', hnode'⟩ := setAt_setAt_eq_put hq hp hB hA hAB.symm hpq
  have hfresh := hroot.walkRoot true
  have hreordered := put_put hwritable hwritable' hfresh hAB v w
  have hnodes := at?_put_put hwritable hwritable' hfresh hAB v w
  rw [← hnode, ← hnode'] at hreordered
  rw [← hnode, ← hnode'] at hnodes
  exact ⟨houtcome, houtcome', hreordered, hnodes⟩

/-- Two sets below the same null of an item, which the first of them opens. -/
theorem setAt_commutes_below_null :
    let p : Path := ⟨["routes", "name=x", "tls"], "on"⟩
    let q : Path := ⟨["routes", "name=x", "tls"], "ca"⟩
    let pq := (mixedTree.setAt p true (bool true)).node.setAt q true (text "pem")
    let qp := (mixedTree.setAt q true (text "pem")).node.setAt p true (bool true)
    (mixedTree.WellFormed ∧ (mixedTree.setAt p true (bool true)).outcome = .ok () ∧
      (mixedTree.setAt q true (text "pem")).outcome = .ok ()) ∧
    pq.outcome = .ok () ∧ qp.outcome = .ok () ∧ Reordered pq.node qp.node ∧
      ∀ C, Option.Rel Reordered (pq.node.at? C) (qp.node.at? C) := by
  intro p q pq qp
  have hroot : mixedTree.WellFormed := by decide +kernel
  have hp : (mixedTree.setAt p true (bool true)).outcome = .ok () := by decide +kernel
  have hq : (mixedTree.setAt q true (text "pem")).outcome = .ok () := by decide +kernel
  have hkey : SegmentClass.ofText "routes" = .key "routes" := by decide +kernel
  have hquery : SegmentClass.ofText "name=x" = .query "name" "x" := by decide +kernel
  have hkey' : SegmentClass.ofText "tls" = .key "tls" := by decide +kernel
  let item := anyMap [(int 1, text "kept"), (text "name", text "x"), (text "tls", null)]
  have hfound : firstAnswer "name" "x" [int 1, strMap [("name", text "y")], item] =
      some (2, item) := by decide +kernel
  have hwalks : Walks true (walkRoot true mixedTree) ["routes", "name=x", "tls"]
      [.name "routes", .index 2, .name "tls"] (anyMap []) :=
    .child rfl rfl rfl (.item hquery hfound (.made rfl rfl rfl (.here _)))
  have hAB : Apart [.name "routes", .index 2, .name "tls", .name "on"]
      [.name "routes", .index 2, .name "tls", .name "ca"] := by
    constructor <;> decide +kernel
  have hqp : ¬ q.Asks p.last := by simp [Path.Asks, p, q, hkey, hquery, hkey']
  have hpq : ¬ p.Asks q.last := by simp [Path.Asks, p, q, hkey, hquery, hkey']
  exact ⟨⟨hroot, hp, hq⟩,
    setAt_commutes hroot hp hq ⟨_, _, hwalks, rfl⟩ ⟨_, _, hwalks, rfl⟩ hAB hqp hpq⟩

end Value

end PropertyTree
