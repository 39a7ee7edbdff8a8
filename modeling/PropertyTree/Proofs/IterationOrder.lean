import PropertyTree.Proofs.ByteOrder
import PropertyTree.Proofs.ReadTwice
import PropertyTree.Value.Display

/-!
# Fields in the order of iteration

A string-keyed mapping has no order of its own.  The operations of this library keep its fields
sorted.  A hash table does not: it hands its fields out in an order that depends on the hashes and
on what was done to the table before, so that one value has many orders, in every mapping at every
depth and also inside the keys of any-keyed mappings.  In this module a list of fields with distinct
keys is such a table, in the order of its iteration (`Value.DistinctKeys`), and two trees that
differ in these orders only are `Value.Permuted`.

Whoever writes a hash table has to sort it first.  `Value.sortedDisplay` and `Value.sortedCalls` do,
each in its own recursion: they collect the keys of a mapping, sort them by their bytes and look
each of them up again (`Fields.arranged`).  This is what `Value.display` and `Value.toDocument` come
to, which insert the fields one after the other instead.

Inserting the fields everywhere in a tree, and not only where it is written, makes the tree that
this library would hold (`Value.built`).  It is written like the tree it was made of, and it does
not show in which order the fields were inserted.

## Main statements

* `Fields.arranged_eq_ofList`: sorting the keys and looking them up gives the fields that insertion
  gives.
* `sortedDisplay_eq`, `sortedCalls_eq`: what sorting by keys writes is the text and the document.
* `display_built`, `toDocument_built`: both are those of the tree that insertion makes.
* `Permuted.built_eq`, `permuted_iff`: insertion makes one tree of two if they differ in orders
  only, and not otherwise.
-/

namespace PropertyTree

/-! ## Sorted keys, looked up again -/

namespace Fields

universe u

variable {α : Type u} {fields : List (String × α)}

/-- The keys in the order of their bytes. -/
def sortedKeys (fields : List (String × α)) : List String :=
  (fields.map Prod.fst).mergeSort fun s t => decide (utf8Bytes s ≤ utf8Bytes t)

/-- The fields in the order of their keys: the keys are sorted, and each of them is looked up again.
-/
def arranged (fields : List (String × α)) : List (String × α) :=
  (sortedKeys fields).filterMap fun key => (get? fields key).map (key, ·)

lemma perm_sortedKeys (fields : List (String × α)) :
    (sortedKeys fields).Perm (fields.map Prod.fst) :=
  List.mergeSort_perm _ _

lemma sortedKeys_increasing (h : (fields.map Prod.fst).Nodup) :
    (sortedKeys fields).Pairwise (· < ·) := by
  have hle : (sortedKeys fields).Pairwise fun s t => decide (utf8Bytes s ≤ utf8Bytes t) = true := by
    refine List.pairwise_mergeSort (fun r s t => ?_) (fun s t => ?_) _
    · simp only [decide_eq_true_eq, utf8Bytes_le_iff]
      exact String.le_trans
    · simp only [Bool.or_eq_true, decide_eq_true_eq, utf8Bytes_le_iff]
      exact String.le_total s t
  have hne : (sortedKeys fields).Pairwise (· ≠ ·) := (perm_sortedKeys fields).nodup_iff.2 h
  refine hle.imp₂ (fun s t hst hst' => ?_) hne
  simp only [decide_eq_true_eq, utf8Bytes_le_iff] at hst
  exact text_lt_of_le_of_ne hst hst'

lemma mem_of_mem_arranged {f : String × α} (h : f ∈ arranged fields) : f ∈ fields := by
  obtain ⟨key, -, hkey⟩ := List.mem_filterMap.1 h
  obtain ⟨value, hvalue, rfl⟩ := Option.map_eq_some_iff.1 hkey
  exact mem_of_get? hvalue

/-- Every look-up of a collected key succeeds, so no key is passed over. -/
lemma keys_arranged (fields : List (String × α)) :
    (arranged fields).map Prod.fst = sortedKeys fields := by
  have hfound : ∀ key ∈ sortedKeys fields,
      ((get? fields key).map (key, ·)).map Prod.fst = some key := by
    intro key hkey
    obtain ⟨f, hf, rfl⟩ := List.mem_map.1 ((perm_sortedKeys fields).mem_iff.1 hkey)
    cases hget : get? fields f.1 with
    | none => exact absurd rfl (get?_eq_none_iff.1 hget f hf)
    | some value => rfl
  rw [arranged, List.map_filterMap, List.filterMap_congr hfound, List.filterMap_some]

lemma sorted_arranged (h : (fields.map Prod.fst).Nodup) : Sorted (arranged fields) := by
  rw [Sorted, keys_arranged]
  exact sortedKeys_increasing h

theorem perm_arranged (h : (fields.map Prod.fst).Nodup) : (arranged fields).Perm fields := by
  have hsubset : arranged fields ⊆ fields := fun _ => mem_of_mem_arranged
  have hlength : (arranged fields).length = fields.length := by
    rw [← List.length_map (f := Prod.fst), keys_arranged, (perm_sortedKeys fields).length_eq,
      List.length_map]
  exact (List.subperm_of_subset (sorted_arranged h).nodup hsubset).perm_of_length_le hlength.ge

/-- Sorting the keys and looking them up gives the fields that inserting them gives. -/
theorem arranged_eq_ofList (h : (fields.map Prod.fst).Nodup) : arranged fields = ofList fields :=
  (sorted_arranged h).eq_of_perm (sorted_ofList fields)
    ((perm_arranged h).trans (perm_ofList h).symm)

end Fields

/-! ## Calls on a writer -/

/-- A call that a writer of some format receives.  A sequence or a mapping is opened with its size;
then each item and each entry is announced, an entry being followed by its key and its value; and it
is closed. -/
inductive WriterCall where
  | atom (a : Atom)
  | openSeq (size : Nat)
  | item
  | openMap (size : Nat)
  | entry
  | close
  | tag (name : String)
deriving DecidableEq, Repr

/-- The parts of an entry are smaller than the list. -/
lemma sizeOf_parts_lt {α β : Type} [SizeOf α] [SizeOf β] {e : α × β} {entries : List (α × β)}
    (h : e ∈ entries) : sizeOf e.1 < sizeOf entries ∧ sizeOf e.2 < sizeOf entries := by
  have hlt := List.sizeOf_lt_of_mem h
  cases e
  rw [Prod.mk.sizeOf_spec] at hlt
  constructor <;> dsimp only <;> omega

lemma Document.sizeOf_entry_lt {e : Document × Document} {entries : List (Document × Document)}
    (h : e ∈ entries) : sizeOf e.1 < sizeOf (map entries) ∧ sizeOf e.2 < sizeOf (map entries) := by
  rw [map.sizeOf_spec]
  exact (sizeOf_parts_lt h).imp (Nat.lt_add_left 1) (Nat.lt_add_left 1)

/-- The calls that hand a document to a writer. -/
def Document.calls : Document → List WriterCall
  | atom a => [.atom a]
  | seq items =>
    .openSeq items.length :: items.flatMap (fun item => .item :: item.calls) ++ [.close]
  | map entries =>
    .openMap entries.length ::
      entries.flatMap (fun e => .entry :: (e.1.calls ++ e.2.calls)) ++ [.close]
  | tagged name content => .tag name :: content.calls
termination_by document => sizeOf document
decreasing_by
  · decreasing_tactic
  · exact (sizeOf_entry_lt ‹_›).1
  · exact (sizeOf_entry_lt ‹_›).2
  · decreasing_tactic

/-! ## Lists that correspond member by member -/

section Correspondence

variable {α γ : Type} {R : α → α → Prop} {as bs : List α}

/-- Lists that correspond have the same image if corresponding members do. -/
lemma map_eq_map_of_forall₂ {f : α → γ} (h : List.Forall₂ R as bs)
    (himp : ∀ a ∈ as, ∀ b, R a b → f a = f b) : as.map f = bs.map f := by
  induction h with
  | nil => rfl
  | cons hab _ ih =>
    obtain ⟨hfirst, hrest⟩ := List.forall_mem_cons.1 himp
    rw [List.map_cons, List.map_cons, hfirst _ hab, ih hrest]

/-- Lists with the same image correspond if members with the same image do. -/
lemma forall₂_of_map_eq {f : α → γ} (h : as.map f = bs.map f)
    (himp : ∀ a ∈ as, ∀ b ∈ bs, f a = f b → R a b) : List.Forall₂ R as bs := by
  induction as generalizing bs with
  | nil =>
    obtain rfl : bs = [] := List.map_eq_nil_iff.1 h.symm
    exact .nil
  | cons a rest ih =>
    obtain ⟨b, rest', rfl, hb, hrest⟩ := List.map_eq_cons_iff.1 h.symm
    refine .cons (himp a List.mem_cons_self b List.mem_cons_self hb.symm) ?_
    exact ih hrest.symm fun x hx y hy =>
      himp x (List.mem_cons_of_mem a hx) y (List.mem_cons_of_mem b hy)

/-- What holds of all that corresponds to a member of one list holds of the members of the other. -/
lemma forall_mem_of_forall₂ {P : α → Prop} (h : List.Forall₂ R as bs)
    (himp : ∀ a ∈ as, ∀ b, R a b → P b) : ∀ b ∈ bs, P b := by
  intro b hb
  obtain ⟨a, ha, hab⟩ := forall₂_exists_of_mem (List.Forall₂.flip (R := flip R) h) hb
  exact himp a ha b hab

end Correspondence

namespace Value

/-! ## Trees of hash tables -/

/-- The keys of every string-keyed mapping of a tree are distinct, as those of a hash table are. -/
inductive DistinctKeys : Value → Prop
  | scalar (s : Scalar) : DistinctKeys (scalar s)
  | seq {items : List Value} (items_ok : ∀ x ∈ items, DistinctKeys x) : DistinctKeys (seq items)
  | strMap {fields : List (String × Value)} (distinct : (fields.map Prod.fst).Nodup)
      (children : ∀ f ∈ fields, DistinctKeys f.2) : DistinctKeys (strMap fields)
  | anyMap {entries : List (Value × Value)} (keys : ∀ e ∈ entries, DistinctKeys e.1)
      (children : ∀ e ∈ entries, DistinctKeys e.2) : DistinctKeys (anyMap entries)

/-- Trees that differ in the order of fields only, in any string-keyed mappings of theirs. -/
inductive Permuted : Value → Value → Prop
  | scalar (s : Scalar) : Permuted (scalar s) (scalar s)
  | seq {as bs : List Value} (items : List.Forall₂ Permuted as bs) : Permuted (seq as) (seq bs)
  | strMap {as bs cs : List (String × Value)} (keys : as.map Prod.fst = bs.map Prod.fst)
      (values : List.Forall₂ Permuted (as.map Prod.snd) (bs.map Prod.snd)) (order : bs.Perm cs) :
      Permuted (strMap as) (strMap cs)
  | anyMap {as bs : List (Value × Value)}
      (keys : List.Forall₂ Permuted (as.map Prod.fst) (bs.map Prod.fst))
      (values : List.Forall₂ Permuted (as.map Prod.snd) (bs.map Prod.snd)) :
      Permuted (anyMap as) (anyMap bs)

lemma sizeOf_field_lt {f : String × Value} {fields : List (String × Value)} (h : f ∈ fields) :
    sizeOf f.2 < sizeOf (strMap fields) := by
  rw [strMap.sizeOf_spec]
  exact Nat.lt_add_left 1 (sizeOf_parts_lt h).2

lemma sizeOf_entry_lt {e : Value × Value} {entries : List (Value × Value)} (h : e ∈ entries) :
    sizeOf e.1 < sizeOf (anyMap entries) ∧ sizeOf e.2 < sizeOf (anyMap entries) := by
  rw [anyMap.sizeOf_spec]
  exact (sizeOf_parts_lt h).imp (Nat.lt_add_left 1) (Nat.lt_add_left 1)

/-- The text of a tree of hash tables. -/
def sortedDisplay : Value → String
  | scalar s => s.display
  | seq items => bracket "[" "]" (items.map fun item => item.sortedDisplay)
  | strMap fields =>
    bracket "\x7b" "\x7d" ((Fields.arranged fields).attach.map fun ⟨f, _⟩ =>
      f.1 ++ ": " ++ f.2.sortedDisplay)
  | anyMap entries =>
    bracket "\x7b" "\x7d" (entries.map fun e => e.1.sortedDisplay ++ ": " ++ e.2.sortedDisplay)
termination_by node => sizeOf node
decreasing_by
  · decreasing_tactic
  · exact sizeOf_field_lt (Fields.mem_of_mem_arranged ‹_›)
  · exact (sizeOf_entry_lt ‹_›).1
  · exact (sizeOf_entry_lt ‹_›).2

/-- The calls that hand a tree of hash tables to a writer. -/
def sortedCalls : Value → List WriterCall
  | scalar s => [.atom s.toAtom]
  | seq items =>
    .openSeq items.length :: items.flatMap (fun item => .item :: item.sortedCalls) ++ [.close]
  | strMap fields =>
    .openMap (Fields.sortedKeys fields).length ::
      (Fields.arranged fields).attach.flatMap (fun ⟨f, _⟩ =>
        .entry :: .atom (.text f.1) :: f.2.sortedCalls) ++ [.close]
  | anyMap entries =>
    .openMap entries.length ::
      entries.flatMap (fun e => .entry :: (e.1.sortedCalls ++ e.2.sortedCalls)) ++ [.close]
termination_by node => sizeOf node
decreasing_by
  · decreasing_tactic
  · exact sizeOf_field_lt (Fields.mem_of_mem_arranged ‹_›)
  · exact (sizeOf_entry_lt ‹_›).1
  · exact (sizeOf_entry_lt ‹_›).2

lemma displayItems_eq_map (items : List Value) : displayItems items = items.map display := by
  induction items with
  | nil => rfl
  | cons item rest ih => rw [displayItems, ih, List.map_cons]

lemma displayFields_eq_map (fields : List (String × Value)) :
    displayFields fields = fields.map fun f => (f.1, f.2.display) := by
  induction fields with
  | nil => rfl
  | cons f rest ih => rw [displayFields, ih, List.map_cons]

lemma displayEntries_eq_map (entries : List (Value × Value)) :
    displayEntries entries = entries.map fun e => e.1.display ++ ": " ++ e.2.display := by
  induction entries with
  | nil => rfl
  | cons e rest ih => rw [displayEntries, ih, List.map_cons]

lemma display_strMap (fields : List (String × Value)) :
    (strMap fields).display = bracket "\x7b" "\x7d"
      ((Fields.ofList fields).map fun f => f.1 ++ ": " ++ f.2.display) := by
  rw [display, displayFields_eq_map, Fields.ofList_map, List.map_map]
  rfl

/-! ## What is written -/

lemma sortedDisplay_strMap (fields : List (String × Value)) :
    (strMap fields).sortedDisplay = bracket "\x7b" "\x7d"
      ((Fields.arranged fields).map fun f => f.1 ++ ": " ++ f.2.sortedDisplay) := by
  let part (f : String × Value) := f.1 ++ ": " ++ f.2.sortedDisplay
  have hparts := List.attach_map_val (f := part) (l := Fields.arranged fields)
  rw [sortedDisplay]
  exact congrArg _ hparts

lemma sortedCalls_strMap (fields : List (String × Value)) :
    (strMap fields).sortedCalls = .openMap (Fields.sortedKeys fields).length ::
      (Fields.arranged fields).flatMap (fun f => .entry :: .atom (.text f.1) :: f.2.sortedCalls) ++
        [.close] := by
  let part (f : String × Value) := WriterCall.entry :: .atom (.text f.1) :: f.2.sortedCalls
  have hparts := List.attach_map_val (f := part) (l := Fields.arranged fields)
  rw [sortedCalls]
  exact congrArg (fun parts => _ :: List.flatten parts ++ _) hparts

/-- Every field of a mapping is written once, in the order of the bytes of the keys. -/
lemma exists_sorted (fields : List (String × Value)) (h : (fields.map Prod.fst).Nodup) :
    ∃ sorted : List (String × Value), sorted.Perm fields ∧
      (sorted.map fun f => utf8Bytes f.1).Pairwise (· < ·) ∧
      (strMap fields).sortedDisplay =
        bracket "\x7b" "\x7d" (sorted.map fun f => f.1 ++ ": " ++ f.2.sortedDisplay) ∧
      (strMap fields).sortedCalls = .openMap fields.length ::
        sorted.flatMap (fun f => .entry :: .atom (.text f.1) :: f.2.sortedCalls) ++ [.close] := by
  have hlength : (Fields.sortedKeys fields).length = fields.length := by
    rw [(Fields.perm_sortedKeys fields).length_eq, List.length_map]
  refine ⟨Fields.arranged fields, Fields.perm_arranged h, ?_, sortedDisplay_strMap fields, ?_⟩
  · have hsorted := Fields.sorted_arranged h
    rw [Fields.Sorted, List.pairwise_map] at hsorted
    exact List.pairwise_map.2 (hsorted.imp utf8Bytes_lt_iff.2)
  · rw [sortedCalls_strMap, hlength]

/-- Sorting the keys of hash tables gives the text. -/
theorem sortedDisplay_eq {a : Value} (h : a.DistinctKeys) : a.sortedDisplay = a.display := by
  induction a using byChildren with
  | scalar s => rw [sortedDisplay, display]
  | seq items ih =>
    cases h with | seq items_ok =>
    rw [sortedDisplay, display, displayItems_eq_map]
    exact congrArg _ (List.map_congr_left fun x hx => ih x hx (items_ok x hx))
  | strMap fields ih =>
    cases h with | strMap distinct children =>
    rw [sortedDisplay_strMap, Fields.arranged_eq_ofList distinct, display_strMap]
    refine congrArg _ (List.map_congr_left fun f hf => ?_)
    have hmem := Fields.mem_ofList hf
    rw [ih f hmem (children f hmem)]
  | anyMap entries ih =>
    cases h with | anyMap keys children =>
    rw [sortedDisplay, display, displayEntries_eq_map]
    refine congrArg _ (List.map_congr_left fun e he => ?_)
    rw [(ih e he).1 (keys e he), (ih e he).2 (children e he)]

/-- Sorting the keys of hash tables makes the calls for the document. -/
theorem sortedCalls_eq {a : Value} (h : a.DistinctKeys) : a.sortedCalls = a.toDocument.calls := by
  induction a using byChildren with
  | scalar s => rw [sortedCalls, toDocument, Document.calls]
  | seq items ih =>
    cases h with | seq items_ok =>
    have hitems : ∀ x ∈ items, WriterCall.item :: x.sortedCalls = .item :: x.toDocument.calls := by
      intro x hx
      rw [ih x hx (items_ok x hx)]
    rw [sortedCalls, toDocument, toDocuments_eq_map, Document.calls, List.length_map,
      List.flatMap_map, List.flatMap_congr hitems]
  | strMap fields ih =>
    cases h with | strMap distinct children =>
    have hfields : ∀ f ∈ Fields.ofList fields, WriterCall.entry :: .atom (.text f.1) ::
        f.2.sortedCalls = .entry :: .atom (.text f.1) :: f.2.toDocument.calls := by
      intro f hf
      have hmem := Fields.mem_ofList hf
      rw [ih f hmem (children f hmem)]
    rw [sortedCalls_strMap, ← Fields.keys_arranged, List.length_map,
      Fields.arranged_eq_ofList distinct, List.flatMap_congr hfields, toDocument_strMap,
      Document.calls, List.length_map, List.flatMap_map]
    simp [Document.calls]
  | anyMap entries ih =>
    cases h with | anyMap keys children =>
    have hentries : ∀ e ∈ entries, WriterCall.entry :: (e.1.sortedCalls ++ e.2.sortedCalls) =
        .entry :: (e.1.toDocument.calls ++ e.2.toDocument.calls) := by
      intro e he
      rw [(ih e he).1 (keys e he), (ih e he).2 (children e he)]
    rw [sortedCalls, toDocument, toDocumentEntries_eq_map, Document.calls, List.length_map,
      List.flatMap_map, List.flatMap_congr hentries]

/-! ## The tree that insertion makes -/

mutual

/-- The tree that is made by inserting the fields of every string-keyed mapping in turn. -/
def built : Value → Value
  | scalar s => scalar s
  | seq items => seq (builtItems items)
  | strMap fields => strMap (Fields.ofList (builtFields fields))
  | anyMap entries => anyMap (builtEntries entries)

/-- The items as they are made. -/
def builtItems : List Value → List Value
  | [] => []
  | item :: rest => item.built :: builtItems rest

/-- The fields as they are made, in the order of their insertion. -/
def builtFields : List (String × Value) → List (String × Value)
  | [] => []
  | (key, value) :: rest => (key, value.built) :: builtFields rest

/-- The entries as they are made. -/
def builtEntries : List (Value × Value) → List (Value × Value)
  | [] => []
  | (key, value) :: rest => (key.built, value.built) :: builtEntries rest

end

lemma builtItems_eq_map (items : List Value) : builtItems items = items.map built := by
  induction items with
  | nil => rfl
  | cons item rest ih => rw [builtItems, ih, List.map_cons]

lemma builtFields_eq_map (fields : List (String × Value)) :
    builtFields fields = fields.map fun f => (f.1, f.2.built) := by
  induction fields with
  | nil => rfl
  | cons f rest ih => rw [builtFields, ih, List.map_cons]

lemma builtEntries_eq_map (entries : List (Value × Value)) :
    builtEntries entries = entries.map fun e => (e.1.built, e.2.built) := by
  induction entries with
  | nil => rfl
  | cons e rest ih => rw [builtEntries, ih, List.map_cons]

/-- Values are made before or after the fields are collected. -/
lemma built_strMap (fields : List (String × Value)) :
    (strMap fields).built = strMap ((Fields.ofList fields).map fun f => (f.1, f.2.built)) := by
  rw [built, builtFields_eq_map, Fields.ofList_map]

/-- The tree that insertion makes has the same text. -/
theorem display_built (a : Value) : a.built.display = a.display := by
  induction a using byChildren with
  | scalar s => rw [built]
  | seq items ih =>
    rw [built, display, display, displayItems_eq_map, displayItems_eq_map, builtItems_eq_map,
      List.map_map]
    exact congrArg _ (List.map_congr_left ih)
  | strMap fields ih =>
    rw [built_strMap, display_strMap, display_strMap, Fields.ofList_map,
      Fields.ofList_of_sorted (Fields.sorted_ofList fields), List.map_map]
    refine congrArg _ (List.map_congr_left fun f hf => ?_)
    exact congrArg (f.1 ++ ": " ++ ·) (ih f (Fields.mem_ofList hf))
  | anyMap entries ih =>
    rw [built, display, display, displayEntries_eq_map, displayEntries_eq_map, builtEntries_eq_map,
      List.map_map]
    refine congrArg _ (List.map_congr_left fun e he => ?_)
    rw [Function.comp_apply, (ih e he).1, (ih e he).2]

/-- The tree that insertion makes has the same document. -/
theorem toDocument_built (a : Value) : a.built.toDocument = a.toDocument := by
  induction a using byChildren with
  | scalar s => rw [built]
  | seq items ih =>
    rw [built, toDocument, toDocument, toDocuments_eq_map, toDocuments_eq_map, builtItems_eq_map,
      List.map_map]
    exact congrArg _ (List.map_congr_left ih)
  | strMap fields ih =>
    rw [built_strMap, toDocument_strMap, toDocument_strMap, Fields.ofList_map,
      Fields.ofList_of_sorted (Fields.sorted_ofList fields), List.map_map]
    refine congrArg _ (List.map_congr_left fun f hf => ?_)
    exact congrArg (Document.text f.1, ·) (ih f (Fields.mem_ofList hf))
  | anyMap entries ih =>
    rw [built, toDocument, toDocument, toDocumentEntries_eq_map, toDocumentEntries_eq_map,
      builtEntries_eq_map, List.map_map]
    refine congrArg _ (List.map_congr_left fun e he => ?_)
    rw [Function.comp_apply, (ih e he).1, (ih e he).2]

/-! ## Any order -/

/-- Another order of the fields has the same keys. -/
theorem Permuted.distinctKeys {a b : Value} (h : a.DistinctKeys) (order : a.Permuted b) :
    b.DistinctKeys := by
  induction a using byChildren generalizing b with
  | scalar s => cases order; exact h
  | seq as ih =>
    cases h with | seq items_ok =>
    cases order with | seq items =>
    exact .seq (forall_mem_of_forall₂ items fun x hx _ => ih x hx (items_ok x hx))
  | strMap as ih =>
    cases h with | strMap distinct children =>
    cases order with | @strMap _ bs cs keys values order =>
    have hvalues : ∀ y ∈ bs.map Prod.snd, y.DistinctKeys := by
      refine forall_mem_of_forall₂ values fun x hx _ => ?_
      obtain ⟨f, hf, rfl⟩ := List.mem_map.1 hx
      exact ih f hf (children f hf)
    refine .strMap ((order.map _).nodup_iff.1 (keys ▸ distinct)) fun f hf => ?_
    exact hvalues f.2 (List.mem_map_of_mem (order.mem_iff.2 hf))
  | anyMap as ih =>
    cases h with | anyMap keys_ok children =>
    cases order with | @anyMap _ bs keys values =>
    have hkeys : ∀ y ∈ bs.map Prod.fst, y.DistinctKeys := by
      refine forall_mem_of_forall₂ keys fun x hx _ => ?_
      obtain ⟨e, he, rfl⟩ := List.mem_map.1 hx
      exact (ih e he).1 (keys_ok e he)
    have hvalues : ∀ y ∈ bs.map Prod.snd, y.DistinctKeys := by
      refine forall_mem_of_forall₂ values fun x hx _ => ?_
      obtain ⟨e, he, rfl⟩ := List.mem_map.1 hx
      exact (ih e he).2 (children e he)
    exact .anyMap (fun e he => hkeys e.1 (List.mem_map_of_mem he))
      fun e he => hvalues e.2 (List.mem_map_of_mem he)

/-- Inserting fields in any order makes the same tree. -/
theorem Permuted.built_eq {a b : Value} (h : a.DistinctKeys) (order : a.Permuted b) :
    a.built = b.built := by
  induction a using byChildren generalizing b with
  | scalar s => cases order; rfl
  | seq items ih =>
    cases h with | seq items_ok =>
    cases order with | seq items =>
    rw [built, built, builtItems_eq_map, builtItems_eq_map,
      map_eq_map_of_forall₂ items fun x hx _ => ih x hx (items_ok x hx)]
  | strMap as ih =>
    cases h with | strMap distinct children =>
    cases order with | @strMap _ bs cs keys values order =>
    have hvalues : (as.map Prod.snd).map built = (bs.map Prod.snd).map built := by
      refine map_eq_map_of_forall₂ values fun x hx _ => ?_
      obtain ⟨f, hf, rfl⟩ := List.mem_map.1 hx
      exact ih f hf (children f hf)
    have hfields : builtFields as = builtFields bs := by
      refine eq_of_keys_of_values ?_ ?_
      · simpa [builtFields_eq_map, Function.comp_def] using keys
      · simpa [builtFields_eq_map, Function.comp_def] using hvalues
    have hdistinct : ((builtFields bs).map Prod.fst).Nodup := by
      rw [← hfields, builtFields_eq_map, List.map_map]
      exact distinct
    have horder : (builtFields bs).Perm (builtFields cs) := by
      rw [builtFields_eq_map, builtFields_eq_map]
      exact order.map _
    rw [built, built, hfields, Fields.ofList_eq_of_perm hdistinct horder]
  | anyMap as ih =>
    cases h with | anyMap keys_ok children =>
    cases order with | @anyMap _ bs keys values =>
    have hkeys : (as.map Prod.fst).map built = (bs.map Prod.fst).map built := by
      refine map_eq_map_of_forall₂ keys fun x hx _ => ?_
      obtain ⟨e, he, rfl⟩ := List.mem_map.1 hx
      exact (ih e he).1 (keys_ok e he)
    have hvalues : (as.map Prod.snd).map built = (bs.map Prod.snd).map built := by
      refine map_eq_map_of_forall₂ values fun x hx _ => ?_
      obtain ⟨e, he, rfl⟩ := List.mem_map.1 hx
      exact (ih e he).2 (children e he)
    have hentries : builtEntries as = builtEntries bs := by
      refine eq_of_keys_of_values ?_ ?_
      · simpa [builtEntries_eq_map, Function.comp_def] using hkeys
      · simpa [builtEntries_eq_map, Function.comp_def] using hvalues
    rw [built, built, hentries]

/-- Insertion leaves every key once. -/
lemma distinctKeys_built (a : Value) : a.built.DistinctKeys := by
  induction a using byChildren with
  | scalar s =>
    rw [built]
    exact .scalar s
  | seq items ih =>
    rw [built, builtItems_eq_map]
    exact .seq (List.forall_mem_map.2 ih)
  | strMap fields ih =>
    rw [built, builtFields_eq_map]
    refine .strMap (Fields.sorted_ofList _).nodup_keys fun f hf => ?_
    obtain ⟨g, hg, rfl⟩ := List.mem_map.1 (Fields.mem_ofList hf)
    exact ih g hg
  | anyMap entries ih =>
    rw [built, builtEntries_eq_map]
    exact .anyMap (List.forall_mem_map.2 fun e he => (ih e he).1)
      (List.forall_mem_map.2 fun e he => (ih e he).2)

/-- Inserting everything once more changes nothing. -/
@[simp] lemma built_built (a : Value) : a.built.built = a.built := by
  induction a using byChildren with
  | scalar s => simp only [built]
  | seq items ih =>
    rw [built, built, builtItems_eq_map, builtItems_eq_map, List.map_map]
    exact congrArg _ (List.map_congr_left ih)
  | strMap fields ih =>
    rw [built_strMap, built_strMap, Fields.ofList_map,
      Fields.ofList_of_sorted (Fields.sorted_ofList fields), List.map_map]
    refine congrArg _ (List.map_congr_left fun f hf => ?_)
    rw [Function.comp_apply, ih f (Fields.mem_ofList hf)]
  | anyMap entries ih =>
    rw [built, built, builtEntries_eq_map, builtEntries_eq_map, List.map_map]
    refine congrArg _ (List.map_congr_left fun e he => ?_)
    rw [Function.comp_apply, (ih e he).1, (ih e he).2]

/-- Mappings differ in the order of fields only if their fields, once sorted, correspond. -/
lemma Permuted.of_sorted {as bs : List (String × Value)} (ha : (as.map Prod.fst).Nodup)
    (hb : (bs.map Prod.fst).Nodup)
    (h : List.Forall₂ (fun f g => f.1 = g.1 ∧ f.2.Permuted g.2)
      (Fields.ofList as) (Fields.ofList bs)) : (Value.strMap as).Permuted (Value.strMap bs) := by
  -- the values of the one in the order of the other
  obtain ⟨cs, hcs, horder⟩ := List.perm_comp_forall₂ (Fields.perm_ofList ha).symm h
  refine .strMap ?_ ?_ (horder.trans (Fields.perm_ofList hb))
  · exact map_eq_map_of_forall₂ hcs fun _ _ _ hfg => hfg.1
  · rw [List.forall₂_map_left_iff, List.forall₂_map_right_iff]
    exact hcs.imp fun _ _ hfg => hfg.2

/-- Trees differ in the order of fields only if insertion makes the same tree of both. -/
theorem permuted_iff {a b : Value} (ha : a.DistinctKeys) (hb : b.DistinctKeys) :
    a.Permuted b ↔ a.built = b.built := by
  refine ⟨Permuted.built_eq ha, fun h => ?_⟩
  induction a using byChildren generalizing b with
  | scalar s =>
    cases b with
    | scalar t =>
      obtain rfl : s = t := by simpa [built] using h
      exact .scalar s
    | seq _ | strMap _ | anyMap _ => simp [built] at h
  | seq as ih =>
    cases ha with | seq ha =>
    cases hb with
    | scalar _ | strMap _ _ | anyMap _ _ => simp [built] at h
    | @seq bs hb =>
      rw [built, built, builtItems_eq_map, builtItems_eq_map, seq.injEq] at h
      exact .seq (forall₂_of_map_eq h fun x hx y hy => ih x hx (ha x hx) (hb y hy))
  | strMap as ih =>
    cases ha with | strMap distinct ha =>
    cases hb with
    | scalar _ | seq _ | anyMap _ _ => simp [built] at h
    | @strMap bs distinct' hb =>
      rw [built_strMap, built_strMap, strMap.injEq] at h
      refine .of_sorted distinct distinct' (forall₂_of_map_eq h fun f hf g hg hfg => ?_)
      obtain ⟨hkey, hvalue⟩ := Prod.mk.inj hfg
      have hf := Fields.mem_ofList hf
      exact ⟨hkey, ih f hf (ha f hf) (hb g (Fields.mem_ofList hg)) hvalue⟩
  | anyMap as ih =>
    cases ha with | anyMap hkeys hvalues =>
    cases hb with
    | scalar _ | seq _ | strMap _ _ => simp [built] at h
    | @anyMap bs hkeys' hvalues' =>
      rw [built, built, builtEntries_eq_map, builtEntries_eq_map, anyMap.injEq] at h
      let R (d e : Value × Value) := d.1.Permuted e.1 ∧ d.2.Permuted e.2
      have hentries : List.Forall₂ R as bs := by
        refine forall₂_of_map_eq h fun d hd e he hde => ?_
        obtain ⟨hkey, hvalue⟩ := Prod.mk.inj hde
        exact ⟨(ih d hd).1 (hkeys d hd) (hkeys' e he) hkey,
          (ih d hd).2 (hvalues d hd) (hvalues' e he) hvalue⟩
      refine .anyMap ?_ ?_ <;> rw [List.forall₂_map_left_iff, List.forall₂_map_right_iff]
      · exact hentries.imp fun _ _ hde => hde.1
      · exact hentries.imp fun _ _ hde => hde.2

/-- The trees of this library have their fields in the order of insertion. -/
lemma WellFormed.distinctKeys {a : Value} (h : a.WellFormed) : a.DistinctKeys := by
  induction a using byChildren with
  | scalar s => exact .scalar s
  | seq items ih =>
    cases h with | seq items_ok =>
    exact .seq fun x hx => ih x hx (items_ok x hx)
  | strMap fields ih =>
    cases h with | strMap sorted children =>
    exact .strMap sorted.nodup_keys fun f hf => ih f hf (children f hf)
  | anyMap entries ih =>
    cases h with | anyMap _ keys children =>
    exact .anyMap (fun e he => (ih e he).1 (keys e he)) fun e he => (ih e he).2 (children e he)

/-- A tree whose fields are sorted is the tree that insertion makes of it. -/
theorem WellFormed.built_eq {a : Value} (h : a.WellFormed) : a.built = a := by
  induction a using byChildren with
  | scalar s => rfl
  | seq items ih =>
    cases h with | seq items_ok =>
    rw [built, builtItems_eq_map, List.map_congr_left fun x hx => ih x hx (items_ok x hx),
      List.map_id']
  | strMap fields ih =>
    cases h with | strMap sorted children =>
    have hfields : ∀ f ∈ fields, (f.1, f.2.built) = f := by
      intro f hf
      rw [ih f hf (children f hf)]
    rw [built_strMap, Fields.ofList_of_sorted sorted, List.map_congr_left hfields, List.map_id']
  | anyMap entries ih =>
    cases h with | anyMap _ keys children =>
    have hentries : ∀ e ∈ entries, (e.1.built, e.2.built) = e := by
      intro e he
      rw [(ih e he).1 (keys e he), (ih e he).2 (children e he)]
    rw [built, builtEntries_eq_map, List.map_congr_left hentries, List.map_id']

end Value

end PropertyTree
