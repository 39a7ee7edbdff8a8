import Mathlib.Data.List.Basic
import PropertyTree.Proofs.Walks

/-!
# Well-formed trees

The two kinds of mapping are lists, and not every list is a mapping.  A tree is `WellFormed` if the
fields of every string-keyed mapping in it are sorted and no any-keyed mapping in it has two equal
keys.  Insertion compares keys before it adds one, so trees made of entries are well-formed, and the
operations keep them so.  Well-formedness is decidable.

What well-formedness buys is that a look-up is membership: the child under a key is the child of the
only entry with that key (`child?_eq_some_iff`), wherever the entry stands.

## Main statements

* `Value.byChildren`: induction over a tree, with the children of a node given by membership.
* `entries_setChild`, `entries_eraseChild`: what storing and dropping a child do to the entries.
* `WellFormed.ofEntries`: what is made of entries is well-formed, even if they repeat keys.
* `WellFormed.visit`: an operation at a path leaves a well-formed tree if its action leaves a
  well-formed container.
-/

namespace PropertyTree

namespace Value

/-! ## Induction by children -/

/-- What holds of a node whenever it holds of its children, keys included, holds of every tree. -/
@[elab_as_elim]
theorem byChildren {motive : Value → Prop} (scalar : ∀ s, motive (scalar s))
    (seq : ∀ items, (∀ x ∈ items, motive x) → motive (seq items))
    (strMap : ∀ fields, (∀ e ∈ fields, motive e.2) → motive (strMap fields))
    (anyMap : ∀ entries, (∀ e ∈ entries, motive e.1 ∧ motive e.2) → motive (anyMap entries))
    (node : Value) : motive node := by
  match node with
  | .scalar s => exact scalar s
  | .seq items => exact seq items fun x hx => byChildren scalar seq strMap anyMap x
  | .strMap fields =>
    refine strMap fields fun e he => ?_
    have := List.sizeOf_lt_of_mem he
    have : sizeOf e.2 < sizeOf e := by cases e; simp only [Prod.mk.sizeOf_spec]; omega
    exact byChildren scalar seq strMap anyMap e.2
  | .anyMap entries =>
    refine anyMap entries fun e he => ?_
    have := List.sizeOf_lt_of_mem he
    have : sizeOf e.1 < sizeOf e := by cases e; simp only [Prod.mk.sizeOf_spec]; omega
    have : sizeOf e.2 < sizeOf e := by cases e; simp only [Prod.mk.sizeOf_spec]; omega
    exact ⟨byChildren scalar seq strMap anyMap e.1, byChildren scalar seq strMap anyMap e.2⟩
termination_by sizeOf node

/-! ## Well-formedness -/

/-- Fields are sorted and keys differ, throughout a tree. -/
inductive WellFormed : Value → Prop
  | scalar (s : Scalar) : WellFormed (scalar s)
  | seq {items : List Value} (items_ok : ∀ x ∈ items, WellFormed x) : WellFormed (seq items)
  | strMap {fields : List (String × Value)} (sorted : Fields.Sorted fields)
      (children : ∀ e ∈ fields, WellFormed e.2) : WellFormed (strMap fields)
  | anyMap {entries : Table} (distinct : entries.Pairwise fun a b => a.1.equal b.1 = false)
      (keys : ∀ e ∈ entries, WellFormed e.1) (children : ∀ e ∈ entries, WellFormed e.2) :
      WellFormed (anyMap entries)

mutual

/-- Decides well-formedness. -/
def decWellFormed : (node : Value) → Decidable node.WellFormed
  | .scalar s => isTrue (.scalar s)
  | .seq items =>
    @decidable_of_iff _ (∀ x ∈ items, x.WellFormed) ⟨.seq, fun | .seq h => h⟩
      (decWellFormedItems items)
  | .strMap fields =>
    @decidable_of_iff _ (Fields.Sorted fields ∧ ∀ e ∈ fields, e.2.WellFormed)
      ⟨fun h => .strMap h.1 h.2, fun | .strMap sorted children => ⟨sorted, children⟩⟩
      (@instDecidableAnd _ _ (inferInstanceAs (Decidable (List.Pairwise _ _)))
        (decWellFormedFields fields))
  | .anyMap entries =>
    @decidable_of_iff _ ((entries.Pairwise fun a b => a.1.equal b.1 = false) ∧
        ∀ e ∈ entries, e.1.WellFormed ∧ e.2.WellFormed)
      ⟨fun h => .anyMap h.1 (fun e he => (h.2 e he).1) fun e he => (h.2 e he).2,
        fun | .anyMap distinct keys children => ⟨distinct, fun e he => ⟨keys e he, children e he⟩⟩⟩
      (@instDecidableAnd _ _ inferInstance (decWellFormedEntries entries))

/-- Decides well-formedness of items. -/
def decWellFormedItems : (items : List Value) → Decidable (∀ x ∈ items, x.WellFormed)
  | [] => isTrue (by simp)
  | x :: rest =>
    @decidable_of_iff _ (x.WellFormed ∧ ∀ y ∈ rest, y.WellFormed) List.forall_mem_cons.symm
      (@instDecidableAnd _ _ (decWellFormed x) (decWellFormedItems rest))

/-- Decides well-formedness of fields. -/
def decWellFormedFields :
    (fields : List (String × Value)) → Decidable (∀ e ∈ fields, e.2.WellFormed)
  | [] => isTrue (by simp)
  | (key, x) :: rest =>
    @decidable_of_iff _ (x.WellFormed ∧ ∀ e ∈ rest, e.2.WellFormed) (by simp)
      (@instDecidableAnd _ _ (decWellFormed x) (decWellFormedFields rest))

/-- Decides well-formedness of entries. -/
def decWellFormedEntries :
    (entries : Table) → Decidable (∀ e ∈ entries, e.1.WellFormed ∧ e.2.WellFormed)
  | [] => isTrue (by simp)
  | (key, x) :: rest =>
    @decidable_of_iff _
      ((key.WellFormed ∧ x.WellFormed) ∧ ∀ e ∈ rest, e.1.WellFormed ∧ e.2.WellFormed) (by simp)
      (@instDecidableAnd _ _ (@instDecidableAnd _ _ (decWellFormed key) (decWellFormed x))
        (decWellFormedEntries rest))

end

instance (node : Value) : Decidable node.WellFormed := decWellFormed node

/-- The entries of a mapping of either kind. -/
def entries? : Value → Option Table
  | strMap fields => some (fields.map fun e => (text e.1, e.2))
  | anyMap entries => some entries
  | _ => none

/-- A mapping without the entry under a string key. -/
def eraseChild : Value → String → Value
  | strMap fields, key => strMap (Fields.erase fields key)
  | anyMap entries, key => anyMap (Table.removeText entries key).2
  | node, _ => node

end Value

/-! ## Tables with distinct keys -/

namespace Table

open Value (text text?_eq_some_iff)

variable {table : Table} {key : String} {child : Value}

/-- No two keys are equal. -/
def Distinct (table : Table) : Prop :=
  table.Pairwise fun a b => a.1.equal b.1 = false

lemma text_equal_self (key : String) : (text key).equal (text key) = true :=
  (Value.text_equal_iff key (text key)).2 rfl

lemma Distinct.not_mem {k : Value} (h : Distinct ((k, child) :: table)) (hk : k = text key)
    (other : Value) : (text key, other) ∉ table := by
  intro hmem
  have hne := (List.pairwise_cons.1 h).1 _ hmem
  rw [hk, text_equal_self] at hne
  cases hne

/-- Whether keys differ is a matter of the keys alone. -/
lemma Distinct.of_keys {other : Table} (h : Distinct table)
    (hkeys : other.map Prod.fst = table.map Prod.fst) : Distinct other := by
  have hmap : (other.map Prod.fst).Pairwise fun a b => a.equal b = false := by
    rw [hkeys]
    exact List.pairwise_map.2 h
  exact List.pairwise_map.1 hmap

lemma getText?_eq_some_iff (h : Distinct table) :
    table.getText? key = some child ↔ (text key, child) ∈ table := by
  induction table with
  | nil => simp [getText?]
  | cons e rest ih =>
    obtain ⟨k, v⟩ := e
    rw [getText?_cons]
    split
    case isTrue hk =>
      have hnot := h.not_mem hk child
      simp [hk, hnot, eq_comm]
    case isFalse hk =>
      rw [ih (List.pairwise_cons.1 h).2, List.mem_cons, Prod.mk.injEq]
      simp [Ne.symm hk]

/-- Removing the first entry with a key removes all of them. -/
lemma removeText_snd (h : Distinct table) (key : String) :
    (table.removeText key).2 = table.filter fun e => e.1 ≠ text key := by
  induction table with
  | nil => rfl
  | cons e rest ih =>
    obtain ⟨k, v⟩ := e
    rw [removeText]
    by_cases hk : k = text key
    · have hrest : ∀ e ∈ rest, e.1 ≠ text key := by
        rintro ⟨k', v'⟩ hmem rfl
        exact h.not_mem hk v' hmem
      have hfilter : rest.filter (fun e => e.1 ≠ text key) = rest :=
        List.filter_eq_self.2 fun e he => by simpa using hrest e he
      rw [if_pos (by simp [hk, Value.text?]), List.filter_cons, if_neg (by simpa using hk), hfilter]
    · have hkey : (k.text? == some key) = false := by simpa [text?_eq_some_iff] using hk
      simp [hkey, hk, ih (List.pairwise_cons.1 h).2]

/-- What an insertion leaves in a table: the new key or old ones, the new value or old ones. -/
lemma mem_put {k : Value} {e : Value × Value} (h : e ∈ table.put k child) :
    (e.1 = k ∨ ∃ e' ∈ table, e'.1 = e.1) ∧ (e.2 = child ∨ e ∈ table) := by
  induction table with
  | nil =>
    obtain rfl : e = (k, child) := by simpa [put, insert] using h
    exact ⟨.inl rfl, .inl rfl⟩
  | cons first rest ih =>
    obtain ⟨k', v⟩ := first
    rw [put, insert] at h
    split at h
    case isTrue =>
      rcases List.mem_cons.1 h with rfl | h
      · exact ⟨.inr ⟨(k', v), List.mem_cons_self, rfl⟩, .inl rfl⟩
      · exact ⟨.inr ⟨e, List.mem_cons_of_mem _ h, rfl⟩, .inr (List.mem_cons_of_mem _ h)⟩
    case isFalse =>
      rcases List.mem_cons.1 h with rfl | h
      · exact ⟨.inr ⟨_, List.mem_cons_self, rfl⟩, .inr List.mem_cons_self⟩
      · obtain ⟨hkey, hvalue⟩ := ih h
        refine ⟨hkey.imp_right ?_, hvalue.imp_right (List.mem_cons_of_mem _)⟩
        rintro ⟨e', he', hkey⟩
        exact ⟨e', List.mem_cons_of_mem _ he', hkey⟩

/-- Insertion compares keys before it adds one. -/
lemma Distinct.put (h : Distinct table) (k child : Value) : Distinct (table.put k child) := by
  induction table with
  | nil => exact List.pairwise_singleton _ _
  | cons first rest ih =>
    obtain ⟨k', v⟩ := first
    obtain ⟨hfirst, hrest⟩ := List.pairwise_cons.1 h
    rw [Table.put, insert]
    split
    case isTrue => exact h.of_keys rfl
    case isFalse hne =>
      refine List.pairwise_cons.2 ⟨fun e he => ?_, ih hrest⟩
      rcases (mem_put he).1 with hkey | ⟨e', he', hkey⟩
      · rw [hkey]
        simpa using hne
      · rw [← hkey]
        exact hfirst e' he'

lemma Distinct.filter (h : Distinct table) (test : Value × Value → Bool) :
    Distinct (table.filter test) :=
  List.Pairwise.filter test h

/-- One entry given another value, up to order. -/
lemma Distinct.perm_replace {before after : Table} {old : Value}
    (h : Distinct (before ++ (text key, old) :: after)) (child : Value) :
    (before ++ (text key, child) :: after).Perm
      ((text key, child) ::
        (before ++ (text key, old) :: after).filter fun e => e.1 ≠ text key) := by
  obtain ⟨-, hafter, hcross⟩ := List.pairwise_append.1 h
  have hbefore : ∀ e ∈ before, e.1 ≠ text key := by
    intro e he hkey
    have hne := hcross e he (text key, old) List.mem_cons_self
    rw [hkey, text_equal_self] at hne
    cases hne
  have hafter : ∀ e ∈ after, e.1 ≠ text key := by
    rintro ⟨k, v⟩ he rfl
    exact Distinct.not_mem hafter rfl v he
  have hfilter : (before ++ (text key, old) :: after).filter (fun e => e.1 ≠ text key) =
      before ++ after := by
    rw [List.filter_append, List.filter_cons, if_neg (by simp)]
    rw [List.filter_eq_self.2 fun e he => by simpa using hbefore e he,
      List.filter_eq_self.2 fun e he => by simpa using hafter e he]
  rw [hfilter]
  exact List.perm_middle

end Table

/-! ## The entries of a mapping -/

lemma Fields.mem_insert {fields : List (String × Value)} {key : String} {child : Value}
    {e : String × Value} (h : e ∈ Fields.insert fields key child) :
    e = (key, child) ∨ e ∈ fields := by
  cases hkey : Fields.get? fields key with
  | none =>
    obtain ⟨before, after, rfl, hinsert⟩ := Fields.exists_insert_of_missing hkey child
    rw [hinsert] at h
    simpa [or_left_comm] using h
  | some old =>
    obtain ⟨before, after, rfl, hinsert⟩ := Fields.exists_insert_of_get? hkey child
    rw [hinsert] at h
    simp only [List.mem_append, List.mem_cons] at h ⊢
    tauto

lemma Fields.map_erase (fields : List (String × Value)) (key : String) :
    (Fields.erase fields key).map (fun e => (Value.text e.1, e.2)) =
      (Table.removeText (fields.map fun e => (Value.text e.1, e.2)) key).2 := by
  induction fields with
  | nil => rfl
  | cons f rest ih =>
    obtain ⟨k, v⟩ := f
    by_cases hk : k = key
    · simp [Fields.erase, Table.removeText, Value.text?, hk]
    · simp [Fields.erase, Table.removeText, Value.text?, hk, ih]

lemma Fields.get?_eq_getText? (fields : List (String × Value)) (key : String) :
    Fields.get? fields key = Table.getText? (fields.map fun e => (Value.text e.1, e.2)) key := by
  induction fields with
  | nil => rfl
  | cons f rest ih =>
    obtain ⟨k, v⟩ := f
    rw [List.map_cons, Table.getText?_cons, Fields.get?, ih]
    simp

namespace Value

variable {node child container new : Value} {entries : Table} {key : String}

lemma isMapping_of_entries (h : node.entries? = some entries) : node.isMapping = true := by
  cases node <;> simp_all [entries?, isMapping]

lemma exists_entries (h : node.isMapping = true) : ∃ entries, node.entries? = some entries := by
  cases node <;> simp_all [entries?, isMapping]

lemma child?_eq_getText? (h : node.entries? = some entries) (key : String) :
    node.child? key = entries.getText? key := by
  cases node with
  | scalar _ | seq _ => cases h
  | strMap fields =>
    obtain rfl := Option.some.inj h
    exact Fields.get?_eq_getText? fields key
  | anyMap entries =>
    obtain rfl := Option.some.inj h
    rfl

lemma child?_of_getD (h : (node.child? key).getD null = child) (hopen : child.isContainer = true) :
    node.child? key = some child := by
  cases hchild : node.child? key with
  | some _ => rw [← h, hchild, Option.getD_some]
  | none =>
    obtain rfl : null = child := by rw [← h, hchild, Option.getD_none]
    cases hopen

/-- Removing at the last segment is dropping a key. -/
lemma remove_mapping (h : node.isMapping = true) (segment path : String) :
    remove segment path node = (.ok (node.child? segment), node.eraseChild segment) := by
  cases node with
  | scalar _ | seq _ => cases h
  | strMap fields => rfl
  | anyMap entries => simp [remove, Value.child?, eraseChild, Table.removeText_fst]

lemma remove_of_not_mapping (h : node.isMapping = false) (segment path : String) :
    remove segment path node = (.error (refused .remove path node), node) := by
  cases node <;> simp_all [isMapping, remove]

lemma WellFormed.distinct (hnode : node.WellFormed) (h : node.entries? = some entries) :
    entries.Distinct := by
  cases hnode with
  | scalar _ | seq _ => cases h
  | anyMap distinct =>
    obtain rfl := Option.some.inj h
    exact distinct
  | @strMap fields sorted =>
    obtain rfl := Option.some.inj h
    refine List.pairwise_map.2 ((List.pairwise_map.1 sorted).imp fun {a b} hab => ?_)
    rw [Bool.eq_false_iff, ne_eq, equal_text_iff, scalar.injEq, Scalar.text.injEq]
    intro heq
    exact String.lt_irrefl b.1 (heq ▸ hab)

/-- In a well-formed mapping, the child under a key is the child of the entry with that key. -/
theorem child?_eq_some_iff (hnode : node.WellFormed) (h : node.entries? = some entries) :
    node.child? key = some child ↔ (text key, child) ∈ entries := by
  rw [child?_eq_getText? h, Table.getText?_eq_some_iff (hnode.distinct h)]

/-- Dropping a child keeps all other entries, in their order. -/
theorem entries_eraseChild (hnode : node.WellFormed) (h : node.entries? = some entries)
    (key : String) :
    (node.eraseChild key).entries? = some (entries.filter fun e => e.1 ≠ text key) := by
  have hfilter := Table.removeText_snd (hnode.distinct h) key
  cases node with
  | scalar _ | seq _ => cases h
  | strMap fields =>
    obtain rfl := Option.some.inj h
    rw [eraseChild, entries?, Fields.map_erase, hfilter]
  | anyMap entries =>
    obtain rfl := Option.some.inj h
    rw [eraseChild, entries?, hfilter]

/-- A slot is refilled or added somewhere among the entries. -/
lemma Refilled.exists_entries (hnew : Refilled node (.name key) child new)
    (h : node.entries? = some entries) :
    ∃ before after, new.entries? = some (before ++ (text key, child) :: after) ∧
      ((∃ old, entries = before ++ (text key, old) :: after) ∨
        entries = before ++ after ∧ ∀ e ∈ entries, e.1 ≠ text key) := by
  cases hnew with
  | field before after _ x y =>
    obtain rfl := Option.some.inj h
    exact ⟨before.map fun e => (text e.1, e.2), after.map fun e => (text e.1, e.2),
      by simp [entries?], .inl ⟨x, by simp⟩⟩
  | newField before after _ y missing =>
    obtain rfl := Option.some.inj h
    refine ⟨before.map fun e => (text e.1, e.2), after.map fun e => (text e.1, e.2),
      by simp [entries?], .inr ⟨by simp, ?_⟩⟩
    intro e he
    obtain ⟨f, hf, rfl⟩ := List.mem_map.1 he
    simpa using missing f hf
  | entry before after _ x y =>
    obtain rfl := Option.some.inj h
    exact ⟨before, after, rfl, .inl ⟨x, rfl⟩⟩
  | newEntry entries' _ y missing =>
    obtain rfl := Option.some.inj h
    exact ⟨entries', [], rfl, .inr ⟨by simp, missing⟩⟩

/-- Storing a child keeps all other entries, up to order. -/
theorem entries_setChild (hnode : node.WellFormed) (h : node.entries? = some entries)
    (key : String) (child : Value) :
    ∃ entries', (node.setChild key child).entries? = some entries' ∧
      entries'.Perm ((text key, child) :: entries.filter fun e => e.1 ≠ text key) := by
  have hdistinct := hnode.distinct h
  obtain ⟨before, after, hnew, hold⟩ :=
    (refilled_setChild (isMapping_of_entries h) key child).exists_entries h
  refine ⟨_, hnew, ?_⟩
  rcases hold with ⟨old, rfl⟩ | ⟨rfl, hmissing⟩
  · exact hdistinct.perm_replace child
  · rw [List.filter_eq_self.2 fun e he => by simpa using hmissing e he]
    exact List.perm_middle

/-! ## Operations keep trees well-formed -/

lemma WellFormed.of_mem_entries (hnode : node.WellFormed) (h : node.entries? = some entries) :
    ∀ e ∈ entries, e.2.WellFormed := by
  intro e he
  cases hnode with
  | scalar _ | seq _ => cases h
  | anyMap _ _ children =>
    obtain rfl := Option.some.inj h
    exact children e he
  | strMap _ children =>
    obtain rfl := Option.some.inj h
    obtain ⟨f, hf, rfl⟩ := List.mem_map.1 he
    exact children f hf

lemma WellFormed.child? (hnode : node.WellFormed) (h : node.child? key = some child) :
    child.WellFormed := by
  obtain ⟨entries, hentries⟩ := exists_entries (isMapping_of_child? h)
  exact hnode.of_mem_entries hentries _ ((child?_eq_some_iff hnode hentries).1 h)

lemma wellFormed_empty : (anyMap []).WellFormed :=
  .anyMap .nil (by simp) (by simp)

lemma WellFormed.put {k : Value} (h : (Value.anyMap entries).WellFormed) (hk : k.WellFormed)
    (hchild : child.WellFormed) : (Value.anyMap (entries.put k child)).WellFormed := by
  cases h with
  | anyMap distinct keys children =>
    refine .anyMap (Table.Distinct.put distinct k child) (fun e he => ?_) fun e he => ?_
    · rcases (Table.mem_put he).1 with hkey | ⟨e', he', hkey⟩
      · rw [hkey]
        exact hk
      · rw [← hkey]
        exact keys e' he'
    · rcases (Table.mem_put he).2 with hvalue | he
      · rw [hvalue]
        exact hchild
      · exact children e he

theorem WellFormed.setChild (hnode : node.WellFormed) (hchild : child.WellFormed) (key : String) :
    (node.setChild key child).WellFormed := by
  cases hnode with
  | scalar s => exact .scalar s
  | seq items_ok => exact .seq items_ok
  | strMap sorted children =>
    refine .strMap (Fields.sorted_insert sorted key child) fun e he => ?_
    rcases Fields.mem_insert he with rfl | he
    · exact hchild
    · exact children e he
  | anyMap distinct keys children =>
    rw [Value.setChild, ← Table.put_text]
    exact (WellFormed.anyMap distinct keys children).put (.scalar _) hchild

theorem WellFormed.eraseChild (hnode : node.WellFormed) (key : String) :
    (node.eraseChild key).WellFormed := by
  cases hnode with
  | scalar s => exact .scalar s
  | seq items_ok => exact .seq items_ok
  | strMap sorted children =>
    exact .strMap (Fields.sorted_erase sorted key) fun e he =>
      children e (Fields.mem_of_mem_erase he)
  | anyMap distinct keys children =>
    have hentries := Table.removeText_snd distinct key
    rw [Value.eraseChild, hentries]
    exact .anyMap (Table.Distinct.filter distinct _)
      (fun e he => keys e (List.mem_of_mem_filter he))
      fun e he => children e (List.mem_of_mem_filter he)

lemma WellFormed.items {items : List Value} (h : (Value.seq items).WellFormed) :
    ∀ x ∈ items, x.WellFormed := by
  cases h with
  | seq items_ok => exact items_ok

lemma WellFormed.set {items : List Value} (h : (Value.seq items).WellFormed) (i : Nat)
    (hchild : child.WellFormed) : (Value.seq (items.set i child)).WellFormed := by
  refine .seq fun x hx => ?_
  rcases List.mem_or_eq_of_mem_set hx with hx | rfl
  · exact h.items x hx
  · exact hchild

lemma WellFormed.ofList_table {pairs : List (Value × Value)}
    (h : ∀ e ∈ pairs, e.1.WellFormed ∧ e.2.WellFormed) :
    (Value.anyMap (Table.ofList pairs)).WellFormed := by
  have hfold : ∀ table : Table, (Value.anyMap table).WellFormed →
      (Value.anyMap (pairs.foldl (fun table e => Table.put table e.1 e.2) table)).WellFormed := by
    intro table htable
    induction pairs generalizing table with
    | nil => exact htable
    | cons e rest ih =>
      obtain ⟨⟨hkey, hvalue⟩, hrest⟩ := List.forall_mem_cons.1 h
      exact ih hrest _ (htable.put hkey hvalue)
  exact hfold [] wellFormed_empty

lemma WellFormed.ofList_fields {fields : List (String × Value)}
    (h : ∀ e ∈ fields, e.2.WellFormed) : (Value.strMap (Fields.ofList fields)).WellFormed := by
  have hfold : ∀ start : List (String × Value), (Value.strMap start).WellFormed →
      (Value.strMap
        (fields.foldl (fun fields e => Fields.insert fields e.1 e.2) start)).WellFormed := by
    intro start hstart
    induction fields generalizing start with
    | nil => exact hstart
    | cons e rest ih =>
      obtain ⟨hvalue, hrest⟩ := List.forall_mem_cons.1 h
      exact ih hrest _ (hstart.setChild hvalue e.1)
  exact hfold [] (.strMap .nil (by simp))

lemma exists_of_mem_mapM {α β : Type} {f : α → Option β} {as : List α} {bs : List β} {b : β}
    (h : as.mapM f = some bs) (hb : b ∈ bs) : ∃ a ∈ as, f a = some b := by
  induction as generalizing bs with
  | nil =>
    obtain rfl : [] = bs := by simpa using h
    cases hb
  | cons a rest ih =>
    rw [List.mapM_cons] at h
    obtain ⟨b', hb', h⟩ := Option.bind_eq_some_iff.1 h
    obtain ⟨bs', hbs', h⟩ := Option.bind_eq_some_iff.1 h
    obtain rfl : b' :: bs' = bs := by simpa using h
    rcases List.mem_cons.1 hb with rfl | hb
    · exact ⟨a, List.mem_cons_self, hb'⟩
    · obtain ⟨a', ha', hfa'⟩ := ih hbs' hb
      exact ⟨a', List.mem_cons_of_mem a ha', hfa'⟩

/-- What is read from entries is well-formed, whatever keys are repeated. -/
theorem WellFormed.ofEntries {pairs : List (Value × Value)}
    (h : ∀ e ∈ pairs, e.1.WellFormed ∧ e.2.WellFormed) : (Value.ofEntries pairs).WellFormed := by
  unfold Value.ofEntries
  split
  case h_2 => exact ofList_table h
  case h_1 fields hfields =>
    refine ofList_fields fun f hf => ?_
    obtain ⟨e, he, hfield⟩ := exists_of_mem_mapM hfields hf
    obtain ⟨key, -, rfl⟩ := Option.map_eq_some_iff.1 hfield
    exact (h e he).2

/-! ## Walks keep trees well-formed -/

variable {α : Type} {vivify : Bool} {segments : List String} {address : Address}

/-- A walk arrives at a well-formed container, and writing another one there keeps the tree
well-formed. -/
lemma Walks.wellFormed (h : Walks vivify node segments address container)
    (hnode : node.WellFormed) :
    container.WellFormed ∧ ∀ new, new.WellFormed → (node.put address new).WellFormed := by
  induction h with
  | here node => exact ⟨hnode, fun new hnew => by rwa [put_nil]⟩
  | item form found _ ih =>
    have hitem := (firstAnswer_answers found).1
    obtain ⟨hcontainer, hput⟩ := ih (hnode.items _ (List.mem_of_getElem? hitem))
    refine ⟨hcontainer, fun new hnew => ?_⟩
    rw [put_index hitem]
    exact hnode.set _ (hput new hnew)
  | @child _ _ _ segment _ _ mapping found isOpen _ ih =>
    obtain ⟨hcontainer, hput⟩ := ih (hnode.child? found)
    refine ⟨hcontainer, fun new hnew => ?_⟩
    rw [put_name, slot_of_isContainer found isOpen]
    exact hnode.setChild (hput new hnew) segment
  | @made _ _ segment _ _ _ mapping absent _ ih =>
    obtain ⟨hcontainer, hput⟩ := ih wellFormed_empty
    refine ⟨hcontainer, fun new hnew => ?_⟩
    rw [put_name, slot, opened_of_absent absent]
    exact hnode.setChild (hput new hnew) segment

theorem WellFormed.follow (hnode : node.WellFormed) {act : Action α}
    (hact : ∀ container, container.WellFormed → (act container).2.WellFormed) (path : String)
    (vivify : Bool) (segments : List String) :
    (follow path vivify act segments node).node.WellFormed := by
  rcases walks_or_stuck path vivify segments node with ⟨address, container, h⟩ | ⟨failure, h⟩
  · obtain ⟨hcontainer, hput⟩ := h.wellFormed hnode
    rw [(follow_of_walks h path act).2]
    exact hput _ (hact container hcontainer)
  · rw [(h act).2]
    exact hnode

lemma WellFormed.walkRoot (hnode : node.WellFormed) (vivify : Bool) :
    (walkRoot vivify node).WellFormed := by
  rcases walkRoot_eq vivify node with h | ⟨-, -, h⟩
  · rw [h]
    exact hnode
  · rw [h]
    exact .strMap List.Pairwise.nil (by simp)

/-- A tree stays well-formed if the action at the end of the path leaves a well-formed container. -/
theorem WellFormed.visit (hnode : node.WellFormed) {act : Action α}
    (hact : ∀ container, container.WellFormed → (act container).2.WellFormed) (path : Path)
    (vivify : Bool) : (node.visit path vivify act).node.WellFormed :=
  (hnode.walkRoot vivify).follow hact path.text vivify path.parents

end Value

end PropertyTree
