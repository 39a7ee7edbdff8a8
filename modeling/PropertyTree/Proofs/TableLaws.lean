import Mathlib.Data.List.Find
import Mathlib.Data.List.Induction
import PropertyTree.Proofs.Equality

/-!
# The laws of tables

A table is a list of entries, and its operations are loops that compare keys.  What they come to is
said here through look-up (`Table.get?`) and through the list of keys.  Look-up under a key that is
not the one written to stays the same only because equality of keys is symmetric and transitive, so
the laws are about tables whose keys are well-formed and distinct (`Table.Keyed`), which every
operation keeps.

A key in which a number that is not a number occurs equals no key, itself included: it is never
found (`Keyed.get?_of_hasNaN`), and storing under it adds an entry each time.

## Main statements

* `Keyed.get?_put`, `keys_put`: storing a value, as look-up and keys see it.
* `Keyed.get?_removeText`, `Keyed.keys_removeText`: the same for dropping a key.
* `Keyed.inserted`, `Keyed.removed`: which entry an operation touches, and that it leaves the
  others.
* `Distinct.ofList_self`: collecting the entries of a table gives back the table.
-/

namespace PropertyTree

namespace Table

open Value (text EqualOn partialEquivalence_wellFormed)

/-- The keys of a table are well-formed, and no two of them are equal. -/
structure Keyed (table : Table) : Prop where
  wellFormed : ∀ e ∈ table, e.1.WellFormed
  distinct : table.Distinct

variable {table : Table} {key value other : Value} {name : String}

lemma keyed_nil : Keyed [] := ⟨by simp, List.Pairwise.nil⟩

/-! ## Storing -/

lemma put_of_absent (h : table.get? key = none) (value : Value) :
    table.put key value = table ++ [(key, value)] := by
  induction table with
  | nil => rfl
  | cons e rest ih =>
    obtain ⟨k, v⟩ := e
    obtain ⟨hk, hrest⟩ := List.forall_mem_cons.1 (get?_eq_none_iff.1 h)
    have hput := ih (get?_eq_none_iff.2 hrest)
    simp only [put] at hput ⊢
    simp [insert, hk, hput]

/-- A key that is found splits the table at its first entry, which takes the new value. -/
lemma exists_put {old : Value} (h : table.get? key = some old) (value : Value) :
    ∃ before k after, table = before ++ (k, old) :: after ∧ k.equal key = true ∧
      (∀ e ∈ before, e.1.equal key = false) ∧
      table.put key value = before ++ (k, value) :: after := by
  induction table with
  | nil => simp [get?] at h
  | cons e rest ih =>
    obtain ⟨k, v⟩ := e
    cases hk : k.equal key with
    | true =>
      obtain rfl : v = old := by simpa [get?, hk] using h
      exact ⟨[], k, rest, rfl, hk, by simp, by simp [put, insert, hk]⟩
    | false =>
      obtain ⟨before, k', after, rfl, hk', hbefore, hput⟩ := ih (by simpa [get?, hk] using h)
      refine ⟨(k, v) :: before, k', after, rfl, hk', by simpa [hk] using hbefore, ?_⟩
      simp only [put] at hput ⊢
      simp [insert, hk, hput]

lemma keys_put (table : Table) (key value : Value) :
    (table.put key value).map Prod.fst =
      table.map Prod.fst ++ if (table.get? key).isSome then [] else [key] := by
  cases hget : table.get? key with
  | none => simp [put_of_absent hget]
  | some old =>
    obtain ⟨before, k, after, rfl, -, -, hput⟩ := exists_put hget value
    simp [hput]

lemma get?_append (before after : Table) (key : Value) :
    (before ++ after).get? key = (before.get? key).or (after.get? key) := by
  simp only [get?, List.find?_append, Option.map_or]

lemma get?_cons (k v : Value) (rest : Table) (key : Value) :
    get? ((k, v) :: rest) key = if k.equal key then some v else rest.get? key := by
  cases hk : k.equal key <;> simp [get?, hk]

namespace Keyed

lemma put (h : Keyed table) (hkey : key.WellFormed) (value : Value) :
    Keyed (table.put key value) where
  wellFormed e he := by
    rcases (mem_put he).1 with hk | ⟨e', he', hk⟩
    · rw [hk]
      exact hkey
    · rw [← hk]
      exact h.wellFormed e' he'
  distinct := h.distinct.put key value

/-- Equal keys find the same. -/
lemma get?_congr (h : Keyed table) (hkey : key.WellFormed) (hother : other.WellFormed)
    (hequal : key.equal other = true) : table.get? key = table.get? other := by
  have htest : ∀ e ∈ table, e.1.equal key = e.1.equal other := fun e he =>
    Value.equal_congr_right hkey hother (h.wellFormed e he) hequal
  rw [get?, get?, List.find?_congr htest]

/-- Storing a value changes what is found under the equal keys, and nothing else. -/
theorem get?_put (h : Keyed table) (hkey : key.WellFormed) (hother : other.WellFormed)
    (value : Value) :
    (table.put key value).get? other =
      if key.equal other then some value else table.get? other := by
  cases hget : table.get? key with
  | none =>
    rw [put_of_absent hget, get?_append, get?_cons]
    split
    case isTrue hequal => rw [← h.get?_congr hkey hother hequal, hget, Option.none_or]
    case isFalse => rw [show get? [] other = none from rfl, Option.or_none]
  | some old =>
    obtain ⟨before, k, after, rfl, hk, hbefore, hput⟩ := exists_put hget value
    have hk_ok : k.WellFormed := h.wellFormed (k, old) (by simp)
    have hsame : k.equal other = key.equal other := Value.equal_congr_left hk_ok hkey hother hk
    rw [hput, get?_append, get?_append, get?_cons, get?_cons, hsame]
    split
    case isTrue hequal =>
      -- the entries before the one that took the value do not have the key
      have hbefore_ok : Keyed before :=
        ⟨fun e he => h.wellFormed e (List.mem_append_left _ he),
          h.distinct.sublist (List.sublist_append_left _ _)⟩
      rw [← hbefore_ok.get?_congr hkey hother hequal, get?_eq_none_iff.2 hbefore, Option.none_or]
    case isFalse => rfl

/-! ## Dropping -/

lemma removeText (h : Keyed table) (name : String) : Keyed (table.removeText name).2 := by
  rw [removeText_snd h.distinct]
  exact ⟨fun e he => h.wellFormed e (List.mem_of_mem_filter he), h.distinct.filter _⟩

/-- Dropping a string key leaves what is found under any other key. -/
theorem get?_removeText (h : Keyed table) (name : String) (other : Value) :
    (table.removeText name).2.get? other =
      if (text name).equal other then none else table.get? other := by
  rw [removeText_snd h.distinct]
  split
  case isTrue hequal =>
    obtain rfl : other = text name := (Value.text_equal_iff name other).1 hequal
    refine get?_eq_none_iff.2 fun e he => ?_
    have hne : e.1 ≠ text name := by simpa using (List.mem_filter.1 he).2
    exact Bool.eq_false_iff.2 fun hequal => hne ((Value.equal_text_iff e.1 name).1 hequal)
  case isFalse hne =>
    have htest : ∀ e ∈ table,
        decide (decide (e.1 ≠ text name) = true ∧ e.1.equal other = true) = e.1.equal other := by
      intro e _
      cases hfound : e.1.equal other with
      | false => simp
      | true =>
        have hkey : e.1 ≠ text name := fun heq => hne (heq ▸ hfound)
        simp [hkey]
    rw [get?, get?, List.find?_filter, List.find?_congr htest]

lemma keys_removeText (h : Keyed table) (name : String) :
    (table.removeText name).2.map Prod.fst =
      (table.map Prod.fst).filter fun k => !(text name).equal k := by
  have htest : ∀ k : Value, (!(text name).equal k) = decide (k ≠ text name) := by
    intro k
    rw [Bool.eq_iff_iff, Bool.not_eq_true', Bool.eq_false_iff, decide_eq_true_iff, ne_eq, ne_eq,
      Value.text_equal_iff]
  rw [removeText_snd h.distinct, List.filter_map]
  simp only [Function.comp_def, htest]

end Keyed

/-! ## Giving entries new values -/

/-- Gives the entries new values chosen by their places, where a value is chosen. -/
def assignAll (new : Nat → Option Value) (table : Table) : Table :=
  table.mapIdx fun i e => (e.1, (new i).getD e.2)

lemma assignAll_cons (new : Nat → Option Value) (e : Value × Value) (rest : Table) :
    assignAll new (e :: rest) =
      (e.1, (new 0).getD e.2) :: assignAll (fun i => new (i + 1)) rest := by
  simp [assignAll, List.mapIdx_cons]

@[simp] lemma keys_assignAll (new : Nat → Option Value) (table : Table) :
    (table.assignAll new).map Prod.fst = table.map Prod.fst := by
  induction table generalizing new with
  | nil => rfl
  | cons e rest ih => simp [assignAll_cons, ih]

lemma get?_assignAll (new : Nat → Option Value) (table : Table) (key : Value) :
    (table.assignAll new).get? key = (table.get? key).map fun old =>
      (new ((table.map Prod.fst).findIdx fun k => k.equal key)).getD old := by
  induction table generalizing new with
  | nil => rfl
  | cons e rest ih =>
    obtain ⟨k, v⟩ := e
    rw [assignAll_cons, get?_cons, get?_cons, ih, List.map_cons, List.findIdx_cons]
    cases k.equal key <;> simp

/-- What holds of the keys of a table holds if only values are changed. -/
lemma Keyed.of_keys {other : Table} (h : Keyed table)
    (hkeys : other.map Prod.fst = table.map Prod.fst) : Keyed other where
  wellFormed e he := by
    have hmem : e.1 ∈ table.map Prod.fst := hkeys ▸ List.mem_map_of_mem he
    obtain ⟨e', he', heq⟩ := List.mem_map.1 hmem
    rw [← heq]
    exact h.wellFormed e' he'
  distinct := h.distinct.of_keys hkeys

lemma assign_eq_put {old : Value} (h : table.get? key = some old) (value : Value) :
    table.assign (·.equal key) value = table.put key value := by
  induction table with
  | nil => simp [get?] at h
  | cons e rest ih =>
    obtain ⟨k, v⟩ := e
    rw [get?_cons] at h
    cases hk : k.equal key with
    | true => simp [assign, put, insert, hk]
    | false =>
      have hput := ih (by simpa [hk] using h)
      simp only [put] at hput ⊢
      simp [assign, insert, hk, hput]

/-- Assigning under a key is storing under it if it is there, and nothing otherwise. -/
lemma replace?_getD (table : Table) (key value : Value) :
    (table.replace? key value).getD table =
      if (table.get? key).isSome then table.put key value else table := by
  cases hget : table.get? key with
  | none => simp [replace?, hget]
  | some old => simp [replace?, hget, assign_eq_put hget]

lemma replaceText?_eq (table : Table) (name : String) (value : Value) :
    table.replaceText? name value = table.replace? (text name) value := by
  simp only [replaceText?, replace?, get?_text, Value.equal_text]

lemma ensureText_eq (table : Table) (name : String) (default : Value) :
    table.ensureText name default =
      if (table.get? (text name)).isSome then table else table.put (text name) default := by
  rw [ensureText, containsText, ← get?_text]
  split
  case isTrue => rfl
  case isFalse h =>
    rw [put_of_absent (by simpa using h)]

/-! ## Which entry an operation touches -/

/-- What an insertion does: the one entry with an equal key takes the value and keeps its place and
key, or a new entry comes last.  The result is the value that was there. -/
inductive Inserted (key value : Value) : Table → Option Value × Table → Prop
  | replaced {before after : Table} {k old : Value} (found : k.equal key = true)
      (others : ∀ e ∈ before ++ after, e.1.equal key = false) :
      Inserted key value (before ++ (k, old) :: after) (some old, before ++ (k, value) :: after)
  | added {table : Table} (absent : ∀ e ∈ table, e.1.equal key = false) :
      Inserted key value table (none, table ++ [(key, value)])

/-- What a removal does: the one entry with the key goes, or nothing does. -/
inductive Removed (name : String) : Table → Option Value × Table → Prop
  | found {before after : Table} {old : Value} (others : ∀ e ∈ before ++ after, e.1 ≠ text name) :
      Removed name (before ++ (text name, old) :: after) (some old, before ++ after)
  | missing {table : Table} (absent : ∀ e ∈ table, e.1 ≠ text name) :
      Removed name table (none, table)

namespace Keyed

/-- The other entries have keys that are not equal. -/
lemma others_of_found {before after : Table} {k old : Value}
    (h : Keyed (before ++ (k, old) :: after)) (hkey : key.WellFormed) (hk : k.equal key = true) :
    ∀ e ∈ before ++ after, e.1.equal key = false := by
  have hk_ok : k.WellFormed := h.wellFormed (k, old) (by simp)
  obtain ⟨-, hafter, hbefore⟩ := List.pairwise_append.1 h.distinct
  intro e he
  have he_ok : e.1.WellFormed := h.wellFormed e (by
    rcases List.mem_append.1 he with he | he <;> simp [he])
  rw [← Value.equal_congr_right hk_ok hkey he_ok hk]
  rcases List.mem_append.1 he with he | he
  · exact hbefore e he (k, old) List.mem_cons_self
  · have hne := (List.pairwise_cons.1 hafter).1 e he
    refine Bool.eq_false_iff.2 fun hequal => ?_
    rw [Value.equal_symm he_ok hk_ok hequal] at hne
    cases hne

theorem inserted (h : Keyed table) (hkey : key.WellFormed) (value : Value) :
    Inserted key value table (table.insert key value) := by
  have hinsert : table.insert key value = (table.get? key, table.put key value) := by
    rw [← insert_fst table key value]
    rfl
  rw [hinsert]
  cases hget : table.get? key with
  | none =>
    rw [put_of_absent hget]
    exact .added (get?_eq_none_iff.1 hget)
  | some old =>
    obtain ⟨before, k, after, rfl, hk, -, hput⟩ := exists_put hget value
    rw [hput]
    exact .replaced hk (h.others_of_found hkey hk)

theorem removed (h : Keyed table) (name : String) :
    Removed name table (table.removeText name) := by
  have hremove : table.removeText name =
      (table.getText? name, table.filter fun e => e.1 ≠ text name) := by
    rw [← removeText_fst, ← removeText_snd h.distinct]
  rw [hremove]
  cases hget : table.getText? name with
  | none =>
    have habsent := getText?_eq_none_iff.1 hget
    rw [List.filter_eq_self.2 fun e he => by simpa using habsent e he]
    exact .missing habsent
  | some old =>
    obtain ⟨before, after, rfl, -⟩ := exists_of_getText? hget
    have hself : (text name).equal (text name) = true := text_equal_self name
    have hothers : ∀ e ∈ before ++ after, e.1 ≠ text name := by
      rintro e he heq
      have hne := h.others_of_found (.scalar _) hself e he
      rw [heq, hself] at hne
      cases hne
    have hfilter : (before ++ (text name, old) :: after).filter (fun e => e.1 ≠ text name) =
        before ++ after := by
      rw [List.filter_append, List.filter_cons, if_neg (by simp), ← List.filter_append]
      exact List.filter_eq_self.2 fun e he => by simpa using hothers e he
    rw [hfilter]
    exact .found hothers

/-! ## Keys that equal nothing -/

/-- A key in which a number that is not a number occurs is not found. -/
theorem get?_of_hasNaN (h : Keyed table) (hkey : key.WellFormed) (hnan : key.HasNaN) :
    table.get? key = none := by
  refine get?_eq_none_iff.2 fun e he => Bool.eq_false_iff.2 fun hequal => ?_
  have hsymm := Value.equal_symm (h.wellFormed e he) hkey hequal
  have hself := Value.equal_trans hkey (h.wellFormed e he) hkey hsymm hequal
  exact (Value.equal_self_iff hkey).1 hself hnan

end Keyed

/-! ## Collecting -/

lemma ofList_append (before after : List (Value × Value)) :
    ofList (before ++ after) = after.foldl (fun table e => table.put e.1 e.2) (ofList before) := by
  rw [ofList, List.foldl_append, ← ofList]

/-- Collecting the entries of a table gives back the table. -/
theorem Distinct.ofList_self (h : Distinct table) : ofList table = table := by
  induction table using List.reverseRecOn with
  | nil => rfl
  | append_singleton before e ih =>
    obtain ⟨hbefore, -, hlast⟩ := List.pairwise_append.1 h
    have habsent : get? before e.1 = none :=
      get?_eq_none_iff.2 fun f hf => hlast f hf e List.mem_cons_self
    rw [ofList_append, ih hbefore, List.foldl_cons, List.foldl_nil, put_of_absent habsent]

end Table

end PropertyTree
