import PropertyTree.Proofs.ReadBack

/-!
# Decoded entries: one meaning, two kinds of mapping

Entries read from a document become a string-keyed mapping or an any-keyed one, as their keys have
it (`Value.ofEntries`).  The first overwrites fields; the second looks for an equal key and replaces
its value or adds an entry.  This module says what both come to, as functions of the list of entries
alone:

* the value under a string is the last one listed under that string, in either kind;
* an any-keyed mapping has the first occurrences of the keys (`Table.firsts`), in the order of the
  list, each with the last value listed under an equal key (`Table.finalValue`).

Keys that hold a number that is not a number equal nothing.  Each of their entries is a first
occurrence and keeps its own value.

## Main statements

* `Table.get?_ofList`, `Table.ofList_eq_firsts`: a collected table by its look-ups and as a list.
* `Value.child?_ofEntries`: the children under strings, which do not depend on the kind.
* `Value.collects_ofEntries`: the whole of it, and what an entry with another key changes.
-/

namespace PropertyTree

namespace Table

open Value (text)

/-! ## First keys and last values -/

/-- The value of the last entry whose key passes a test. -/
def lastWith? (test : Value → Bool) (entries : List (Value × Value)) : Option Value :=
  (entries.reverse.find? fun e => test e.1).map Prod.snd

/-- The entry at a place of a list, if no entry before it has an equal key. -/
def firstAt? (entries : List (Value × Value)) (i : Nat) : Option (Value × Value) :=
  entries[i]?.filter fun e => !(entries.take i).any fun earlier => earlier.1.equal e.1

/-- The first occurrences of the keys, in the order of the list. -/
def firsts (entries : List (Value × Value)) : List (Value × Value) :=
  (List.range entries.length).filterMap (firstAt? entries)

/-- The value that the last entry with an equal key has.  An entry whose key equals no key keeps its
own. -/
def finalValue (entries : List (Value × Value)) (e : Value × Value) : Value :=
  (lastWith? (·.equal e.1) entries).getD e.2

variable {entries : List (Value × Value)} {key : Value}

lemma lastWith?_concat (test : Value → Bool) (entries : List (Value × Value)) (e : Value × Value) :
    lastWith? test (entries ++ [e]) = if test e.1 then some e.2 else lastWith? test entries := by
  rw [lastWith?, List.reverse_append, List.reverse_singleton, List.singleton_append,
    List.find?_cons]
  cases htest : test e.1 <;> simp [lastWith?]

lemma isSome_lastWith? (test : Value → Bool) (entries : List (Value × Value)) :
    (lastWith? test entries).isSome = entries.any fun e => test e.1 := by
  rw [lastWith?, Option.isSome_map, List.isSome_find?, List.any_reverse]

lemma finalValue_concat (entries : List (Value × Value)) (last e : Value × Value) :
    finalValue (entries ++ [last]) e =
      if last.1.equal e.1 then last.2 else finalValue entries e := by
  rw [finalValue, lastWith?_concat]
  split <;> rfl

lemma finalValue_of_absent {e : Value × Value} (h : entries.any (·.1.equal e.1) = false) :
    finalValue entries e = e.2 := by
  have hlast : lastWith? (·.equal e.1) entries = none := by
    rw [← Option.not_isSome_iff_eq_none, isSome_lastWith?, h]
    exact Bool.false_ne_true
  rw [finalValue, hlast, Option.getD_none]

lemma firstAt?_of_absent {i : Nat} {e : Value × Value} (hi : entries[i]? = some e)
    (h : entries.any (·.1.equal e.1) = false) : firstAt? entries i = some e := by
  have hearlier : (entries.take i).any (fun earlier => earlier.1.equal e.1) = false :=
    List.any_eq_false.2 fun f hf => List.any_eq_false.1 h f (List.mem_of_mem_take hf)
  simp [firstAt?, hi, Option.filter, hearlier]

lemma firsts_concat (entries : List (Value × Value)) (e : Value × Value) :
    firsts (entries ++ [e]) =
      firsts entries ++ if entries.any (·.1.equal e.1) then [] else [e] := by
  have hbefore : ∀ i ∈ List.range entries.length,
      firstAt? (entries ++ [e]) i = firstAt? entries i := by
    intro i hi
    have hi : i < entries.length := List.mem_range.1 hi
    rw [firstAt?, firstAt?, List.getElem?_append_left hi,
      List.take_append_of_le_length (by omega)]
  have hlast : firstAt? (entries ++ [e]) entries.length =
      if entries.any (·.1.equal e.1) then none else some e := by
    cases hany : entries.any (·.1.equal e.1) <;> simp [firstAt?, Option.filter, hany]
  rw [firsts, List.length_append, List.length_singleton, List.range_succ, List.filterMap_append,
    List.filterMap_congr hbefore, ← firsts, List.filterMap_cons, hlast]
  cases entries.any (·.1.equal e.1) <;> rfl

lemma mem_of_mem_firsts {e : Value × Value} (h : e ∈ firsts entries) : e ∈ entries := by
  obtain ⟨i, -, hi⟩ := List.mem_filterMap.1 h
  exact List.mem_of_getElem? (Option.filter_eq_some_iff.1 hi).1

/-! ## The collected table -/

lemma ofList_concat (entries : List (Value × Value)) (e : Value × Value) :
    ofList (entries ++ [e]) = (ofList entries).put e.1 e.2 :=
  ofList_append entries [e]

lemma Keyed.ofList (h : ∀ e ∈ entries, e.1.WellFormed) : Keyed (ofList entries) := by
  induction entries using List.reverseRecOn with
  | nil => exact keyed_nil
  | append_singleton entries e ih =>
    obtain ⟨hentries, hlast⟩ := List.forall_mem_append.1 h
    rw [ofList_concat]
    exact (ih hentries).put (hlast e List.mem_cons_self) e.2

/-- What is found under a key is the last value listed under an equal key. -/
theorem get?_ofList (h : ∀ e ∈ entries, e.1.WellFormed) (hkey : key.WellFormed) :
    (ofList entries).get? key = lastWith? (·.equal key) entries := by
  induction entries using List.reverseRecOn with
  | nil => rfl
  | append_singleton entries e ih =>
    obtain ⟨hentries, hlast⟩ := List.forall_mem_append.1 h
    rw [ofList_concat, (Keyed.ofList hentries).get?_put (hlast e List.mem_cons_self) hkey,
      lastWith?_concat, ih hentries]

/-- Storing gives the value to the entries with an equal key, of which there is one at most, and
adds an entry if there is none. -/
lemma Keyed.put_eq_map {table : Table} (h : Keyed table) (hkey : key.WellFormed) (value : Value) :
    table.put key value =
      (table.map fun e => (e.1, if e.1.equal key then value else e.2)) ++
        if (table.get? key).isSome then [] else [(key, value)] := by
  have hkept : ∀ others : Table, (∀ e ∈ others, e.1.equal key = false) →
      (others.map fun e => (e.1, if e.1.equal key then value else e.2)) = others := by
    intro others hothers
    refine (List.map_congr_left fun e he => ?_).trans (List.map_id others)
    rw [hothers e he]
    rfl
  cases hget : table.get? key with
  | none => simp [put_of_absent hget, hkept table (get?_eq_none_iff.1 hget)]
  | some old =>
    obtain ⟨before, k, after, rfl, hk, hbefore, hput⟩ := exists_put hget value
    have hafter : ∀ e ∈ after, e.1.equal key = false := fun e he =>
      h.others_of_found hkey hk e (List.mem_append_right _ he)
    rw [hput, List.map_append, List.map_cons, hkept before hbefore, hkept after hafter]
    simp [hk]

/-- A collected table has the first occurrences of the keys, each with its final value. -/
theorem ofList_eq_firsts (h : ∀ e ∈ entries, e.1.WellFormed) :
    ofList entries = (firsts entries).map fun e => (e.1, finalValue entries e) := by
  induction entries using List.reverseRecOn with
  | nil => rfl
  | append_singleton entries e ih =>
    obtain ⟨hentries, hlast⟩ := List.forall_mem_append.1 h
    have he : e.1.WellFormed := hlast e List.mem_cons_self
    -- keys that were there before: the new entry is the last with an equal key, or changes nothing
    have hold : ∀ f ∈ firsts entries,
        (f.1, if f.1.equal e.1 then e.2 else finalValue entries f) =
          (f.1, finalValue (entries ++ [e]) f) := by
      intro f hf
      have hf_ok : f.1.WellFormed := hentries f (mem_of_mem_firsts hf)
      have hsymm : f.1.equal e.1 = e.1.equal f.1 := Bool.eq_iff_iff.2
        ⟨Value.equal_symm hf_ok he, Value.equal_symm he hf_ok⟩
      rw [finalValue_concat, hsymm]
    have hfound : ((ofList entries).get? e.1).isSome = entries.any (·.1.equal e.1) := by
      rw [get?_ofList hentries he, isSome_lastWith?]
    -- a key that is new: no entry before has an equal one, so its value is its own
    have hnew : ¬ entries.any (·.1.equal e.1) = true → finalValue (entries ++ [e]) e = e.2 := by
      intro hany
      rw [finalValue_concat, finalValue_of_absent (Bool.eq_false_iff.2 hany), ite_self]
    rw [ofList_concat, (Keyed.ofList hentries).put_eq_map he, ih hentries, List.map_map,
      firsts_concat, List.map_append, ← ih hentries, hfound]
    congr 1
    · exact List.map_congr_left hold
    · split
      case isTrue => rfl
      case isFalse hany => rw [List.map_singleton, hnew hany]

/-- No key of the list equals a key that holds a number that is not a number. -/
lemma any_equal_of_hasNaN (h : ∀ e ∈ entries, e.1.WellFormed) (hkey : key.WellFormed)
    (hnan : key.HasNaN) : entries.any (·.1.equal key) = false := by
  rw [← isSome_lastWith? (·.equal key), ← get?_ofList h hkey,
    (Keyed.ofList h).get?_of_hasNaN hkey hnan, Option.isSome_none]

end Table

namespace Value

open Table (lastWith? firstAt? firsts finalValue)

variable {entries : List (Value × Value)}

/-! ## Either kind of mapping -/

/-- The two ways in which entries become a mapping. -/
lemma ofEntries_cases (entries : List (Value × Value)) :
    (∃ fields : List (String × Value), entries = fields.map (fun f => (text f.1, f.2)) ∧
        ofEntries entries = strMap (Fields.ofList fields)) ∨
      ((∃ e ∈ entries, e.1.text? = none) ∧ ofEntries entries = anyMap (Table.ofList entries)) := by
  cases htexts : textFields? entries with
  | some fields =>
    exact .inl ⟨fields, eq_of_textFields? htexts, ofEntries_of_textFields? htexts⟩
  | none =>
    obtain ⟨k, hk, hnone⟩ := textFields?_eq_none_iff.1 htexts
    obtain ⟨e, he, rfl⟩ := List.mem_map.1 hk
    exact .inr ⟨⟨e, he, hnone⟩, by rw [ofEntries_eq, htexts]⟩

lemma eq_ofList_of_ofEntries {table : Table} (h : ofEntries entries = anyMap table) :
    table = Table.ofList entries := by
  obtain ⟨fields, -, heq⟩ | ⟨-, heq⟩ := ofEntries_cases entries
  · cases heq.symm.trans h
  · exact (anyMap.inj (heq.symm.trans h)).symm

/-- Under a string there is the last value listed under it, whichever kind the mapping has. -/
theorem child?_ofEntries (h : ∀ e ∈ entries, e.1.WellFormed) (name : String) :
    (ofEntries entries).child? name = lastWith? (fun key => key = text name) entries := by
  obtain ⟨fields, rfl, heq⟩ | ⟨-, heq⟩ := ofEntries_cases entries
  · have htest : ∀ f : String × Value, decide (text f.1 = text name) = (f.1 == name) := by
      intro f
      rw [Bool.eq_iff_iff]
      simp
    rw [heq, child?, Fields.get?_ofList, lastWith?, ← List.map_reverse, List.find?_map,
      Option.map_map]
    simp only [Function.comp_def, htest]
  · have htest : ∀ key : Value, key.equal (text name) = decide (key = text name) := by
      intro key
      rw [Bool.eq_iff_iff, equal_text_iff, decide_eq_true_iff]
    rw [heq, child?, ← Table.get?_text, Table.get?_ofList h (.scalar _)]
    simp only [htest]

/-- What a mapping made of entries is, by the list of entries alone. -/
structure Collects (entries : List (Value × Value)) (node : Value) : Prop where
  /-- Under a string there is the last value listed under it, and nothing if none is listed. -/
  child : ∀ name : String,
    node.child? name = lastWith? (fun key => key = text name) entries
  /-- The mapping is string-keyed exactly if all the keys are strings. -/
  stringKeyed : (∃ fields, node = strMap fields) ↔ ∀ e ∈ entries, ∃ name, e.1 = text name
  /-- The mapping is any-keyed exactly if some key is no string. -/
  anyKeyed : (∃ table, node = anyMap table) ↔ ∃ e ∈ entries, ∀ name, e.1 ≠ text name
  /-- An any-keyed mapping has the first occurrences of the keys, in the order of the list, each
  with the value of the last entry with an equal key. -/
  table : ∀ table, node = anyMap table →
    table = (firsts entries).map fun e => (e.1, finalValue entries e)
  /-- Its keys are unequal. -/
  unequal : ∀ table, node = anyMap table → table.Pairwise fun e f => e.1.equal f.1 = false
  /-- A key that holds a number that is not a number equals no key, itself included: each of its
  entries is a first occurrence, with its own value. -/
  nan : ∀ (i : Nat) (e : Value × Value), entries[i]? = some e → e.1.HasNaN →
    (∀ f ∈ entries, f.1.equal e.1 = false) ∧ firstAt? entries i = some e ∧
      finalValue entries e = e.2

theorem Collects.ofEntries (h : ∀ e ∈ entries, e.1.WellFormed) :
    Collects entries (ofEntries entries) where
  child := child?_ofEntries h
  stringKeyed := by
    obtain ⟨fields, rfl, heq⟩ | ⟨⟨e, he, hnone⟩, heq⟩ := ofEntries_cases entries
    · refine iff_of_true ⟨_, heq⟩ fun e he => ?_
      obtain ⟨f, -, rfl⟩ := List.mem_map.1 he
      exact ⟨f.1, rfl⟩
    · refine iff_of_false (by simp [heq]) fun hall => ?_
      obtain ⟨name, hname⟩ := hall e he
      simp [hname, text?] at hnone
  anyKeyed := by
    obtain ⟨fields, rfl, heq⟩ | ⟨⟨e, he, hnone⟩, heq⟩ := ofEntries_cases entries
    · simp [heq]
    · refine iff_of_true ⟨_, heq⟩ ⟨e, he, fun name hname => ?_⟩
      simp [hname, text?] at hnone
  table table htable := (eq_ofList_of_ofEntries htable).trans (Table.ofList_eq_firsts h)
  unequal table htable := by
    rw [eq_ofList_of_ofEntries htable]
    exact (Table.Keyed.ofList h).distinct
  nan i e hi hnan := by
    have hany : entries.any (·.1.equal e.1) = false :=
      Table.any_equal_of_hasNaN h (h e (List.mem_of_getElem? hi)) hnan
    refine ⟨fun f hf => ?_, Table.firstAt?_of_absent hi hany, Table.finalValue_of_absent hany⟩
    exact Bool.eq_false_iff.2 (List.any_eq_false.1 hany f hf)

/-- Decoded entries mean the same whichever kind their mapping has.  An entry under a key that is no
string decides the kind, and changes nothing under the strings. -/
theorem collects_ofEntries (h : ∀ e ∈ entries, e.1.WellFormed) :
    Collects entries (ofEntries entries) ∧
      ∀ key value : Value, key.WellFormed → (∀ name, key ≠ text name) →
        (∃ table, ofEntries (entries ++ [(key, value)]) = anyMap table) ∧
          ∀ name, (ofEntries (entries ++ [(key, value)])).child? name =
            (ofEntries entries).child? name := by
  refine ⟨.ofEntries h, fun key value hkey hother => ?_⟩
  have hlonger : ∀ e ∈ entries ++ [(key, value)], e.1.WellFormed :=
    List.forall_mem_append.2 ⟨h, List.forall_mem_singleton.2 hkey⟩
  constructor
  · exact (Collects.ofEntries hlonger).anyKeyed.2 ⟨(key, value), by simp, hother⟩
  · intro name
    rw [child?_ofEntries hlonger, child?_ofEntries h, Table.lastWith?_concat,
      if_neg (by simpa using hother name)]

/-- Entries with a string twice, a number that is not a number twice, and a nested key in two forms
that are equal. -/
def mixedEntries : List (Value × Value) :=
  [(text "a", .int 1), (.float Double.nan, .int 2), (.seq [.float (Double.zero false)], .int 3),
    (text "a", .int 4), (.float Double.nan, .int 5), (.seq [.float (Double.zero true)], .int 6)]

theorem collects_ofEntries_mixed :
    (∀ e ∈ mixedEntries, e.1.WellFormed) ∧ Collects mixedEntries (ofEntries mixedEntries) := by
  have hkeys : ∀ e ∈ mixedEntries, e.1.WellFormed := by decide +kernel
  exact ⟨hkeys, (collects_ofEntries hkeys).1⟩

example : ofEntries mixedEntries =
    anyMap [(text "a", .int 4), (.float Double.nan, .int 2),
      (.seq [.float (Double.zero false)], .int 6), (.float Double.nan, .int 5)] := by
  decide +kernel

end Value

end PropertyTree
