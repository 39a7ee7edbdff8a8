import Mathlib.Data.List.Induction
import Mathlib.Data.List.Perm.Basic
import Mathlib.Tactic.Lemma
import PropertyTree.Fields

/-!
# Sorted fields

Fields under distinct keys are a map: what is looked up is what is there (`get?_eq_some_iff`).  Two
lists that are also sorted are equal if they have the same look-ups (`eq_of_get?`).  So the order in
which fields were stored cannot be seen afterwards (`insert_comm`), and building fields from sorted
ones gives them back (`ofList_of_sorted`).  Of several entries under one key the last one stays
(`get?_ofList`).

Fields that are not sorted can be changed as well, and sorting them later gives what the change of
the sorted ones gives (`ofList_insert`, `ofList_erase`).
-/

namespace PropertyTree

namespace Fields

universe u

variable {α : Type u} {fields others : List (String × α)} {key other : String} {value value' : α}

/-! ## Look-up is membership -/

lemma mem_of_get? (h : get? fields key = some value) : (key, value) ∈ fields := by
  induction fields with
  | nil => cases h
  | cons f rest ih =>
    obtain ⟨k, v⟩ := f
    rw [get?] at h
    split at h
    case isTrue hk =>
      obtain rfl : v = value := by simpa using h
      rw [hk]
      exact List.mem_cons_self
    case isFalse => exact List.mem_cons_of_mem _ (ih h)

lemma get?_eq_some_iff (h : (fields.map Prod.fst).Nodup) :
    get? fields key = some value ↔ (key, value) ∈ fields := by
  refine ⟨mem_of_get?, fun hmem => ?_⟩
  induction fields with
  | nil => cases hmem
  | cons f rest ih =>
    obtain ⟨k, v⟩ := f
    obtain ⟨hk, hrest⟩ := List.nodup_cons.1 h
    rcases List.mem_cons.1 hmem with heq | hmem
    · obtain ⟨rfl, rfl⟩ := Prod.mk.inj heq
      simp [get?]
    · have hne : k ≠ key := by
        rintro rfl
        exact hk (List.mem_map.2 ⟨_, hmem, rfl⟩)
      rw [get?, if_neg hne, ih hrest hmem]

lemma Sorted.nodup (h : Sorted fields) : fields.Nodup := by
  refine (List.pairwise_map.1 h).imp ?_
  rintro e f hlt rfl
  exact String.lt_irrefl _ hlt

/-- Sorted fields have one order. -/
lemma Sorted.eq_of_perm (h : Sorted fields) (h' : Sorted others) (hperm : fields.Perm others) :
    fields = others := by
  refine hperm.eq_of_pairwise ?_ (List.pairwise_map.1 h) (List.pairwise_map.1 h')
  intro e f _ _ hef hfe
  exact absurd (String.lt_trans hef hfe) (String.lt_irrefl _)

/-- Sorted fields with the same look-ups are equal. -/
theorem eq_of_get? (h : Sorted fields) (h' : Sorted others)
    (hget : ∀ key, get? fields key = get? others key) : fields = others := by
  refine h.eq_of_perm h' ((List.perm_ext_iff_of_nodup h.nodup h'.nodup).2 fun e => ?_)
  rw [← get?_eq_some_iff h.nodup_keys, ← get?_eq_some_iff h'.nodup_keys, hget]

/-! ## Storing -/

lemma insert_insert (h : Sorted fields) (key : String) (old new : α) :
    insert (insert fields key old) key new = insert fields key new := by
  refine eq_of_get? (sorted_insert (sorted_insert h key old) key new) (sorted_insert h key new) ?_
  intro other
  by_cases hkey : key = other <;> simp [get?_insert, hkey]

/-- It does not show which of two keys was stored first. -/
lemma insert_comm (h : Sorted fields) (hne : key ≠ other) (value value' : α) :
    insert (insert fields key value) other value' =
      insert (insert fields other value') key value := by
  refine eq_of_get? (sorted_insert (sorted_insert h key value) other value')
    (sorted_insert (sorted_insert h other value') key value) fun k => ?_
  by_cases hk : key = k
  · subst hk
    simp [get?_insert, Ne.symm hne]
  · simp [get?_insert, hk]

/-- Storing a key past all others adds it at the end. -/
lemma insert_of_lt (h : ∀ e ∈ fields, e.1 < key) (value : α) :
    insert fields key value = fields ++ [(key, value)] := by
  have hmissing : get? fields key = none := by
    refine get?_eq_none_iff.2 fun e he heq => ?_
    exact String.lt_irrefl key (heq ▸ h e he)
  rw [insert, if_neg (by simp [hmissing])]
  clear hmissing
  induction fields with
  | nil => rfl
  | cons f rest ih =>
    obtain ⟨k, v⟩ := f
    obtain ⟨hk, hrest⟩ := List.forall_mem_cons.1 h
    rw [place, if_neg fun hlt => String.lt_irrefl k (String.lt_trans hk hlt), ih hrest]
    rfl

/-! ## Collecting -/

lemma ofList_concat (entries : List (String × α)) (e : String × α) :
    ofList (entries ++ [e]) = insert (ofList entries) e.1 e.2 := by
  rw [ofList, List.foldl_append, ← ofList]
  rfl

/-- What is found under a key is the last of the entries under it. -/
lemma get?_ofList (entries : List (String × α)) (key : String) :
    get? (ofList entries) key = (entries.reverse.find? (·.1 == key)).map Prod.snd := by
  induction entries using List.reverseRecOn with
  | nil => rfl
  | append_singleton entries e ih =>
    rw [ofList_concat, get?_insert, ih, List.reverse_append, List.reverse_singleton,
      List.singleton_append, List.find?_cons]
    by_cases hkey : e.1 = key
    · simp [hkey]
    · have hbeq : (e.1 == key) = false := by simpa using hkey
      rw [if_neg hkey, hbeq]

lemma get?_append_of_ne (h : ∀ e ∈ fields, e.1 ≠ key) (others : List (String × α)) :
    get? (fields ++ others) key = get? others key := by
  induction fields with
  | nil => rfl
  | cons e rest ih =>
    obtain ⟨hfirst, hrest⟩ := List.forall_mem_cons.1 h
    rw [List.cons_append, get?, if_neg hfirst, ih hrest]

/-- No key is lost. -/
lemma key_mem_ofList {entries : List (String × α)} {e : String × α} (h : e ∈ entries) :
    e.1 ∈ (ofList entries).map Prod.fst := by
  have hfound : (entries.reverse.find? (·.1 == e.1)).isSome :=
    List.find?_isSome.2 ⟨e, List.mem_reverse.2 h, beq_self_eq_true e.1⟩
  by_contra hmissing
  have hnone : get? (ofList entries) e.1 = none :=
    get?_eq_none_iff.2 fun f hf hkey => hmissing (hkey ▸ List.mem_map_of_mem hf)
  rw [get?_ofList, Option.map_eq_none_iff] at hnone
  rw [hnone] at hfound
  cases hfound

lemma mem_ofList {entries : List (String × α)} {e : String × α} (h : e ∈ ofList entries) :
    e ∈ entries := by
  have hget := (get?_eq_some_iff (sorted_ofList entries).nodup_keys).2 h
  rw [get?_ofList, Option.map_eq_some_iff] at hget
  obtain ⟨f, hf, hvalue⟩ := hget
  have hkey : f.1 = e.1 := by simpa using List.find?_some hf
  obtain rfl : f = e := Prod.ext hkey hvalue
  exact List.mem_reverse.1 (List.mem_of_find?_eq_some hf)

lemma perm_place (fields : List (String × α)) (key : String) (value : α) :
    (place fields key value).Perm ((key, value) :: fields) := by
  induction fields with
  | nil => exact .refl _
  | cons f rest ih =>
    obtain ⟨k, v⟩ := f
    rw [place]
    split
    case isTrue => exact .refl _
    case isFalse => exact (ih.cons _).trans (.swap _ _ _)

/-- Collecting fields under distinct keys puts them in order, and that is all. -/
theorem perm_ofList {entries : List (String × α)} (h : (entries.map Prod.fst).Nodup) :
    (ofList entries).Perm entries := by
  induction entries using List.reverseRecOn with
  | nil => exact .refl _
  | append_singleton entries e ih =>
    rw [List.map_append, List.nodup_append] at h
    obtain ⟨hentries, -, hnew⟩ := h
    have hmissing : get? (ofList entries) e.1 = none := by
      refine get?_eq_none_iff.2 fun f hf heq => ?_
      exact hnew f.1 (List.mem_map_of_mem (mem_ofList hf)) e.1 List.mem_cons_self heq
    rw [ofList_concat, insert, if_neg (by simp [hmissing])]
    exact (perm_place _ _ _).trans
      (((ih hentries).cons e).trans (List.perm_append_singleton e _).symm)

/-- Collecting sorted fields gives them back. -/
theorem ofList_of_sorted (h : Sorted fields) : ofList fields = fields := by
  induction fields using List.reverseRecOn with
  | nil => rfl
  | append_singleton fields e ih =>
    rw [Sorted, List.map_append, List.pairwise_append] at h
    obtain ⟨hfields, -, hlast⟩ := h
    have hlt : ∀ f ∈ fields, f.1 < e.1 := by
      intro f hf
      exact hlast f.1 (List.mem_map_of_mem hf) e.1 List.mem_cons_self
    rw [ofList_concat, ih hfields, insert_of_lt hlt]

/-! ## Fields under distinct keys, in any order -/

/-- Where the keys are distinct, look-up does not show the order. -/
lemma get?_eq_of_perm (h : (fields.map Prod.fst).Nodup) (hperm : fields.Perm others)
    (key : String) : get? fields key = get? others key := by
  have hothers : (others.map Prod.fst).Nodup := (hperm.map Prod.fst).nodup_iff.1 h
  refine Option.ext fun value => ?_
  rw [get?_eq_some_iff h, get?_eq_some_iff hothers, hperm.mem_iff]

lemma get?_ofList_of_nodup (h : (fields.map Prod.fst).Nodup) (key : String) :
    get? (ofList fields) key = get? fields key :=
  get?_eq_of_perm (sorted_ofList fields).nodup_keys (perm_ofList h) key

/-- Fields under distinct keys may be inserted in any order. -/
lemma ofList_eq_of_perm (h : (fields.map Prod.fst).Nodup) (hperm : fields.Perm others) :
    ofList fields = ofList others := by
  have hothers : (others.map Prod.fst).Nodup := (hperm.map Prod.fst).nodup_iff.1 h
  refine (sorted_ofList fields).eq_of_perm (sorted_ofList others) ?_
  exact (perm_ofList h).trans (hperm.trans (perm_ofList hothers).symm)

lemma nodup_keys_insert (h : (fields.map Prod.fst).Nodup) (key : String) (value : α) :
    ((insert fields key value).map Prod.fst).Nodup := by
  unfold insert
  split
  case isTrue =>
    rw [keys_replace]
    exact h
  case isFalse hmissing =>
    have hnone : get? fields key = none := by simpa using hmissing
    rw [((perm_place fields key value).map Prod.fst).nodup_iff, List.map_cons, List.nodup_cons]
    refine ⟨fun hmem => ?_, h⟩
    obtain ⟨f, hf, hkey⟩ := List.mem_map.1 hmem
    exact get?_eq_none_iff.1 hnone f hf hkey

lemma erase_sublist (fields : List (String × α)) (key : String) :
    (erase fields key).Sublist fields := by
  induction fields with
  | nil => exact .slnil
  | cons f rest ih =>
    rw [erase]
    split
    case isTrue => exact List.sublist_cons_self _ rest
    case isFalse => exact ih.cons_cons _

lemma nodup_keys_erase (h : (fields.map Prod.fst).Nodup) (key : String) :
    ((erase fields key).map Prod.fst).Nodup :=
  h.sublist ((erase_sublist fields key).map Prod.fst)

/-- Storing comes before or after putting fields in order. -/
lemma ofList_insert (h : (fields.map Prod.fst).Nodup) (key : String) (value : α) :
    ofList (insert fields key value) = insert (ofList fields) key value := by
  refine eq_of_get? (sorted_ofList _) (sorted_insert (sorted_ofList fields) key value) ?_
  intro other
  rw [get?_ofList_of_nodup (nodup_keys_insert h key value), get?_insert, get?_insert,
    get?_ofList_of_nodup h]

/-- Dropping comes before or after putting fields in order. -/
lemma ofList_erase (h : (fields.map Prod.fst).Nodup) (key : String) :
    ofList (erase fields key) = erase (ofList fields) key := by
  refine eq_of_get? (sorted_ofList _) (sorted_erase (sorted_ofList fields) key) fun other => ?_
  rw [get?_ofList_of_nodup (nodup_keys_erase h key), get?_erase h,
    get?_erase (sorted_ofList fields).nodup_keys, get?_ofList_of_nodup h]

/-! ## Other values under the same keys -/

section Map

universe v

variable {β : Type v}

lemma get?_map (f : α → β) (fields : List (String × α)) (key : String) :
    get? (fields.map fun e => (e.1, f e.2)) key = (get? fields key).map f := by
  induction fields with
  | nil => rfl
  | cons e rest ih =>
    rw [List.map_cons, get?, get?, ih]
    split <;> rfl

lemma insert_map (f : α → β) (fields : List (String × α)) (key : String) (value : α) :
    insert (fields.map fun e => (e.1, f e.2)) key (f value) =
      (insert fields key value).map fun e => (e.1, f e.2) := by
  have hreplace : ∀ fields : List (String × α), replace (fields.map fun e => (e.1, f e.2)) key
      (f value) = (replace fields key value).map fun e => (e.1, f e.2) := by
    intro fields
    induction fields with
    | nil => rfl
    | cons e rest ih =>
      rw [List.map_cons, replace, replace, ih]
      split <;> rfl
  have hplace : ∀ fields : List (String × α), place (fields.map fun e => (e.1, f e.2)) key
      (f value) = (place fields key value).map fun e => (e.1, f e.2) := by
    intro fields
    induction fields with
    | nil => rfl
    | cons e rest ih =>
      rw [List.map_cons, place, place, ih]
      split <;> rfl
  rw [insert, insert, get?_map, Option.isSome_map, hreplace, hplace]
  split <;> rfl

lemma erase_map (f : α → β) (fields : List (String × α)) (key : String) :
    erase (fields.map fun e => (e.1, f e.2)) key =
      (erase fields key).map fun e => (e.1, f e.2) := by
  induction fields with
  | nil => rfl
  | cons e rest ih =>
    rw [List.map_cons, erase, erase, ih]
    split <;> rfl

lemma sorted_map {fields : List (String × α)} (h : Sorted fields) (f : α → β) :
    Sorted (fields.map fun e => (e.1, f e.2)) := by
  rw [Sorted, List.map_map]
  exact h

/-- Values may be changed before or after fields are collected. -/
lemma ofList_map (f : α → β) (entries : List (String × α)) :
    ofList (entries.map fun e => (e.1, f e.2)) = (ofList entries).map fun e => (e.1, f e.2) := by
  refine eq_of_get? (sorted_ofList _) (sorted_map (sorted_ofList entries) f) fun key => ?_
  rw [get?_map, get?_ofList, get?_ofList, ← List.map_reverse, List.find?_map, Option.map_map,
    Option.map_map]
  rfl

end Map

end Fields

end PropertyTree
