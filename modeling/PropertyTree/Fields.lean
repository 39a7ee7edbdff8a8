/-!
# Fields: entries under string keys

A string-keyed mapping is a list of entries with strictly increasing keys, in the order of their
code points (which is the order of their UTF-8 bytes).  A mapping then has one representation
however it was built, so structural equality of mappings is equality of their contents, and
whatever walks the list walks it in the order that every output shows.

`Fields.Sorted` states the order, `sorted_insert`, `sorted_erase` and `sorted_ofList` say that the
operations keep it, and `get?_insert` and `get?_erase` describe them through look-up.  Storing
what is there already gives back the same list (`insert_of_get?`), whether it is sorted or not.
-/

namespace PropertyTree

namespace Fields

universe u

variable {α : Type u}

/-- The keys strictly increase. -/
def Sorted (fields : List (String × α)) : Prop :=
  (fields.map Prod.fst).Pairwise (· < ·)

/-- The value under a key. -/
def get? : List (String × α) → String → Option α
  | [], _ => none
  | (k, v) :: rest, key => if k = key then some v else get? rest key

/-- Gives the entry under a key another value; without such an entry nothing happens. -/
def replace : List (String × α) → String → α → List (String × α)
  | [], _, _ => []
  | (k, v) :: rest, key, value =>
    if k = key then (k, value) :: rest else (k, v) :: replace rest key value

/-- Puts a new entry where the order has room for it. -/
def place : List (String × α) → String → α → List (String × α)
  | [], key, value => [(key, value)]
  | (k, v) :: rest, key, value =>
    if key < k then (key, value) :: (k, v) :: rest else (k, v) :: place rest key value

/-- Puts a value under a key, in place of the old one or as a new entry. -/
def insert (fields : List (String × α)) (key : String) (value : α) : List (String × α) :=
  if (get? fields key).isSome then replace fields key value else place fields key value

/-- Drops the entry under a key. -/
def erase : List (String × α) → String → List (String × α)
  | [], _ => []
  | (k, v) :: rest, key => if k = key then rest else (k, v) :: erase rest key

/-- The mapping built from entries in turn, a later value taking the place of an earlier one. -/
def ofList (entries : List (String × α)) : List (String × α) :=
  entries.foldl (fun fields e => insert fields e.1 e.2) []

/-! ## Order -/

theorem Sorted.nodup_keys {fields : List (String × α)} (h : Sorted fields) :
    (fields.map Prod.fst).Nodup :=
  h.imp String.ne_of_lt

theorem sorted_cons {k : String} {v : α} {rest : List (String × α)} :
    Sorted ((k, v) :: rest) ↔ (∀ e ∈ rest, k < e.1) ∧ Sorted rest := by
  simp [Sorted]

theorem get?_eq_none_iff {fields : List (String × α)} {key : String} :
    get? fields key = none ↔ ∀ e ∈ fields, e.1 ≠ key := by
  induction fields with
  | nil => simp [get?]
  | cons f rest ih =>
    obtain ⟨k, v⟩ := f
    by_cases h : k = key <;> simp [get?, h, ih]

theorem keys_replace (fields : List (String × α)) (key : String) (value : α) :
    (replace fields key value).map Prod.fst = fields.map Prod.fst := by
  induction fields with
  | nil => rfl
  | cons f rest ih =>
    obtain ⟨k, v⟩ := f
    by_cases h : k = key <;> simp [replace, h, ih]

theorem mem_place {fields : List (String × α)} {key : String} {value : α} {e : String × α}
    (h : e ∈ place fields key value) : e = (key, value) ∨ e ∈ fields := by
  induction fields with
  | nil => simpa [place] using h
  | cons f rest ih =>
    unfold place at h
    split at h
    · simpa using h
    · rcases List.mem_cons.1 h with rfl | h
      · exact .inr (List.mem_cons_self ..)
      · exact (ih h).imp_right (List.mem_cons_of_mem _)

theorem sorted_place {fields : List (String × α)} (h : Sorted fields) {key : String}
    (hnew : get? fields key = none) (value : α) : Sorted (place fields key value) := by
  induction fields with
  | nil => simp [place, Sorted]
  | cons f rest ih =>
    obtain ⟨k, v⟩ := f
    obtain ⟨hk, hrest⟩ := sorted_cons.1 h
    have hne := get?_eq_none_iff.1 hnew
    unfold place
    split
    case isTrue hlt =>
      refine sorted_cons.2 ⟨fun e he => ?_, h⟩
      rcases List.mem_cons.1 he with rfl | he
      · exact hlt
      · exact String.lt_trans hlt (hk e he)
    case isFalse hlt =>
      refine sorted_cons.2 ⟨fun e he => ?_, ih hrest <|
        get?_eq_none_iff.2 fun e he => hne e (List.mem_cons_of_mem _ he)⟩
      rcases mem_place he with rfl | he
      · exact Decidable.byContradiction fun hnot =>
          hne (k, v) (List.mem_cons_self ..)
            (String.le_antisymm (String.not_lt.1 hlt) (String.not_lt.1 hnot))
      · exact hk e he

theorem sorted_insert {fields : List (String × α)} (h : Sorted fields) (key : String) (value : α) :
    Sorted (insert fields key value) := by
  unfold insert
  split
  case isTrue => rw [Sorted, keys_replace]; exact h
  case isFalse hnew => exact sorted_place h (by simpa using hnew) value

theorem mem_of_mem_erase {fields : List (String × α)} {key : String} {e : String × α}
    (h : e ∈ erase fields key) : e ∈ fields := by
  induction fields with
  | nil => simp [erase] at h
  | cons f rest ih =>
    unfold erase at h
    split at h
    · exact List.mem_cons_of_mem _ h
    · rcases List.mem_cons.1 h with rfl | h
      · exact List.mem_cons_self ..
      · exact List.mem_cons_of_mem _ (ih h)

theorem sorted_erase {fields : List (String × α)} (h : Sorted fields) (key : String) :
    Sorted (erase fields key) := by
  induction fields with
  | nil => simp [erase, Sorted]
  | cons f rest ih =>
    obtain ⟨k, v⟩ := f
    obtain ⟨hk, hrest⟩ := sorted_cons.1 h
    unfold erase
    split
    · exact hrest
    · exact sorted_cons.2 ⟨fun e he => hk e (mem_of_mem_erase he), ih hrest⟩

theorem sorted_foldl_insert {fields : List (String × α)} (h : Sorted fields)
    (entries : List (String × α)) :
    Sorted (entries.foldl (fun fields e => insert fields e.1 e.2) fields) := by
  induction entries generalizing fields with
  | nil => exact h
  | cons e rest ih => exact ih (sorted_insert h e.1 e.2)

theorem sorted_ofList (entries : List (String × α)) : Sorted (ofList entries) :=
  sorted_foldl_insert (by simp [Sorted]) entries

/-! ## Look-up -/

theorem get?_replace {fields : List (String × α)} {key : String}
    (h : (get? fields key).isSome = true) (value : α) (other : String) :
    get? (replace fields key value) other =
      if key = other then some value else get? fields other := by
  induction fields with
  | nil => simp [get?] at h
  | cons f rest ih =>
    obtain ⟨k, v⟩ := f
    by_cases hk : k = key
    · subst hk
      by_cases ho : k = other <;> simp [replace, get?, ho]
    · have hrest : (get? rest key).isSome = true := by simpa [get?, hk] using h
      by_cases ho : k = other
      · subst ho; simp [replace, get?, hk, Ne.symm hk]
      · simp [replace, get?, hk, ho, ih hrest]

theorem get?_place {fields : List (String × α)} {key : String} (h : get? fields key = none)
    (value : α) (other : String) :
    get? (place fields key value) other =
      if key = other then some value else get? fields other := by
  induction fields with
  | nil => simp [place, get?]
  | cons f rest ih =>
    obtain ⟨k, v⟩ := f
    have hne := get?_eq_none_iff.1 h
    have hk : k ≠ key := hne (k, v) (List.mem_cons_self ..)
    have hrest := get?_eq_none_iff.2 fun e he => hne e (List.mem_cons_of_mem _ he)
    unfold place
    split
    · simp [get?]
    · by_cases ho : k = other
      · subst ho; simp [get?, Ne.symm hk]
      · simp [get?, ho, ih hrest]

theorem get?_insert (fields : List (String × α)) (key : String) (value : α) (other : String) :
    get? (insert fields key value) other =
      if key = other then some value else get? fields other := by
  unfold insert
  split
  case isTrue h => exact get?_replace h value other
  case isFalse h => exact get?_place (by simpa using h) value other

/-- Storing what is there already changes nothing. -/
theorem insert_of_get? {fields : List (String × α)} {key : String} {value : α}
    (h : get? fields key = some value) : insert fields key value = fields := by
  rw [insert, if_pos (by rw [h]; rfl)]
  induction fields with
  | nil => rfl
  | cons f rest ih =>
    obtain ⟨k, v⟩ := f
    by_cases hk : k = key
    · simp_all [get?, replace]
    · simp_all [get?, replace]

theorem get?_erase {fields : List (String × α)} (h : (fields.map Prod.fst).Nodup)
    (key other : String) :
    get? (erase fields key) other = if key = other then none else get? fields other := by
  induction fields with
  | nil => simp [erase, get?]
  | cons f rest ih =>
    obtain ⟨k, v⟩ := f
    obtain ⟨hk, hrest⟩ := List.nodup_cons.1 h
    unfold erase
    split
    case isTrue heq =>
      subst heq
      by_cases hko : k = other
      · subst hko
        have hmissing : get? rest k = none :=
          get?_eq_none_iff.2 fun e he heq => hk (List.mem_map.2 ⟨e, he, heq⟩)
        simp [hmissing]
      · simp [get?, hko]
    case isFalse hne =>
      by_cases hko : k = other
      · subst hko; simp [get?, Ne.symm hne]
      · simp [get?, hko, ih hrest]

end Fields

end PropertyTree
