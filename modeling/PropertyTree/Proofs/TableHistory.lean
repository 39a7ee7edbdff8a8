import PropertyTree.Proofs.TableLaws

/-!
# Tables as finite maps

Whatever is done to a table comes to a history of writes: values stored, values assigned, keys
dropped.  This module says what a table holds in terms of its history alone.

* The value under a key is the value last written under an equal key (`valueAfter?`), if the key was
  not dropped since.
* The keys come in the order of their births (`keysAfter`).  A write is the birth of a key if it
  stored the key while no equal key was there, and the key was not dropped later.  The entry keeps
  the key of its birth, whatever equal keys are written later.

Both are read off the history without a table.  `Tracks.apply` shows that one write keeps a table in
line with its history, and `mapOf_run` that this is so for any chain of edits, from any collection.

Histories list writes with the oldest first.
-/

namespace PropertyTree

namespace Table

open Value (text)

/-! ## Writes and histories -/

/-- One change to a table. -/
inductive Write where
  /-- A value is stored under a key, which is new or takes the value. -/
  | store (key value : Value)
  /-- A default is stored under a string key that is missing. -/
  | ensure (key : String) (default : Value)
  /-- A key that is there takes a value. -/
  | assign (key value : Value)
  /-- Entries take values chosen by their places. -/
  | assignAll (new : Nat → Option Value)
  /-- The entry under a string key goes. -/
  | drop (key : String)

namespace Write

/-- The key that is there after a write, whether it was before or not. -/
def stored? : Write → Option Value
  | store key _ => some key
  | ensure key _ => some (text key)
  | assign .. | assignAll _ | drop _ => none

/-- Whether a write drops a key. -/
def drops : Write → Value → Bool
  | drop name, key => (text name).equal key
  | store .. , _ | ensure .., _ | assign .., _ | assignAll _, _ => false

/-- Performs a write. -/
def apply : Write → Table → Table
  | store key value, table => table.put key value
  | ensure key default, table => table.ensureText key default
  | assign key value, table => (table.replace? key value).getD table
  | assignAll new, table => table.assignAll new
  | drop key, table => (table.removeText key).2

/-- The key of a write is well-formed. -/
def KeyWellFormed : Write → Prop
  | store key _ | assign key _ => key.WellFormed
  | ensure .. | assignAll _ | drop _ => True

end Write

/-- Whether a key is there after a history: it was stored, and not dropped since. -/
def storedAfter (history : List Write) (key : Value) : Bool :=
  history.foldl (fun there write =>
    (there && !write.drops key) || write.stored?.any (·.equal key)) false

/-- The key born by the write at a place of a history: it was stored there, no equal key was there
before, and it was not dropped later. -/
def birth? (history : List Write) (i : Nat) : Option Value :=
  (history[i]?.bind Write.stored?).filter fun key =>
    !storedAfter (history.take i) key && !(history.drop (i + 1)).any (·.drops key)

/-- The keys after a history, in the order of their births. -/
def keysAfter (history : List Write) : List Value :=
  (List.range history.length).filterMap (birth? history)

/-- The value last written under a key, by a history with the newest write first. -/
def lastValue? (key : Value) : List Write → Option Value
  | [] => none
  | .store k value :: earlier => if k.equal key then some value else lastValue? key earlier
  | .ensure k default :: earlier =>
    if (text k).equal key then some ((lastValue? key earlier).getD default)
    else lastValue? key earlier
  | .assign k value :: earlier =>
    if k.equal key then (lastValue? key earlier).map fun _ => value else lastValue? key earlier
  | .assignAll new :: earlier =>
    (lastValue? key earlier).map fun old =>
      (new ((keysAfter earlier.reverse).findIdx fun k => k.equal key)).getD old
  | .drop k :: earlier => if (text k).equal key then none else lastValue? key earlier

/-- The value under a key after a history: the one last written under an equal key. -/
def valueAfter? (history : List Write) (key : Value) : Option Value :=
  lastValue? key history.reverse

section History

variable {history : List Write} {write : Write} {key : Value}

lemma storedAfter_concat (history : List Write) (write : Write) (key : Value) :
    storedAfter (history ++ [write]) key =
      ((storedAfter history key && !write.drops key) || write.stored?.any (·.equal key)) := by
  simp [storedAfter]

/-- A write keeps the births before it, unless it drops their keys, and may add one. -/
lemma keysAfter_concat (history : List Write) (write : Write) :
    keysAfter (history ++ [write]) =
      (keysAfter history).filter (fun key => !write.drops key) ++
        (write.stored?.filter fun key => !storedAfter history key).toList := by
  have hbefore : ∀ i ∈ List.range history.length,
      birth? (history ++ [write]) i = (birth? history i).filter fun key => !write.drops key := by
    intro i hi
    have hi : i < history.length := List.mem_range.1 hi
    rw [birth?, birth?, List.getElem?_append_left hi, List.take_append_of_le_length (by omega),
      List.drop_append_of_le_length (by omega), Option.filter_filter]
    congr 1
    funext key
    simp [Bool.and_assoc]
  have hlast : birth? (history ++ [write]) history.length =
      write.stored?.filter fun key => !storedAfter history key := by
    simp [birth?]
  rw [keysAfter, List.length_append, List.length_singleton, List.range_succ, List.filterMap_append,
    List.filterMap_congr hbefore, keysAfter, List.filter_filterMap, List.filterMap_cons, hlast]
  cases write.stored?.filter fun key => !storedAfter history key <;> rfl

end History

/-! ## Tables in line with a history -/

/-- A table holds what a history of writes leaves. -/
structure Tracks (history : List Write) (table : Table) : Prop where
  keyed : table.Keyed
  keys : table.map Prod.fst = keysAfter history
  stored : ∀ key : Value, key.WellFormed → (table.get? key).isSome = storedAfter history key
  value : ∀ key : Value, key.WellFormed → table.get? key = valueAfter? history key

lemma tracks_nil : Tracks [] [] :=
  ⟨keyed_nil, rfl, fun _ _ => rfl, fun _ _ => rfl⟩

namespace Tracks

variable {history : List Write} {table : Table}

lemma store (h : Tracks history table) {key : Value} (hkey : key.WellFormed) (value : Value) :
    Tracks (history ++ [.store key value]) (table.put key value) where
  keyed := h.keyed.put hkey value
  keys := by
    rw [keys_put, h.keys, keysAfter_concat, h.stored key hkey]
    cases hstored : storedAfter history key <;>
      simp [Write.drops, Write.stored?, Option.filter, hstored]
  stored other hother := by
    rw [h.keyed.get?_put hkey hother, storedAfter_concat, ← h.stored other hother]
    cases hequal : key.equal other <;> simp [Write.drops, Write.stored?, hequal]
  value other hother := by
    rw [h.keyed.get?_put hkey hother, h.value other hother]
    simp [valueAfter?, lastValue?]

lemma assign (h : Tracks history table) {key : Value} (hkey : key.WellFormed) (value : Value) :
    Tracks (history ++ [.assign key value]) ((table.replace? key value).getD table) where
  keyed := by
    rw [replace?_getD]
    split
    · exact h.keyed.put hkey value
    · exact h.keyed
  keys := by
    rw [replace?_getD, keysAfter_concat, ← h.keys]
    split <;> simp [*, keys_put, Write.drops, Write.stored?]
  stored other hother := by
    rw [storedAfter_concat, ← h.stored other hother, replace?_getD]
    split
    case isTrue hstored =>
      rw [h.keyed.get?_put hkey hother]
      cases hequal : key.equal other with
      | false => simp [Write.drops, Write.stored?]
      | true =>
        rw [h.keyed.get?_congr hkey hother hequal] at hstored
        simp [hstored, Write.drops, Write.stored?]
    case isFalse => simp [Write.drops, Write.stored?]
  value other hother := by
    have hvalue := h.value other hother
    rw [valueAfter?] at hvalue
    rw [replace?_getD, valueAfter?, List.reverse_append, List.reverse_singleton,
      List.singleton_append, lastValue?, ← hvalue]
    split
    case isTrue hstored =>
      rw [h.keyed.get?_put hkey hother]
      cases hequal : key.equal other with
      | false => simp
      | true =>
        rw [h.keyed.get?_congr hkey hother hequal] at hstored
        obtain ⟨old, hold⟩ := Option.isSome_iff_exists.1 hstored
        simp [hold]
    case isFalse hstored =>
      cases hequal : key.equal other with
      | false => simp
      | true =>
        rw [h.keyed.get?_congr hkey hother hequal] at hstored
        simp [Option.not_isSome_iff_eq_none.1 hstored]

lemma assignAll (h : Tracks history table) (new : Nat → Option Value) :
    Tracks (history ++ [.assignAll new]) (table.assignAll new) where
  keyed := h.keyed.of_keys (keys_assignAll new table)
  keys := by simp [keysAfter_concat, h.keys, Write.drops, Write.stored?]
  stored other hother := by
    simp [get?_assignAll, storedAfter_concat, h.stored other hother, Write.drops, Write.stored?]
  value other hother := by
    rw [get?_assignAll, h.keys, h.value other hother]
    simp [valueAfter?, lastValue?]

lemma drop (h : Tracks history table) (name : String) :
    Tracks (history ++ [.drop name]) (table.removeText name).2 where
  keyed := h.keyed.removeText name
  keys := by
    rw [h.keyed.keys_removeText, h.keys, keysAfter_concat]
    simp [Write.drops, Write.stored?]
  stored other hother := by
    rw [h.keyed.get?_removeText, storedAfter_concat, ← h.stored other hother]
    cases hequal : (text name).equal other <;> simp [Write.drops, Write.stored?, hequal]
  value other hother := by
    rw [h.keyed.get?_removeText, h.value other hother]
    simp [valueAfter?, lastValue?]

/-- A default is stored if it is needed, and otherwise everything is as it was. -/
lemma ensure (h : Tracks history table) (name : String) (default : Value) :
    Tracks (history ++ [.ensure name default]) (table.ensureText name default) := by
  have hname : (text name).WellFormed := .scalar _
  have hvalue : ∀ other : Value, other.WellFormed →
      valueAfter? (history ++ [.ensure name default]) other =
        if (text name).equal other then some ((table.get? other).getD default)
        else table.get? other := by
    intro other hother
    rw [h.value other hother]
    simp [valueAfter?, lastValue?]
  rw [ensureText_eq]
  split
  case isTrue hthere =>
    refine ⟨h.keyed, ?_, fun other hother => ?_, fun other hother => ?_⟩
    · rw [h.stored _ hname] at hthere
      simp [keysAfter_concat, h.keys, Write.drops, Write.stored?, Option.filter, hthere]
    · rw [storedAfter_concat, ← h.stored other hother]
      cases hequal : (text name).equal other with
      | false => simp [Write.drops, Write.stored?, hequal]
      | true =>
        obtain rfl := (Value.text_equal_iff name other).1 hequal
        simp [hthere, Write.drops]
    · rw [hvalue other hother]
      split
      case isFalse => rfl
      case isTrue hequal =>
        obtain rfl := (Value.text_equal_iff name other).1 hequal
        obtain ⟨old, hold⟩ := Option.isSome_iff_exists.1 hthere
        rw [hold, Option.getD_some]
  case isFalse habsent =>
    have habsent : table.get? (text name) = none := by simpa using habsent
    have hstore := h.store hname default
    refine ⟨hstore.keyed, ?_, fun other hother => ?_, fun other hother => ?_⟩
    · rw [hstore.keys, keysAfter_concat, keysAfter_concat]
      rfl
    · rw [hstore.stored other hother, storedAfter_concat, storedAfter_concat]
      rfl
    · rw [hvalue other hother, h.keyed.get?_put hname hother]
      split
      case isFalse => rfl
      case isTrue hequal =>
        obtain rfl := (Value.text_equal_iff name other).1 hequal
        rw [habsent, Option.getD_none]

/-- One write keeps a table in line with its history. -/
theorem apply (h : Tracks history table) {write : Write} (hwrite : write.KeyWellFormed) :
    Tracks (history ++ [write]) (write.apply table) := by
  cases write with
  | store key value => exact h.store hwrite value
  | ensure name default => exact h.ensure name default
  | assign key value => exact h.assign hwrite value
  | assignAll new => exact h.assignAll new
  | drop name => exact h.drop name

end Tracks

/-- So does a list of writes. -/
lemma Tracks.writes {history : List Write} {table : Table} (h : Tracks history table)
    {writes : List Write} (hwrites : ∀ write ∈ writes, write.KeyWellFormed) :
    Tracks (history ++ writes) (writes.foldl (fun table write => write.apply table) table) := by
  induction writes generalizing history table with
  | nil => simpa using h
  | cons write rest ih =>
    obtain ⟨hwrite, hrest⟩ := List.forall_mem_cons.1 hwrites
    simpa using ih (h.apply hwrite) hrest

/-! ## Edits -/

/-- A call that can change a table. -/
inductive Edit where
  | insert (key value : Value)
  /-- Assigns through the slot that is found under a key. -/
  | replace (key value : Value)
  /-- Assigns through the slot that is found under a string key. -/
  | replaceText (name : String) (value : Value)
  /-- Assigns through some of the slots, which are given out in the order of the entries. -/
  | assignAll (new : Nat → Option Value)
  | removeText (name : String)
  /-- Adds an entry with a default where the key is missing; what was assigned to the slot, if
  anything was. -/
  | entry (name : String) (default : Value) (assigned : Option Value)
  /-- Collects the entries of the table and more entries into a new table. -/
  | recollect (more : List (Value × Value))

namespace Edit

/-- Performs a call. -/
def apply : Edit → Table → Table
  | insert key value, table => (table.insert key value).2
  | replace key value, table => (table.replace? key value).getD table
  | replaceText name value, table => (table.replaceText? name value).getD table
  | assignAll new, table => table.assignAll new
  | removeText name, table => (table.removeText name).2
  | entry name default none, table => table.ensureText name default
  | entry name default (some value), table =>
    ((table.ensureText name default).replaceText? name value).getD (table.ensureText name default)
  | recollect more, table => ofList (table ++ more)

/-- The writes that a call comes to. -/
def writes : Edit → List Write
  | insert key value => [.store key value]
  | replace key value => [.assign key value]
  | replaceText name value => [.assign (text name) value]
  | assignAll new => [.assignAll new]
  | removeText name => [.drop name]
  | entry name default none => [.ensure name default]
  | entry name default (some value) => [.ensure name default, .assign (text name) value]
  | recollect more => more.map fun e => .store e.1 e.2

/-- The keys that a call brings are well-formed. -/
def KeysWellFormed : Edit → Prop
  | insert key _ | replace key _ => key.WellFormed
  | recollect more => ∀ e ∈ more, e.1.WellFormed
  | replaceText .. | assignAll _ | removeText _ | entry .. => True

lemma KeysWellFormed.writes {edit : Edit} (h : edit.KeysWellFormed) :
    ∀ write ∈ edit.writes, write.KeyWellFormed := by
  cases edit with
  | insert key value => simpa [Edit.writes, Write.KeyWellFormed, KeysWellFormed] using h
  | replace key value => simpa [Edit.writes, Write.KeyWellFormed, KeysWellFormed] using h
  | replaceText name value =>
    simpa [Edit.writes, Write.KeyWellFormed] using Value.WellFormed.scalar _
  | assignAll new => simp [Edit.writes, Write.KeyWellFormed]
  | removeText name => simp [Edit.writes, Write.KeyWellFormed]
  | entry name default assigned =>
    cases assigned with
    | none => simp [Edit.writes, Write.KeyWellFormed]
    | some value => simpa [Edit.writes, Write.KeyWellFormed] using Value.WellFormed.scalar _
  | recollect more =>
    intro write hwrite
    obtain ⟨e, he, rfl⟩ := List.mem_map.1 hwrite
    exact h e he

lemma foldl_store (entries : List (Value × Value)) (table : Table) :
    (entries.map fun e => Write.store e.1 e.2).foldl (fun table write => write.apply table) table =
      entries.foldl (fun table e => table.put e.1 e.2) table := by
  rw [List.foldl_map]
  rfl

/-- A call does what its writes do; collecting anew relies on the keys being distinct. -/
lemma apply_eq_writes (edit : Edit) {table : Table} (h : table.Distinct) :
    edit.apply table = edit.writes.foldl (fun table write => write.apply table) table := by
  cases edit with
  | insert key value => rfl
  | replace key value => rfl
  | replaceText name value => simp [apply, writes, Write.apply, replaceText?_eq]
  | assignAll new => rfl
  | removeText name => rfl
  | entry name default assigned =>
    cases assigned with
    | none => rfl
    | some value => simp [apply, writes, Write.apply, replaceText?_eq]
  | recollect more => rw [apply, writes, foldl_store, ofList_append, h.ofList_self]

end Edit

/-- Performs calls in turn. -/
def run (edits : List Edit) (table : Table) : Table :=
  edits.foldl (fun table edit => edit.apply table) table

/-- The history of a table that was collected from entries and then edited. -/
def history (entries : List (Value × Value)) (edits : List Edit) : List Write :=
  (entries.map fun e => .store e.1 e.2) ++ edits.flatMap Edit.writes

/-- A chain of calls keeps a table in line with its history. -/
lemma Tracks.run {before : List Write} {table : Table} (h : Tracks before table)
    {edits : List Edit} (hedits : ∀ edit ∈ edits, edit.KeysWellFormed) :
    Tracks (before ++ edits.flatMap Edit.writes) (run edits table) := by
  induction edits generalizing before table with
  | nil => simpa [Table.run] using h
  | cons edit rest ih =>
    obtain ⟨hedit, hrest⟩ := List.forall_mem_cons.1 hedits
    have hstep := h.writes hedit.writes
    rw [← edit.apply_eq_writes h.keyed.distinct] at hstep
    simpa [Table.run] using ih hstep hrest

theorem tracks_run {entries : List (Value × Value)} (hentries : ∀ e ∈ entries, e.1.WellFormed)
    {edits : List Edit} (hedits : ∀ edit ∈ edits, edit.KeysWellFormed) :
    Tracks (history entries edits) (run edits (ofList entries)) := by
  have hcollected : Tracks (entries.map fun e => Write.store e.1 e.2) (ofList entries) := by
    have hstores : ∀ write ∈ entries.map fun e => Write.store e.1 e.2, write.KeyWellFormed := by
      intro write hwrite
      obtain ⟨e, he, rfl⟩ := List.mem_map.1 hwrite
      exact hentries e he
    have h := tracks_nil.writes hstores
    rwa [Edit.foldl_store] at h
  exact hcollected.run hedits

/-! ## Finite maps -/

/-- A table is the finite map that a history of writes leaves. -/
structure MapOf (history : List Write) (table : Table) : Prop where
  /-- No two keys are equal, either way round. -/
  distinct : ∀ (i j : Nat) (e f : Value × Value), table[i]? = some e → table[j]? = some f → i ≠ j →
    e.1.equal f.1 = false
  /-- The keys come in the order of their births, in the form in which they were born. -/
  order : table.map Prod.fst = keysAfter history
  /-- Look-up gives the value last written under an equal key. -/
  get : ∀ key : Value, key.WellFormed → table.get? key = valueAfter? history key
  /-- Look-up by text is look-up of the string. -/
  text : ∀ name : String, table.getText? name = table.get? (Value.text name) ∧
    table.containsText name = (table.get? (Value.text name)).isSome
  /-- Insertion returns the value that was there and touches no entry under an unequal key. -/
  insert : ∀ key value : Value, key.WellFormed →
    (table.insert key value).1 = valueAfter? history key ∧
      Inserted key value table (table.insert key value)
  /-- Removal returns the value that was there and touches no other entry. -/
  remove : ∀ name : String,
    (table.removeText name).1 = valueAfter? history (Value.text name) ∧
      Removed name table (table.removeText name)
  /-- A key in which a number that is not a number occurs is never found, and is added each time. -/
  nan : ∀ key : Value, key.WellFormed → key.HasNaN →
    table.get? key = none ∧ ∀ value, table.insert key value = (none, table ++ [(key, value)])
  /-- Collecting the entries again gives back the table. -/
  collect : ofList table = table

lemma Tracks.mapOf {history : List Write} {table : Table} (h : Tracks history table) :
    MapOf history table where
  distinct i j e f he hf hne := by
    obtain ⟨hi, rfl⟩ := List.getElem?_eq_some_iff.1 he
    obtain ⟨hj, rfl⟩ := List.getElem?_eq_some_iff.1 hf
    have hpairs := List.pairwise_iff_getElem.1 h.keyed.distinct
    rcases Nat.lt_or_gt_of_ne hne with hlt | hgt
    · exact hpairs i j hi hj hlt
    · refine Bool.eq_false_iff.2 fun hequal => ?_
      have hsymm := Value.equal_symm (h.keyed.wellFormed _ (List.getElem_mem hi))
        (h.keyed.wellFormed _ (List.getElem_mem hj)) hequal
      rw [hpairs j i hj hi hgt] at hsymm
      cases hsymm
  order := h.keys
  get := h.value
  text name := by
    rw [containsText, get?_text]
    exact ⟨rfl, rfl⟩
  insert key value hkey := by
    rw [insert_fst, h.value key hkey]
    exact ⟨rfl, h.keyed.inserted hkey value⟩
  remove name := by
    rw [removeText_fst, ← get?_text, h.value _ (.scalar _)]
    exact ⟨rfl, h.keyed.removed name⟩
  nan key hkey hnan := by
    have hnone := h.keyed.get?_of_hasNaN hkey hnan
    refine ⟨hnone, fun value => Prod.ext ?_ (put_of_absent hnone value)⟩
    rw [insert_fst, hnone]
  collect := h.keyed.distinct.ofList_self

/-- Whatever calls are made on a table, from whatever collection, the table is the finite map that
the history of its writes leaves. -/
theorem mapOf_run {entries : List (Value × Value)} (hentries : ∀ e ∈ entries, e.1.WellFormed)
    {edits : List Edit} (hedits : ∀ edit ∈ edits, edit.KeysWellFormed) :
    MapOf (history entries edits) (run edits (ofList entries)) :=
  (tracks_run hentries hedits).mapOf

/-- A collection with a nested key twice, in two forms that are equal. -/
def nestedCollection : List (Value × Value) :=
  [(.seq [.float (Double.zero false)], .int 1), (.text "a", .int 2),
    (.seq [.float (Double.zero true)], .int 3)]

/-- Edits that bring a key that is no number twice, and drop a key and bring it back. -/
def nestedEdits : List Edit :=
  [.insert (.float Double.nan) (.int 4), .recollect [(.float Double.nan, .int 5)],
    .removeText "a", .entry "b" .null (some (.int 6)), .insert (.text "a") (.int 7),
    .assignAll fun i => if i = 1 then some (.int 8) else none,
    .replace (.seq [.float (Double.zero true)]) (.int 9)]

/-- The collection and the edits together. -/
theorem mapOf_run_nested :
    (∀ e ∈ nestedCollection, e.1.WellFormed) ∧ (∀ edit ∈ nestedEdits, edit.KeysWellFormed) ∧
      MapOf (history nestedCollection nestedEdits)
        (run nestedEdits (ofList nestedCollection)) := by
  have hentries : ∀ e ∈ nestedCollection, e.1.WellFormed := by decide +kernel
  have hzero : (Value.seq [.float (Double.zero true)]).WellFormed := by decide +kernel
  have hedits : ∀ edit ∈ nestedEdits, edit.KeysWellFormed := by
    simp [nestedEdits, Edit.KeysWellFormed, Value.WellFormed.scalar, hzero]
  exact ⟨hentries, hedits, mapOf_run hentries hedits⟩

example : run nestedEdits (ofList nestedCollection) =
    [(.seq [.float (Double.zero false)], .int 9), (.float Double.nan, .int 8),
      (.float Double.nan, .int 5), (.text "b", .int 6), (.text "a", .int 7)] := by
  decide +kernel

example : keysAfter (history nestedCollection nestedEdits) =
    [.seq [.float (Double.zero false)], .float Double.nan, .float Double.nan, .text "b",
      .text "a"] := by
  decide +kernel

end Table

end PropertyTree
