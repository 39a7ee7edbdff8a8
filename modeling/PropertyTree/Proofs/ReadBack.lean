import PropertyTree.Proofs.Delivery
import PropertyTree.Proofs.TableLaws

/-!
# Property trees that are saved and read back

A document has one kind of map, so a saved tree does not say which kind a mapping was, and the
reader chooses by the keys: a mapping all of whose keys are strings comes back string-keyed.
`Value.asRead` is the tree after this change.  It is what is read back, unless two keys of a mapping
become equal by the change, in which case the reader would take them for one (`Value.KeysStayApart`
rules this out).

A tree that was read has the form that comes back (`settled_of_value?`): wherever it has an
any-keyed mapping, some key of it is no string.

## Main statements

* `value?_of_delivers`: what is read of a saved tree.
* `comesBackAs_asRead`: this changes the kinds of mappings, and not their entries.
* `settled_of_value?`: it does not change a tree that was read.
-/

namespace PropertyTree

/-- A step along two lists may use which member it is at. -/
lemma forall₂_imp_of_mem {α β : Type} {R S : α → β → Prop} {as : List α} {bs : List β}
    (h : List.Forall₂ R as bs) (himp : ∀ b ∈ bs, ∀ a, R a b → S a b) : List.Forall₂ S as bs := by
  induction h with
  | nil => exact .nil
  | cons hab _ ih =>
    obtain ⟨hfirst, hrest⟩ := List.forall_mem_cons.1 himp
    exact .cons (hfirst _ hab) (ih hrest)

/-- Two maps over a list are related if their results are, member by member. -/
lemma forall₂_map_map {α β γ : Type} {R : β → γ → Prop} {f : α → β} {g : α → γ} {as : List α}
    (h : ∀ a ∈ as, R (f a) (g a)) : List.Forall₂ R (as.map f) (as.map g) := by
  rw [List.forall₂_map_left_iff, List.forall₂_map_right_iff]
  exact List.forall₂_same.2 h

namespace Value

/-! ## The tree that is read back -/

/-- Entries as fields, if all keys are strings. -/
def textFields? (entries : Table) : Option (List (String × Value)) :=
  entries.mapM fun e => e.1.text?.map (·, e.2)

/-- The mapping of entries: string-keyed if all keys are strings, and any-keyed otherwise. -/
def mappingOf (entries : Table) : Value :=
  match textFields? entries with
  | some fields => strMap (Fields.ofList fields)
  | none => anyMap entries

mutual

/-- The tree with every any-keyed mapping turned string-keyed whose keys are strings. -/
def asRead : Value → Value
  | scalar s => scalar s
  | seq items => seq (asReadItems items)
  | strMap fields => strMap (asReadFields fields)
  | anyMap entries => mappingOf (asReadEntries entries)

/-- Items with their mappings turned. -/
def asReadItems : List Value → List Value
  | [] => []
  | item :: rest => item.asRead :: asReadItems rest

/-- Fields with their mappings turned. -/
def asReadFields : List (String × Value) → List (String × Value)
  | [] => []
  | (key, value) :: rest => (key, value.asRead) :: asReadFields rest

/-- Entries with their mappings turned, in keys too. -/
def asReadEntries : List (Value × Value) → List (Value × Value)
  | [] => []
  | (key, value) :: rest => (key.asRead, value.asRead) :: asReadEntries rest

end

lemma asReadItems_eq_map (items : List Value) : asReadItems items = items.map asRead := by
  induction items with
  | nil => rfl
  | cons item rest ih => rw [asReadItems, ih, List.map_cons]

lemma asReadFields_eq_map (fields : List (String × Value)) :
    asReadFields fields = fields.map fun f => (f.1, f.2.asRead) := by
  induction fields with
  | nil => rfl
  | cons f rest ih => rw [asReadFields, ih, List.map_cons]

lemma asReadEntries_eq_map (entries : Table) :
    asReadEntries entries = entries.map fun e => (e.1.asRead, e.2.asRead) := by
  induction entries with
  | nil => rfl
  | cons e rest ih => rw [asReadEntries, ih, List.map_cons]

lemma asRead_seq (items : List Value) : (seq items).asRead = seq (items.map asRead) := by
  rw [asRead, asReadItems_eq_map]

lemma asRead_strMap (fields : List (String × Value)) :
    (strMap fields).asRead = strMap (fields.map fun f => (f.1, f.2.asRead)) := by
  rw [asRead, asReadFields_eq_map]

lemma asRead_anyMap (entries : Table) :
    (anyMap entries).asRead = mappingOf (entries.map fun e => (e.1.asRead, e.2.asRead)) := by
  rw [asRead, asReadEntries_eq_map]

/-- No two keys of a mapping become equal by the change, throughout a tree. -/
inductive KeysStayApart : Value → Prop
  | scalar (s : Scalar) : KeysStayApart (scalar s)
  | seq {items : List Value} (items_ok : ∀ x ∈ items, KeysStayApart x) : KeysStayApart (seq items)
  | strMap {fields : List (String × Value)} (children : ∀ f ∈ fields, KeysStayApart f.2) :
      KeysStayApart (strMap fields)
  | anyMap {entries : Table}
      (distinct : entries.Pairwise fun a b => a.1.asRead.equal b.1.asRead = false)
      (keys : ∀ e ∈ entries, KeysStayApart e.1) (children : ∀ e ∈ entries, KeysStayApart e.2) :
      KeysStayApart (anyMap entries)

/-- The second tree is the first one with this change and no other: an any-keyed mapping all of
whose keys are strings, also an empty one, has become string-keyed with the same entries.  All other
mappings keep their kind and the order of their entries. -/
inductive ComesBackAs : Value → Value → Prop
  | scalar (s : Scalar) : ComesBackAs (scalar s) (scalar s)
  | seq {items after : List Value} (parts : List.Forall₂ ComesBackAs items after) :
      ComesBackAs (seq items) (seq after)
  | strMap {fields after : List (String × Value)}
      (keys : fields.map Prod.fst = after.map Prod.fst)
      (values : List.Forall₂ ComesBackAs (fields.map Prod.snd) (after.map Prod.snd)) :
      ComesBackAs (strMap fields) (strMap after)
  | anyMap {entries after : Table} (other : ∃ k ∈ entries.map Prod.fst, k.text? = none)
      (keys : List.Forall₂ ComesBackAs (entries.map Prod.fst) (after.map Prod.fst))
      (values : List.Forall₂ ComesBackAs (entries.map Prod.snd) (after.map Prod.snd)) :
      ComesBackAs (anyMap entries) (anyMap after)
  | turned {entries : Table} {fields after : List (String × Value)}
      (texts : entries.map Prod.fst = (fields.map Prod.fst).map text)
      (values : List.Forall₂ ComesBackAs (entries.map Prod.snd) (fields.map Prod.snd))
      (same : after.Perm fields) (sorted : Fields.Sorted after) :
      ComesBackAs (anyMap entries) (strMap after)

/-! ## Entries of documents -/

lemma toDocuments_eq_map (items : List Value) : toDocuments items = items.map toDocument := by
  induction items with
  | nil => rfl
  | cons item rest ih => rw [toDocuments, ih, List.map_cons]

lemma toDocumentFields_eq_map (fields : List (String × Value)) :
    toDocumentFields fields = fields.map fun f => (f.1, f.2.toDocument) := by
  induction fields with
  | nil => rfl
  | cons f rest ih => rw [toDocumentFields, ih, List.map_cons]

/-- Values are written before or after the fields are put in order. -/
lemma toDocument_strMap (fields : List (String × Value)) :
    (strMap fields).toDocument =
      .map ((Fields.ofList fields).map fun f => (.text f.1, f.2.toDocument)) := by
  rw [toDocument, toDocumentFields_eq_map, Fields.ofList_map, List.map_map]
  rfl

lemma toDocumentEntries_eq_map (entries : Table) :
    toDocumentEntries entries = entries.map fun e => (e.1.toDocument, e.2.toDocument) := by
  induction entries with
  | nil => rfl
  | cons e rest ih => rw [toDocumentEntries, ih, List.map_cons]

end Value

namespace Reading

lemma values?_eq_mapM (nodes : List Reading) : values? nodes = nodes.mapM value? := by
  induction nodes with
  | nil => rfl
  | cons node rest ih => rw [values?, ih, List.mapM_cons]

/-- The value of an entry of a map. -/
def valueEntry? (e : Reading × Reading) : Option (Value × Value) := do
  return (← e.1.value?, ← e.2.value?)

lemma valueEntries?_eq_mapM (nodes : List (Reading × Reading)) :
    valueEntries? nodes = nodes.mapM valueEntry? := by
  induction nodes with
  | nil => rfl
  | cons e rest ih =>
    simp [valueEntries?, valueEntry?, ih, List.mapM_cons, Option.bind_assoc]

end Reading

namespace Value

variable {entries : Table} {fields : List (String × Value)} {node : Reading} {v : Value}

/-! ## What the reader makes of entries -/

lemma textFields?_texts (fields : List (String × Value)) :
    textFields? (fields.map fun f => (text f.1, f.2)) = some fields := by
  rw [textFields?, mapM_eq_some_iff, List.forall₂_map_left_iff]
  exact List.forall₂_same.2 fun f _ => rfl

lemma textFields?_cons (e : Value × Value) (rest : Table) :
    textFields? (e :: rest) =
      e.1.text?.bind fun key => (textFields? rest).map fun fields => (key, e.2) :: fields := by
  rw [textFields?, List.mapM_cons, ← textFields?]
  cases e.1.text? with
  | none => rfl
  | some key => cases textFields? rest <;> rfl

lemma textFields?_eq_none_iff :
    textFields? entries = none ↔ ∃ k ∈ entries.map Prod.fst, k.text? = none := by
  induction entries with
  | nil => simp [textFields?]
  | cons e rest ih =>
    rw [textFields?_cons, List.map_cons, List.exists_mem_cons_iff, ← ih]
    cases e.1.text? <;> simp

lemma ofEntries_eq (entries : Table) : ofEntries entries = match textFields? entries with
    | some fields => strMap (Fields.ofList fields)
    | none => anyMap (Table.ofList entries) :=
  rfl

lemma ofEntries_of_textFields? (h : textFields? entries = some fields) :
    ofEntries entries = strMap (Fields.ofList fields) := by
  rw [ofEntries_eq, h]

/-- Of distinct entries the reader makes their mapping. -/
lemma ofEntries_of_distinct (h : Table.Distinct entries) :
    ofEntries entries = mappingOf entries := by
  rw [ofEntries_eq, mappingOf, h.ofList_self]

/-- Of sorted fields the reader makes a string-keyed mapping with these fields. -/
lemma ofEntries_texts (h : Fields.Sorted fields) :
    ofEntries (fields.map fun f => (text f.1, f.2)) = strMap fields := by
  rw [ofEntries_of_textFields? (textFields?_texts fields), Fields.ofList_of_sorted h]

lemma arrivedInt_toInt (i : Int64) : Reading.arrivedInt i.toInt = .int i := by
  have hlt := i.toInt_lt
  have hle := i.le_toInt
  have hsame : Int64.ofInt i.toInt = i := Int64.ofInt_toInt i
  cases hi : i.toInt with
  | ofNat n =>
    rw [hi, Int.ofNat_eq_natCast] at hlt hsame
    rw [Reading.arrivedInt, if_pos (by omega), ← hsame]
    rfl
  | negSucc n =>
    rw [hi] at hle hsame
    rw [Reading.arrivedInt, if_pos (by omega), hsame]

/-- A leaf arrives as it was written. -/
lemma arrived_toAtom (s : Scalar) : Reading.arrived s.toAtom = s := by
  cases s with
  | int i => exact arrivedInt_toInt i
  | null | bool _ | float _ | text _ => rfl

/-! ## What the change keeps -/

lemma eq_of_textFields? (h : textFields? entries = some fields) :
    entries = fields.map fun f => (text f.1, f.2) := by
  have hforall := mapM_eq_some_iff.1 h
  clear h
  induction hforall with
  | nil => rfl
  | @cons e f _ _ hef _ ih =>
    obtain ⟨key, hkey, rfl⟩ := Option.map_eq_some_iff.1 hef
    rw [List.map_cons, ← ih, ← text?_eq_some_iff.1 hkey]

lemma text?_asRead (v : Value) : v.asRead.text? = v.text? := by
  cases v with
  | scalar s => rfl
  | seq items => rfl
  | strMap fields => rfl
  | anyMap entries =>
    rw [asRead_anyMap, mappingOf]
    split <;> rfl

/-- Keys that are strings after the change were these strings before. -/
lemma eq_texts_of_asRead {keys : List Value} {texts : List String}
    (h : keys.map asRead = texts.map text) : keys = texts.map text := by
  rw [← List.forall₂_eq_eq_eq, List.forall₂_map_left_iff, List.forall₂_map_right_iff] at h
  rw [← List.forall₂_eq_eq_eq, List.forall₂_map_right_iff]
  refine h.imp fun k s hks => ?_
  rw [← text?_eq_some_iff, ← text?_asRead, hks]
  rfl

/-- The tree that is read back is the tree with its mappings turned, and with no other change. -/
theorem comesBackAs_asRead (h : v.KeysStayApart) : v.ComesBackAs v.asRead := by
  induction v using byChildren with
  | scalar s => exact .scalar s
  | seq items ih =>
    cases h with | seq hitems =>
    rw [asRead_seq]
    refine .seq (List.forall₂_map_right_iff.2 (List.forall₂_same.2 fun x hx => ?_))
    exact ih x hx (hitems x hx)
  | strMap fields ih =>
    cases h with | strMap hfields =>
    rw [asRead_strMap]
    refine .strMap (by rw [List.map_map]; rfl) ?_
    rw [List.map_map]
    exact forall₂_map_map fun f hf => ih f hf (hfields f hf)
  | anyMap entries ih =>
    cases h with | anyMap distinct hkeys hvalues =>
    have hvalue : List.Forall₂ ComesBackAs (entries.map Prod.snd)
        ((entries.map fun e => (e.1.asRead, e.2.asRead)).map Prod.snd) := by
      rw [List.map_map]
      exact forall₂_map_map fun e he => (ih e he).2 (hvalues e he)
    rw [asRead_anyMap, mappingOf]
    cases htexts : textFields? (entries.map fun e => (e.1.asRead, e.2.asRead)) with
    | none =>
      obtain ⟨k, hk, hnone⟩ := textFields?_eq_none_iff.1 htexts
      rw [List.map_map] at hk
      obtain ⟨e, he, rfl⟩ := List.mem_map.1 hk
      refine .anyMap ⟨e.1, List.mem_map_of_mem he, (text?_asRead e.1).symm.trans hnone⟩ ?_ hvalue
      rw [List.map_map]
      exact forall₂_map_map fun e he => (ih e he).1 (hkeys e he)
    | some fields =>
      have hfields := eq_of_textFields? htexts
      have htexts : entries.map Prod.fst = (fields.map Prod.fst).map text := by
        refine eq_texts_of_asRead ?_
        have hkeys := congrArg (List.map Prod.fst) hfields
        simpa [Function.comp_def] using hkeys
      have hdistinct : Table.Distinct (fields.map fun f => (text f.1, f.2)) := by
        rw [← hfields]
        exact List.pairwise_map.2 distinct
      have hnodup : (fields.map Prod.fst).Nodup := by
        refine List.pairwise_map.2 ((List.pairwise_map.1 hdistinct).imp ?_)
        intro e f hne heq
        rw [heq, Table.text_equal_self] at hne
        cases hne
      rw [hfields, List.map_map] at hvalue
      exact .turned htexts hvalue (Fields.perm_ofList hnodup) (Fields.sorted_ofList fields)

/-! ## Reading what was saved -/

/-- Of a saved tree the reader makes the tree with its mappings turned, if no keys become equal. -/
theorem value?_of_delivers (hv : v.WellFormed) (hkeys : v.KeysStayApart)
    (h : node.Delivers v.toDocument) : node.value? = some v.asRead := by
  induction v using byChildren generalizing node with
  | scalar s =>
    rw [Reading.Delivers.value?_atom h, arrived_toAtom]
    rfl
  | seq items ih =>
    cases hv with | seq hitems =>
    cases hkeys with | seq hkeys =>
    rw [toDocument, toDocuments_eq_map] at h
    obtain ⟨nodes, rfl, hnodes⟩ := h.seq_cases
    rw [List.forall₂_map_right_iff] at hnodes
    have hvalues : Reading.values? nodes = some (items.map asRead) := by
      rw [Reading.values?_eq_mapM, mapM_eq_some_iff, List.forall₂_map_right_iff]
      exact forall₂_imp_of_mem hnodes fun x hx node hnode =>
        ih x hx (hitems x hx) (hkeys x hx) hnode
    rw [Reading.value?, hvalues, asRead_seq]
    rfl
  | strMap fields ih =>
    cases hv with | strMap sorted hfields =>
    cases hkeys with | strMap hkeys =>
    rw [toDocument_strMap, Fields.ofList_of_sorted sorted] at h
    obtain ⟨nodes, rfl, hnodes⟩ := h.map_cases
    rw [List.forall₂_map_right_iff] at hnodes
    have hsorted : Fields.Sorted (fields.map fun f => (f.1, f.2.asRead)) := by
      rw [Fields.Sorted, List.map_map]
      exact sorted
    have hvalues : Reading.valueEntries? nodes =
        some ((fields.map fun f => (f.1, f.2.asRead)).map fun f => (text f.1, f.2)) := by
      rw [Reading.valueEntries?_eq_mapM, mapM_eq_some_iff, List.map_map,
        List.forall₂_map_right_iff]
      refine forall₂_imp_of_mem hnodes fun f hf e he => ?_
      have hkey := Reading.Delivers.value?_atom he.1
      have hvalue := ih f hf (hfields f hf) (hkeys f hf) he.2
      rw [Reading.valueEntry?, hkey, hvalue]
      rfl
    rw [Reading.value?, hvalues, Option.map_some, ofEntries_texts hsorted, asRead_strMap]
  | anyMap entries ih =>
    cases hv with | anyMap _ hkeysOk hchildren =>
    cases hkeys with | anyMap distinct hkeys hvalues =>
    rw [toDocument, toDocumentEntries_eq_map] at h
    obtain ⟨nodes, rfl, hnodes⟩ := h.map_cases
    rw [List.forall₂_map_right_iff] at hnodes
    have hdistinct : Table.Distinct (entries.map fun e => (e.1.asRead, e.2.asRead)) :=
      List.pairwise_map.2 distinct
    have hpairs : Reading.valueEntries? nodes =
        some (entries.map fun e => (e.1.asRead, e.2.asRead)) := by
      rw [Reading.valueEntries?_eq_mapM, mapM_eq_some_iff, List.forall₂_map_right_iff]
      refine forall₂_imp_of_mem hnodes fun e he n hn => ?_
      have hkey := (ih e he).1 (hkeysOk e he) (hkeys e he) hn.1
      have hvalue := (ih e he).2 (hchildren e he) (hvalues e he) hn.2
      rw [Reading.valueEntry?, hkey, hvalue]
      rfl
    rw [Reading.value?, hpairs, Option.map_some, ofEntries_of_distinct hdistinct, asRead_anyMap]

/-! ## Trees that were read -/

/-- What is collected from entries are keys and values of the entries. -/
lemma mem_ofList {pairs : List (Value × Value)} {e : Value × Value} (h : e ∈ Table.ofList pairs) :
    (∃ p ∈ pairs, p.1 = e.1) ∧ ∃ p ∈ pairs, p.2 = e.2 := by
  induction pairs using List.reverseRecOn generalizing e with
  | nil => cases h
  | append_singleton pairs last ih =>
    have hput : e ∈ (Table.ofList pairs).put last.1 last.2 := by
      rwa [Table.ofList_append] at h
    have hold : ∀ {e}, e ∈ Table.ofList pairs → (∃ p ∈ pairs ++ [last], p.1 = e.1) ∧
        ∃ p ∈ pairs ++ [last], p.2 = e.2 := by
      intro e he
      obtain ⟨⟨p, hp, hkey⟩, ⟨q, hq, hvalue⟩⟩ := ih he
      exact ⟨⟨p, List.mem_append_left _ hp, hkey⟩, ⟨q, List.mem_append_left _ hq, hvalue⟩⟩
    have hlast : last ∈ pairs ++ [last] := List.mem_append_right _ (List.mem_singleton_self last)
    obtain ⟨hkey, hvalue⟩ := Table.mem_put hput
    constructor
    · rcases hkey with hkey | ⟨e', he', hkey⟩
      · exact ⟨last, hlast, hkey.symm⟩
      · rw [← hkey]
        exact (hold he').1
    · rcases hvalue with hvalue | he
      · exact ⟨last, hlast, hvalue.symm⟩
      · exact (hold he).2

/-- Entries with a key that is no string keep such a key when they are collected. -/
lemma exists_key_ofList {pairs : List (Value × Value)}
    (h : ∃ k ∈ pairs.map Prod.fst, k.text? = none) :
    ∃ k ∈ (Table.ofList pairs).map Prod.fst, k.text? = none := by
  induction pairs using List.reverseRecOn with
  | nil => simp at h
  | append_singleton pairs last ih =>
    have hput : Table.ofList (pairs ++ [last]) = (Table.ofList pairs).put last.1 last.2 :=
      Table.ofList_append pairs [last]
    rw [hput, Table.keys_put]
    obtain ⟨k, hk, hnone⟩ := h
    rw [List.map_append, List.map_singleton] at hk
    rcases List.mem_append.1 hk with hk | hk
    · obtain ⟨k, hk, hnone⟩ := ih ⟨k, hk, hnone⟩
      exact ⟨k, List.mem_append_left _ hk, hnone⟩
    · obtain rfl := List.mem_singleton.1 hk
      cases hget : (Table.ofList pairs).get? last.1 with
      | none => exact ⟨last.1, by simp, hnone⟩
      | some old =>
        -- an equal key is there already, and a string equals nothing but itself
        obtain ⟨e, he, hequal, -⟩ := Table.exists_of_get? hget
        refine ⟨e.1, List.mem_append_left _ (List.mem_map_of_mem he), ?_⟩
        cases htext : e.1.text? with
        | none => rfl
        | some s =>
          rw [text?_eq_some_iff.1 htext, text_equal_iff] at hequal
          rw [hequal] at hnone
          cases hnone

/-- A tree that comes back as it is. -/
structure Settled (v : Value) : Prop where
  wellFormed : v.WellFormed
  keysStayApart : v.KeysStayApart
  asRead_eq : v.asRead = v

lemma settled_scalar (s : Scalar) : (scalar s).Settled :=
  ⟨.scalar s, .scalar s, rfl⟩

/-- What the reader makes of entries comes back as it is, if the parts of the entries do. -/
lemma Settled.ofEntries {pairs : List (Value × Value)}
    (h : ∀ e ∈ pairs, e.1.Settled ∧ e.2.Settled) : (Value.ofEntries pairs).Settled := by
  have hwellFormed := WellFormed.ofEntries fun e he =>
    ⟨(h e he).1.wellFormed, (h e he).2.wellFormed⟩
  rw [ofEntries_eq] at hwellFormed ⊢
  cases htexts : textFields? pairs with
  | some fields =>
    rw [htexts] at hwellFormed
    have hfields : ∀ f ∈ Fields.ofList fields, f.2.Settled := by
      intro f hf
      obtain ⟨e, he, hfield⟩ := exists_of_mem_mapM htexts (Fields.mem_ofList hf)
      obtain ⟨key, -, rfl⟩ := Option.map_eq_some_iff.1 hfield
      exact (h e he).2
    refine ⟨hwellFormed, .strMap fun f hf => (hfields f hf).keysStayApart, ?_⟩
    rw [asRead_strMap, List.map_congr_left fun f hf => by rw [(hfields f hf).asRead_eq]]
    simp
  | none =>
    rw [htexts] at hwellFormed
    have hentries : ∀ e ∈ Table.ofList pairs, e.1.Settled ∧ e.2.Settled := by
      intro e he
      obtain ⟨⟨p, hp, hkey⟩, ⟨q, hq, hvalue⟩⟩ := mem_ofList he
      exact ⟨hkey ▸ (h p hp).1, hvalue ▸ (h q hq).2⟩
    have hsame : (Table.ofList pairs).map (fun e => (e.1.asRead, e.2.asRead)) =
        Table.ofList pairs := by
      rw [List.map_congr_left fun e he => by
        rw [(hentries e he).1.asRead_eq, (hentries e he).2.asRead_eq]]
      simp
    have hnone : textFields? (Table.ofList pairs) = none :=
      textFields?_eq_none_iff.2 (exists_key_ofList (textFields?_eq_none_iff.1 htexts))
    have hdistinct : Table.Distinct
        ((Table.ofList pairs).map fun e => (e.1.asRead, e.2.asRead)) := by
      rw [hsame]
      exact hwellFormed.distinct rfl
    refine ⟨hwellFormed, .anyMap (List.pairwise_map.1 hdistinct)
      (fun e he => (hentries e he).1.keysStayApart)
      (fun e he => (hentries e he).2.keysStayApart), ?_⟩
    rw [asRead_anyMap, hsame, mappingOf, hnone]

mutual

/-- A tree that was read comes back as it is. -/
theorem settled_of_value? : ∀ {node : Reading} {v : Value}, node.value? = some v → v.Settled
  | .atom a, _, h => by
    obtain rfl := Option.some.inj h
    exact settled_scalar _
  | .spelled .., _, h => by
    obtain ⟨a, -, rfl⟩ := Option.map_eq_some_iff.1 h
    exact settled_scalar _
  | .seq nodes, _, h => by
    obtain ⟨items, hitems, rfl⟩ := Option.map_eq_some_iff.1 h
    have hsettled := settled_of_values? hitems
    refine ⟨.seq fun x hx => (hsettled x hx).wellFormed,
      .seq fun x hx => (hsettled x hx).keysStayApart, ?_⟩
    rw [asRead_seq, List.map_congr_left fun x hx => (hsettled x hx).asRead_eq, List.map_id']
  | .map nodes, _, h => by
    obtain ⟨pairs, hpairs, rfl⟩ := Option.map_eq_some_iff.1 h
    exact .ofEntries (settled_of_valueEntries? hpairs)
  | .tagged _ content, _, h => @settled_of_value? content _ h
  | .absent, _, h => by
    obtain rfl := Option.some.inj h
    exact settled_scalar _
  | .unreadable, _, h => by cases h

/-- Items that were read come back as they are. -/
theorem settled_of_values? : ∀ {nodes : List Reading} {items : List Value},
    Reading.values? nodes = some items → ∀ x ∈ items, x.Settled
  | [], _, h => by
    obtain rfl := Option.some.inj h
    simp
  | node :: rest, _, h => by
    obtain ⟨first, hfirst, h⟩ := Option.bind_eq_some_iff.1 h
    obtain ⟨others, hothers, h⟩ := Option.bind_eq_some_iff.1 h
    obtain rfl := Option.some.inj h
    exact List.forall_mem_cons.2 ⟨settled_of_value? hfirst, settled_of_values? hothers⟩

/-- Entries that were read come back as they are. -/
theorem settled_of_valueEntries? : ∀ {nodes : List (Reading × Reading)}
    {pairs : List (Value × Value)}, Reading.valueEntries? nodes = some pairs →
    ∀ e ∈ pairs, e.1.Settled ∧ e.2.Settled
  | [], _, h => by
    obtain rfl := Option.some.inj h
    simp
  | (key, value) :: rest, _, h => by
    obtain ⟨k, hk, h⟩ := Option.bind_eq_some_iff.1 h
    obtain ⟨x, hx, h⟩ := Option.bind_eq_some_iff.1 h
    obtain ⟨others, hothers, h⟩ := Option.bind_eq_some_iff.1 h
    obtain rfl := Option.some.inj h
    exact List.forall_mem_cons.2
      ⟨⟨settled_of_value? hk, settled_of_value? hx⟩, settled_of_valueEntries? hothers⟩

end

end Value

end PropertyTree
