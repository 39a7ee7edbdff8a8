import PropertyTree.PatchSet.Text
import PropertyTree.Proofs.JsonTrees
import PropertyTree.Proofs.ReadTwice

/-!
# Two ways from a tree to a value

A value is read off a tree directly (`Reading.value?`), or the tree is kept as it is and converted
later: `Value.ofDocument` converts trees whose keys may be anything, and `Json.toValue` trees whose
objects have strings as keys.  The three recursions are independent of one another.  They choose
leaves by different tests of the same integers, and the last one makes string-keyed mappings without
looking at keys.

They agree on every tree.  Keys that differ in the tree may become equal as values, such as an
integer past the signed ones and the double nearest to it, or a key with a tag and one without; both
ways then keep the place of the first and the value of the last, since both collect the same
entries.

## Main statements

* `value?_toReading`: a tree is read directly as what it is converted to.
* `Json.Sorted.ofDocument_toDocument`: of a JSON tree both conversions make the same.
* `ofText?_of_ofTree?`: so it does not matter which way a text is read.
-/

namespace PropertyTree

/-! ## Leaves -/

lemma Reading.arrivedInt_eq_ofInt (n : Int) : Reading.arrivedInt n = Scalar.ofInt n := by
  cases n with
  | ofNat n =>
    have hdouble : Double.ofNat n = Double.ofInt n := by
      have hsign : decide ((n : Int) < 0) = false := decide_eq_false (by omega)
      rw [Double.ofNat, Double.ofInt, hsign, Int.natAbs_natCast]
    rw [Reading.arrivedInt, Scalar.ofInt, hdouble, Int.ofNat_eq_natCast]
    by_cases hn : n < 9223372036854775808
    · rw [if_pos hn, if_pos ⟨by omega, by omega⟩]
      rfl
    · rw [if_neg hn, if_neg (by omega)]
  | negSucc n =>
    rw [Reading.arrivedInt, Scalar.ofInt]
    by_cases hn : n < 9223372036854775808
    · rw [if_pos hn, if_pos ⟨by omega, by omega⟩]
    · rw [if_neg hn, if_neg (by omega)]

/-- Both ways take an atom for the same leaf. -/
lemma Reading.arrived_eq_ofAtom (a : Atom) : Reading.arrived a = Scalar.ofAtom a := by
  cases a with
  | int n => exact Reading.arrivedInt_eq_ofInt n
  | null | bool _ | float _ | text _ => rfl

namespace Value

/-! ## Any tree -/

mutual

/-- A tree that is handed over as it is gives the value that it is converted to. -/
lemma value?_toReading : ∀ d : Document, d.toReading.value? = some (ofDocument d)
  | .atom a => by
    rw [Document.toReading, Reading.value?, Reading.arrived_eq_ofAtom, ofDocument]
  | .seq items => by
    rw [Document.toReading, Reading.value?, values?_toReadings items, ofDocument]
    rfl
  | .map entries => by
    rw [Document.toReading, Reading.value?, valueEntries?_toReadingEntries entries, ofDocument]
    rfl
  | .tagged _ content => by
    rw [Document.toReading, Reading.value?, value?_toReading content, ofDocument]

/-- The values of items. -/
lemma values?_toReadings : ∀ items : List Document,
    Reading.values? (Document.toReadings items) = some (ofDocuments items)
  | [] => rfl
  | item :: rest => by
    rw [Document.toReadings, Reading.values?, value?_toReading item, values?_toReadings rest]
    rfl

/-- The values of entries. -/
lemma valueEntries?_toReadingEntries : ∀ entries : List (Document × Document),
    Reading.valueEntries? (Document.toReadingEntries entries) = some (ofDocumentEntries entries)
  | [] => rfl
  | (key, value) :: rest => by
    rw [Document.toReadingEntries, Reading.valueEntries?, value?_toReading key,
      value?_toReading value, valueEntries?_toReadingEntries rest]
    rfl

end

mutual

/-- A node that can be kept as a tree is read directly as what the tree is converted to. -/
lemma value?_of_document? : ∀ {node : Reading} {d : Document},
    node.document? = some d → node.value? = some (ofDocument d)
  | .atom a, _, h => by
    obtain rfl := Option.some.inj h
    rw [Reading.value?, Reading.arrived_eq_ofAtom, ofDocument]
  | .spelled .., _, h => by
    obtain ⟨a, ha, rfl⟩ := Option.map_eq_some_iff.1 h
    rw [Reading.value?, ha, ofDocument, Option.map_some, Reading.arrived_eq_ofAtom]
  | .seq nodes, _, h => by
    obtain ⟨items, hitems, rfl⟩ := Option.map_eq_some_iff.1 h
    rw [Reading.value?, values?_of_documents? hitems, ofDocument]
    rfl
  | .map nodes, _, h => by
    obtain ⟨entries, hentries, h⟩ := Option.bind_eq_some_iff.1 h
    rw [Record.eq_of_distinct? h, List.nil_append, Reading.value?,
      valueEntries?_of_documentEntries? hentries, ofDocument]
    rfl
  | .tagged tag content, _, h => by
    rw [Reading.document?] at h
    split at h
    case isTrue => cases h
    case isFalse =>
      obtain ⟨d, hd, rfl⟩ := Option.map_eq_some_iff.1 h
      rw [Reading.value?, value?_of_document? hd, ofDocument]
  | .absent, _, h => by
    obtain rfl := Option.some.inj h
    rfl
  | .unreadable, _, h => by cases h

/-- The values of items that can be kept. -/
lemma values?_of_documents? : ∀ {nodes : List Reading} {items : List Document},
    Reading.documents? nodes = some items → Reading.values? nodes = some (ofDocuments items)
  | [], _, h => by
    obtain rfl := Option.some.inj h
    rfl
  | node :: rest, _, h => by
    obtain ⟨first, hfirst, h⟩ := Option.bind_eq_some_iff.1 h
    obtain ⟨others, hothers, h⟩ := Option.bind_eq_some_iff.1 h
    obtain rfl := Option.some.inj h
    rw [Reading.values?, value?_of_document? hfirst, values?_of_documents? hothers]
    rfl

/-- The values of entries that can be kept. -/
lemma valueEntries?_of_documentEntries? : ∀ {nodes : List (Reading × Reading)}
    {entries : List (Document × Document)}, Reading.documentEntries? nodes = some entries →
    Reading.valueEntries? nodes = some (ofDocumentEntries entries)
  | [], _, h => by
    obtain rfl := Option.some.inj h
    rfl
  | (key, value) :: rest, _, h => by
    obtain ⟨k, hk, h⟩ := Option.bind_eq_some_iff.1 h
    obtain ⟨x, hx, h⟩ := Option.bind_eq_some_iff.1 h
    obtain ⟨others, hothers, h⟩ := Option.bind_eq_some_iff.1 h
    obtain rfl := Option.some.inj h
    rw [Reading.valueEntries?, value?_of_document? hk, value?_of_document? hx,
      valueEntries?_of_documentEntries? hothers]
    rfl

end

end Value

/-! ## JSON trees -/

namespace Json

/-- Every object of a tree has its members in the order of their keys, each key once. -/
inductive Sorted : Json → Prop
  | atom (a : Atom) : Sorted (atom a)
  | array {items : List Json} (items_ok : ∀ j ∈ items, Sorted j) : Sorted (array items)
  | object {members : List (String × Json)} (keys : Fields.Sorted members)
      (members_ok : ∀ m ∈ members, Sorted m.2) : Sorted (object members)

lemma toDocuments_eq_map (items : List Json) : toDocuments items = items.map toDocument := by
  induction items with
  | nil => rfl
  | cons item rest ih => rw [toDocuments, ih, List.map_cons]

lemma toDocumentEntries_eq_map (members : List (String × Json)) :
    toDocumentEntries members = members.map fun m => (.text m.1, m.2.toDocument) := by
  induction members with
  | nil => rfl
  | cons m rest ih => rw [toDocumentEntries, ih, List.map_cons]

lemma toValues_eq_map (items : List Json) : toValues items = items.map toValue := by
  induction items with
  | nil => rfl
  | cons item rest ih => rw [toValues, ih, List.map_cons]

lemma toFields_eq_map (members : List (String × Json)) :
    toFields members = members.map fun m => (m.1, m.2.toValue) := by
  induction members with
  | nil => rfl
  | cons m rest ih => rw [toFields, ih, List.map_cons]

end Json

namespace Value

lemma ofDocuments_eq_map (items : List Document) : ofDocuments items = items.map ofDocument := by
  induction items with
  | nil => rfl
  | cons item rest ih => rw [ofDocuments, ih, List.map_cons]

lemma ofDocumentEntries_eq_map (entries : List (Document × Document)) :
    ofDocumentEntries entries = entries.map fun e => (ofDocument e.1, ofDocument e.2) := by
  induction entries with
  | nil => rfl
  | cons e rest ih => rw [ofDocumentEntries, ih, List.map_cons]

end Value

namespace Json

open Value (ofDocument ofEntries)

/-- The members of an object are entries under strings, so the mapping of them is string-keyed;
sorted members stay as they are. -/
theorem Sorted.ofDocument_toDocument {j : Json} (h : j.Sorted) :
    ofDocument j.toDocument = j.toValue := by
  induction h with
  | atom a => rfl
  | @array items _ ih =>
    rw [toDocument, ofDocument, toValue, toDocuments_eq_map, Value.ofDocuments_eq_map,
      toValues_eq_map, List.map_map]
    exact congrArg Value.seq (List.map_congr_left ih)
  | @object members keys _ ih =>
    have hentries :
        (members.map fun m => (Value.text m.1, ofDocument m.2.toDocument)) =
          (members.map fun m => (m.1, m.2.toValue)).map fun f => (Value.text f.1, f.2) := by
      rw [List.map_map]
      exact List.map_congr_left fun m hm => by rw [ih m hm]; rfl
    rw [toDocument, ofDocument, toValue, toDocumentEntries_eq_map, Value.ofDocumentEntries_eq_map,
      List.map_map, toFields_eq_map]
    exact (congrArg ofEntries hentries).trans
      (Value.ofEntries_texts (Fields.sorted_map keys toValue))

lemma ofReadings?_eq_mapM (nodes : List Reading) : ofReadings? nodes = nodes.mapM ofReading? := by
  induction nodes with
  | nil => rfl
  | cons node rest ih => rw [ofReadings?, ih, List.mapM_cons]

/-- The member of an entry. -/
def ofReadingEntry? (e : Reading × Reading) : Option (String × Json) := do
  return (← e.1.text?, ← ofReading? e.2)

lemma ofReadingEntries?_eq_mapM (nodes : List (Reading × Reading)) :
    ofReadingEntries? nodes = nodes.mapM ofReadingEntry? := by
  induction nodes with
  | nil => rfl
  | cons e rest ih =>
    simp [ofReadingEntries?, ofReadingEntry?, ih, List.mapM_cons, Option.bind_assoc]

end Json

/-- What is computed from the members of a list one by one can be computed from the results of
another such computation. -/
lemma mapM_eq_some_map {α β γ : Type} {f : α → Option β} {g : α → Option γ} {t : β → γ}
    {as : List α} {bs : List β} (h : as.mapM f = some bs)
    (hfg : ∀ a ∈ as, ∀ b, f a = some b → g a = some (t b)) : as.mapM g = some (bs.map t) := by
  rw [mapM_eq_some_iff] at h ⊢
  rw [List.forall₂_map_right_iff]
  induction h with
  | nil => exact .nil
  | cons hab _ ih =>
    obtain ⟨hfirst, hrest⟩ := List.forall_mem_cons.1 hfg
    exact .cons (hfirst _ hab) (ih hrest)

namespace Reading

open Json (ofReading? ofReadingEntry?)

/-- A JSON tree that a text delivers can be kept with its members in order, and is read directly as
what the tree that is kept is converted to.  Of members under one key both ways take the last. -/
theorem IsJson.value?_of_ofReading? {node : Reading} {j : Json} (h : node.IsJson)
    (hj : ofReading? node = some j) : j.Sorted ∧ node.value? = some j.toValue := by
  induction h generalizing j with
  | unreadable => cases hj
  | @atom a _ =>
    obtain rfl := Option.some.inj hj
    exact ⟨.atom a, by rw [value?, arrived_eq_ofAtom, Json.toValue]⟩
  | @seq nodes _ ih =>
    obtain ⟨items, hitems, rfl⟩ := Option.map_eq_some_iff.1 hj
    rw [Json.ofReadings?_eq_mapM] at hitems
    refine ⟨.array fun item hitem => ?_, ?_⟩
    · obtain ⟨n, hn, hread⟩ := Value.exists_of_mem_mapM hitems hitem
      exact (ih n hn hread).1
    · have hvalues : values? nodes = some (items.map Json.toValue) := by
        rw [values?_eq_mapM]
        exact mapM_eq_some_map hitems fun n hn item hread => (ih n hn hread).2
      rw [value?, hvalues, Json.toValue, Json.toValues_eq_map]
      rfl
  | @map nodes keys _ ih =>
    obtain ⟨members, hmembers, rfl⟩ := Option.map_eq_some_iff.1 hj
    rw [Json.ofReadingEntries?_eq_mapM] at hmembers
    -- a member comes from an entry under its key
    have hentry : ∀ n ∈ nodes, ∀ m, ofReadingEntry? n = some m →
        m.2.Sorted ∧ valueEntry? n = some (Value.text m.1, m.2.toValue) := by
      intro n hn m hm
      obtain ⟨key, hkey, hm⟩ := Option.bind_eq_some_iff.1 hm
      obtain ⟨value, hvalue, hm⟩ := Option.bind_eq_some_iff.1 hm
      obtain rfl := Option.some.inj hm
      obtain ⟨hsorted, hread⟩ := ih n hn hvalue
      refine ⟨hsorted, ?_⟩
      rcases keys n hn with ⟨s, hs⟩ | hs
      · rw [hs] at hkey
        obtain rfl := Option.some.inj hkey
        rw [Reading.valueEntry?, hs, hread]
        rfl
      · rw [hs] at hkey
        cases hkey
    refine ⟨.object (Fields.sorted_ofList members) fun m hm => ?_, ?_⟩
    · obtain ⟨n, hn, hread⟩ := Value.exists_of_mem_mapM hmembers (Fields.mem_ofList hm)
      exact (hentry n hn m hread).1
    · have hentries : valueEntries? nodes =
          some ((members.map fun m => (m.1, m.2.toValue)).map fun f => (Value.text f.1, f.2)) := by
        rw [valueEntries?_eq_mapM, List.map_map]
        exact mapM_eq_some_map hmembers fun n hn m hread => (hentry n hn m hread).2
      rw [value?, hentries, Option.map_some,
        Value.ofEntries_of_textFields? (Value.textFields?_texts _), Json.toValue,
        Json.toFields_eq_map, Fields.ofList_map]

end Reading

namespace Value

/-! ## Texts, and the main statement -/

/-- A text that can be read as a tree is read directly as what the tree is converted to. -/
lemma ofText?_of_ofTree? {format : TextFormat} {text : String} {v : Value}
    (h : ofTree? format text = some v) : ofText? format text = some v := by
  cases format with
  | yaml =>
    obtain ⟨d, hd, rfl⟩ := Option.map_eq_some_iff.1 h
    obtain ⟨node, hnode, hd⟩ := Option.bind_eq_some_iff.1 hd
    exact Option.bind_eq_some_iff.2 ⟨node, hnode, value?_of_document? hd⟩
  | json =>
    obtain ⟨j, hj, rfl⟩ := Option.map_eq_some_iff.1 h
    obtain ⟨node, hnode, hj⟩ := Option.bind_eq_some_iff.1 hj
    have hread := (Json.isJson_of_read? hnode).value?_of_ofReading? hj
    exact Option.bind_eq_some_iff.2 ⟨node, hnode, hread.2⟩
  | toml => cases h

/-- Reading a tree directly and converting it are the same, for trees with any keys and for JSON
trees: the values are equal in every kind, order and number.  An integer is the same leaf either
way, whichever words it comes in.  So a text is read the same with and without a tree in between. -/
theorem direct_eq_converted (d : Document) {j : Json} (hj : j.Sorted) (word : Word) :
    d.toReading.value? = some (ofDocument d) ∧
      j.toDocument.toReading.value? = some j.toValue ∧
      (Reading.arrived (.int word.toInt) = word.leaf ∧
        Scalar.ofAtom (.int word.toInt) = word.leaf) ∧
      ∀ (format : TextFormat) (text : String) (v : Value), ofTree? format text = some v →
        ofText? format text = some v := by
  have hword := word.arrived_toInt
  refine ⟨value?_toReading d, ?_, ⟨hword, ?_⟩, fun format text v => ofText?_of_ofTree?⟩
  · rw [value?_toReading, hj.ofDocument_toDocument]
  · rw [← Reading.arrived_eq_ofAtom, hword]

/-- Six keys of which three are left: an integer past the signed ones and its double, a string with
a tag and without, and a mapping with a tag inside and without. -/
def collidingKeys : Document :=
  .map [(.atom (.int 9223372036854775808), .tagged "b" (.atom .null)),
    (.tagged "a" (.text "k"), .atom (.int 1)),
    (.map [(.tagged "c" (.text "x"), .seq [])], .atom (.bool true)),
    (.atom (.float (Double.ofNat 9223372036854775808)), .text "later"),
    (.text "k", .atom (.int 2)),
    (.map [(.text "x", .seq [])], .atom (.bool false))]

/-- An object with an empty one in it, and the largest integer of 64 bits. -/
def nestedObject : Json :=
  .object [("a", .array [.atom (.int 18446744073709551615), .object []]), ("b", .atom .null)]

/-- Keys that become equal keep the place of the first and take the value of the last. -/
theorem direct_eq_converted_collidingKeys :
    nestedObject.Sorted ∧
      collidingKeys.toReading.value? = some (anyMap
        [(float (Double.ofNat 9223372036854775808), text "later"), (text "k", int 2),
          (strMap [("x", seq [])], bool false)]) ∧
      nestedObject.toDocument.toReading.value? = some (strMap
        [("a", seq [float (Double.ofNat 18446744073709551615), strMap []]), ("b", null)]) := by
  have hj : nestedObject.Sorted := by
    have hempty : (Json.object []).Sorted := .object .nil (by simp)
    have hinner : (Json.array [.atom (.int 18446744073709551615), .object []]).Sorted :=
      .array (by simp [hempty, Json.Sorted.atom])
    have hkeys : "a" < "b" := by decide +kernel
    exact .object (List.pairwise_pair.2 hkeys) (by simp [hinner, Json.Sorted.atom])
  obtain ⟨htree, hjson, -⟩ :=
    direct_eq_converted collidingKeys hj (.unsigned 18446744073709551615)
  refine ⟨hj, htree.trans (congrArg some ?_), hjson.trans (congrArg some ?_)⟩
  · decide +kernel
  · decide +kernel

end Value

end PropertyTree
