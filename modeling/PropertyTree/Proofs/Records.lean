import Mathlib.Data.List.Forall2
import Mathlib.Data.List.Induction
import PropertyTree.Manifest.Document
import PropertyTree.Proofs.SortedFields
import PropertyTree.Proofs.WellFormed

/-!
# What reading a record comes to

`Record.ofEntries?` is a fold that can fail.  `Record.ofEntries?_eq_some_iff` says what it comes to:
all keys are text, no field that the record knows is repeated, and the entries are split by whether
the record knows them, each part in its order.  The records of a manifest are then described by what
their readers ask of the split (`Job.read?_eq_some_iff` and the others), and nothing after this
module opens a reader again.

What is kept of the other entries are documents that survive being read once more
(`Record.kept?_eq_some_iff`).
-/

namespace PropertyTree

/-- Reading every item succeeds if every reading does, and gives the results in order. -/
lemma mapM_eq_some_iff {α β : Type} {f : α → Option β} {as : List α} {bs : List β} :
    as.mapM f = some bs ↔ List.Forall₂ (fun a b => f a = some b) as bs := by
  induction as generalizing bs with
  | nil => cases bs <;> simp
  | cons a rest ih =>
    rw [List.mapM_cons]
    constructor
    · intro h
      obtain ⟨b, hb, h⟩ := Option.bind_eq_some_iff.1 h
      obtain ⟨bs', hbs', h⟩ := Option.bind_eq_some_iff.1 h
      obtain rfl : b :: bs' = bs := by simpa using h
      exact .cons hb (ih.1 hbs')
    · rintro (_ | ⟨hb, hrest⟩)
      simp [hb, ih.2 hrest]

/-- The document with some fields. -/
def Document.ofFields (fields : List (String × Document)) : Document :=
  .map (fields.map fun f => fieldOf f.1 f.2)

namespace Record

variable {names : List String} {entries : List (Reading × Reading)} {record : Record}
  {fields : List (String × Reading)} {key : String}

/-! ## The split -/

/-- Entries with their keys as text. -/
def texts? (entries : List (Reading × Reading)) : Option (List (String × Reading)) :=
  entries.mapM fun e => e.1.text?.map (·, e.2)

/-- The entries that a record knows, and the others. -/
def split (names : List String) (fields : List (String × Reading)) : Record :=
  ⟨fields.filter fun e => names.contains e.1, fields.filter fun e => !names.contains e.1⟩

/-- No field that the record knows is repeated. -/
def KnownOnce (record : Record) : Prop :=
  (record.known.map Prod.fst).Nodup

/-- Entries that the record knows come apart from others that it does not know. -/
lemma split_append {before after : List (String × Reading)}
    (hbefore : ∀ e ∈ before, e.1 ∈ names) (hafter : ∀ e ∈ after, e.1 ∉ names) :
    split names (before ++ after) = ⟨before, after⟩ := by
  have hknown : before.filter (fun e => names.contains e.1) = before :=
    List.filter_eq_self.2 fun e he => by simpa using hbefore e he
  have hknown' : after.filter (fun e => names.contains e.1) = [] :=
    List.filter_eq_nil_iff.2 fun e he => by simpa using hafter e he
  have hothers : before.filter (fun e => !names.contains e.1) = [] :=
    List.filter_eq_nil_iff.2 fun e he => by simpa using hbefore e he
  have hothers' : after.filter (fun e => !names.contains e.1) = after :=
    List.filter_eq_self.2 fun e he => by simpa using hafter e he
  rw [split, List.filter_append, List.filter_append, hknown, hknown', hothers, hothers',
    List.append_nil, List.nil_append]

/-- One more entry makes a split longer, in one of its parts. -/
lemma split_concat (names : List String) (fields : List (String × Reading)) (e : String × Reading) :
    split names (fields ++ [e]) =
      if names.contains e.1 then
        ⟨(split names fields).known ++ [e], (split names fields).others⟩
      else ⟨(split names fields).known, (split names fields).others ++ [e]⟩ := by
  by_cases hkey : names.contains e.1
  · simp only [split, List.filter_append, hkey, List.filter_cons, List.filter_nil, if_true,
      Bool.not_true, Bool.false_eq_true, if_false, List.append_nil]
  · simp only [split, List.filter_append, hkey, List.filter_cons, List.filter_nil, if_true,
      Bool.not_false, Bool.false_eq_true, if_false, List.append_nil]

/-- One more entry is taken unless it repeats a field. -/
lemma add?_split (h : (split names fields).KnownOnce) (value : Reading) :
    (split names fields).add? names key value = some record ↔
      (split names (fields ++ [(key, value)])).KnownOnce ∧
        record = split names (fields ++ [(key, value)]) := by
  rw [split_concat, add?]
  split
  case isFalse =>
    constructor
    · intro hsome
      exact ⟨h, (Option.some.inj hsome).symm⟩
    · rintro ⟨-, rfl⟩
      rfl
  case isTrue =>
    have hany : (split names fields).known.any (·.1 == key) = true ↔
        key ∈ (split names fields).known.map Prod.fst := by
      simp
    have honce : KnownOnce ⟨(split names fields).known ++ [(key, value)],
        (split names fields).others⟩ ↔ key ∉ (split names fields).known.map Prod.fst := by
      have hknown : ((split names fields).known.map Prod.fst).Nodup := h
      rw [KnownOnce, List.map_append, List.map_singleton, List.nodup_append]
      constructor
      · rintro ⟨-, -, hne⟩ hmem
        exact hne key hmem key (List.mem_singleton_self key) rfl
      · intro hnew
        refine ⟨hknown, List.pairwise_singleton _ _, fun k hk l hl => ?_⟩
        rw [List.mem_singleton.1 hl]
        rintro rfl
        exact hnew hk
    split
    case isTrue hrepeated =>
      rw [hany] at hrepeated
      simp [honce, hrepeated]
    case isFalse hnew =>
      rw [hany] at hnew
      simp [honce, hnew, eq_comm]

lemma texts?_concat (entries : List (Reading × Reading)) (e : Reading × Reading) :
    texts? (entries ++ [e]) =
      (texts? entries).bind fun fields => e.1.text?.map fun key => fields ++ [(key, e.2)] := by
  rw [texts?, List.mapM_append, ← texts?]
  cases texts? entries with
  | none => rfl
  | some fields => cases he : e.1.text? <;> simp [he]

lemma ofEntries?_concat (names : List String) (entries : List (Reading × Reading))
    (e : Reading × Reading) :
    ofEntries? names (entries ++ [e]) =
      (ofEntries? names entries).bind fun record =>
        e.1.text?.bind fun key => record.add? names key e.2 := by
  rw [ofEntries?, List.foldlM_append, ← ofEntries?]
  cases ofEntries? names entries with
  | none => rfl
  | some record => cases he : e.1.text? <;> simp [he]

/-- Reading the entries of a record is splitting them, if their keys are text and no field is
repeated. -/
theorem ofEntries?_eq_some_iff :
    ofEntries? names entries = some record ↔
      ∃ fields, texts? entries = some fields ∧ (split names fields).KnownOnce ∧
        record = split names fields := by
  induction entries using List.reverseRecOn generalizing record with
  | nil =>
    constructor
    · intro h
      exact ⟨[], rfl, List.nodup_nil, (Option.some.inj h).symm⟩
    · rintro ⟨fields, hfields, -, rfl⟩
      obtain rfl : [] = fields := by simpa [texts?] using hfields
      rfl
  | append_singleton entries e ih =>
    rw [ofEntries?_concat, texts?_concat]
    constructor
    · intro h
      obtain ⟨before, hbefore, h⟩ := Option.bind_eq_some_iff.1 h
      obtain ⟨key, hkey, h⟩ := Option.bind_eq_some_iff.1 h
      obtain ⟨fields, hfields, honce, rfl⟩ := ih.1 hbefore
      obtain ⟨honce', rfl⟩ := (add?_split honce e.2).1 h
      exact ⟨fields ++ [(key, e.2)], by simp [hfields, hkey], honce', rfl⟩
    · rintro ⟨after, hafter, honce, rfl⟩
      obtain ⟨fields, hfields, hafter⟩ := Option.bind_eq_some_iff.1 hafter
      obtain ⟨key, hkey, rfl⟩ := Option.map_eq_some_iff.1 hafter
      have honce' : (split names fields).KnownOnce := by
        rw [split_concat] at honce
        split at honce
        case isTrue =>
          rw [KnownOnce, List.map_append] at honce
          exact (List.nodup_append.1 honce).1
        case isFalse => exact honce
      rw [ih.2 ⟨fields, hfields, honce', rfl⟩, hkey]
      exact (add?_split honce' e.2).2 ⟨honce, rfl⟩

/-! ## The entries that are kept -/

section Documents

variable {document : Document} {documents : List Document}
  {pairs : List (Document × Document)}

lemma eq_of_distinct? {before : List (Document × Document)}
    (h : Reading.distinct? before pairs = some document) : document = .map (before ++ pairs) := by
  induction pairs generalizing before with
  | nil => simpa [Reading.distinct?] using h.symm
  | cons e rest ih =>
    rw [Reading.distinct?] at h
    split at h
    case isTrue => cases h
    case isFalse => rw [ih h, List.append_assoc, List.singleton_append]

mutual

/-- A document that can be read as data is read as itself. -/
lemma eq_of_document?_toReading : ∀ {d read : Document},
    d.toReading.document? = some read → read = d
  | .atom a, read, h => (Option.some.inj h).symm
  | .seq items, read, h => by
    obtain ⟨documents, hdocuments, rfl⟩ := Option.map_eq_some_iff.1 h
    rw [eq_of_documents?_toReadings hdocuments]
  | .map entries, read, h => by
    obtain ⟨documents, hdocuments, h⟩ := Option.bind_eq_some_iff.1 h
    rw [eq_of_documentEntries?_toReadings hdocuments] at h
    exact eq_of_distinct? h
  | .tagged tag content, read, h => by
    rw [Document.toReading, Reading.document?] at h
    split at h
    case isTrue => cases h
    case isFalse =>
      obtain ⟨document, hdocument, rfl⟩ := Option.map_eq_some_iff.1 h
      rw [eq_of_document?_toReading hdocument]

/-- Items that can be read as data are read as themselves. -/
lemma eq_of_documents?_toReadings : ∀ {items read : List Document},
    Reading.documents? (Document.toReadings items) = some read → read = items
  | [], read, h => by simpa [Document.toReadings, Reading.documents?] using h.symm
  | item :: rest, read, h => by
    rw [Document.toReadings, Reading.documents?] at h
    obtain ⟨first, hfirst, h⟩ := Option.bind_eq_some_iff.1 h
    obtain ⟨others, hothers, h⟩ := Option.bind_eq_some_iff.1 h
    rw [eq_of_document?_toReading hfirst, eq_of_documents?_toReadings hothers] at h
    exact (Option.some.inj h).symm

/-- Entries that can be read as data are read as themselves. -/
lemma eq_of_documentEntries?_toReadings : ∀ {entries read : List (Document × Document)},
    Reading.documentEntries? (Document.toReadingEntries entries) = some read → read = entries
  | [], read, h => by simpa [Document.toReadingEntries, Reading.documentEntries?] using h.symm
  | (key, value) :: rest, read, h => by
    rw [Document.toReadingEntries, Reading.documentEntries?] at h
    obtain ⟨key', hkey, h⟩ := Option.bind_eq_some_iff.1 h
    obtain ⟨value', hvalue, h⟩ := Option.bind_eq_some_iff.1 h
    obtain ⟨others, hothers, h⟩ := Option.bind_eq_some_iff.1 h
    rw [eq_of_document?_toReading hkey, eq_of_document?_toReading hvalue,
      eq_of_documentEntries?_toReadings hothers] at h
    exact (Option.some.inj h).symm

end

end Documents

/-- What is kept of an entry is the data that its node holds, if it can be read as data again. -/
lemma kept?_eq_some_iff {e : String × Reading} {kept : String × Document} :
    kept? e = some kept ↔
      kept.1 = e.1 ∧ e.2.buffered? = some kept.2 ∧
        kept.2.toReading.document? = some kept.2 := by
  obtain ⟨key, d⟩ := kept
  constructor
  · intro h
    obtain ⟨buffered, hbuffered, h⟩ := Option.bind_eq_some_iff.1 h
    obtain ⟨document, hdocument, h⟩ := Option.bind_eq_some_iff.1 h
    obtain ⟨rfl, rfl⟩ := Prod.mk.inj (Option.some.inj h)
    obtain rfl := eq_of_document?_toReading hdocument
    exact ⟨rfl, hbuffered, hdocument⟩
  · rintro ⟨rfl, hbuffered, hdocument⟩
    simp only at hbuffered hdocument
    simp [kept?, hbuffered, hdocument]

/-- The entries that are kept are the other ones, as data, in the order of their keys. -/
lemma extra?_eq_some_iff {extra : List (String × Document)} :
    record.extra? = some extra ↔
      ∃ kept, List.Forall₂ (fun e k => kept? e = some k) record.others kept ∧
        extra = Fields.ofList kept := by
  rw [extra?, Option.map_eq_some_iff]
  constructor
  · rintro ⟨kept, hkept, rfl⟩
    exact ⟨kept, mapM_eq_some_iff.1 hkept, rfl⟩
  · rintro ⟨kept, hkept, rfl⟩
    exact ⟨kept, mapM_eq_some_iff.2 hkept, rfl⟩

end Record

variable {node : Reading}

/-- The record of a map with text keys and without repeated fields. -/
lemma Reading.mapRecord?_eq_some_iff {names : List String} {record : Record} :
    node.mapRecord? names = some record ↔
      ∃ entries fields, node.entries? = some entries ∧ Record.texts? entries = some fields ∧
        (Record.split names fields).KnownOnce ∧ record = Record.split names fields := by
  rw [Reading.mapRecord?, Option.bind_eq_some_iff]
  simp only [Record.ofEntries?_eq_some_iff]
  constructor
  · rintro ⟨entries, hentries, fields, hfields, honce, hrecord⟩
    exact ⟨entries, fields, hentries, hfields, honce, hrecord⟩
  · rintro ⟨entries, fields, hentries, hfields, honce, hrecord⟩
    exact ⟨entries, hentries, fields, hfields, honce, hrecord⟩

/-! ## The records of a manifest -/

/-- A field is read as a value, or it is missing and has its default. -/
lemma Record.withDefault?_eq_some_iff {α : Type} {record : Record} {name : String} {default a : α}
    {read : Reading → Option α} :
    record.withDefault? name default read = some a ↔
      (record.field? name = none ∧ a = default) ∨
        ∃ node, record.field? name = some node ∧ read node = some a := by
  rw [withDefault?]
  cases record.field? name with
  | none => simp [eq_comm]
  | some node => simp

/-- What is read as a list was read item by item. -/
lemma Record.exists_of_mem_list? {α : Type} {record : Record} {name : String} {as : List α} {a : α}
    {read : Reading → Option α} (h : record.withDefault? name [] (Reading.list? read) = some as)
    (ha : a ∈ as) : ∃ node, read node = some a := by
  rcases Record.withDefault?_eq_some_iff.1 h with ⟨-, rfl⟩ | ⟨node, -, hread⟩
  · cases ha
  · obtain ⟨items, -, hitems⟩ := Option.bind_eq_some_iff.1 hread
    obtain ⟨item, -, hitem⟩ := Value.exists_of_mem_mapM hitems ha
    exact ⟨item, hitem⟩

lemma Job.read?_eq_some_iff {job : Job} :
    Job.read? node = some job ↔
      ∃ record, node.mapRecord? ["name", "release", "properties"] = some record ∧
        record.required? "name" Reading.text? = some job.name ∧
        record.withDefault? "release" "" Reading.text? = some job.release ∧
        record.withDefault? "properties" .null Reading.value? = some job.properties ∧
        record.extra? = some job.extra := by
  obtain ⟨name, release, properties, extra⟩ := job
  simp [Job.read?, Option.bind_eq_some_iff]

lemma InstanceGroup.read?_eq_some_iff {group : InstanceGroup} :
    InstanceGroup.read? node = some group ↔
      ∃ record, node.mapRecord? ["name", "instances", "jobs"] = some record ∧
        record.required? "name" Reading.text? = some group.name ∧
        record.withDefault? "instances" 0 Reading.natural? = some group.instances ∧
        record.withDefault? "jobs" [] (Reading.list? Job.read?) = some group.jobs ∧
        record.extra? = some group.extra := by
  obtain ⟨name, instances, jobs, extra⟩ := group
  simp [InstanceGroup.read?, Option.bind_eq_some_iff]

lemma Variable.read?_eq_some_iff {v : Variable} :
    Variable.read? node = some v ↔
      ∃ record, node.record? ["name", "type", "options"] = some record ∧
        record.required? "name" Reading.text? = some v.name ∧
        record.required? "type" Reading.text? = some v.type ∧
        record.withDefault? "options" .null Reading.value? = some v.options := by
  obtain ⟨name, type, options⟩ := v
  simp [Variable.read?, Option.bind_eq_some_iff]

lemma Manifest.read?_eq_some_iff {manifest : Manifest} :
    Manifest.read? node = some manifest ↔
      ∃ record, node.mapRecord? ["name", "instance_groups", "variables"] = some record ∧
        record.required? "name" Reading.text? = some manifest.name ∧
        record.withDefault? "instance_groups" [] (Reading.list? InstanceGroup.read?) =
          some manifest.groups ∧
        record.withDefault? "variables" [] (Reading.list? Variable.read?) =
          some manifest.variables ∧
        record.extra? = some manifest.extra := by
  obtain ⟨name, groups, vs, extra⟩ := manifest
  simp [Manifest.read?, Option.bind_eq_some_iff]

end PropertyTree
