import Mathlib.Data.List.Nodup
import PropertyTree.Proofs.SavedRecords

/-!
# The fields that are still there after loading and saving

A manifest that is loaded and saved again should hold what it held before, also in fields that the
library knows nothing about.  `Manifest.saved_keeps_fields` says how far this goes, record by
record along the document.  A manifest, a group and a job keep every key, apart from defaults that
are left out, and have the same data under the keys that they do not know; the only keys they gain
are those of defaults that are written (`Record.Keeps`).

A variable has no place for other fields.  It keeps the keys that it knows, gains none, and drops
the others (`Manifest.drops_update_mode`).
-/

namespace PropertyTree

/-! ## Documents by their fields -/

/-- The fields of a map with text keys. -/
def Reading.fields? (node : Reading) : Option (List (String × Reading)) :=
  node.entries?.bind Record.texts?

/-- The items of the list in a field; none if the field is missing. -/
def Reading.itemsIn (fields : List (String × Reading)) (name : String) : List Reading :=
  ((fields.find? (·.1 == name)).bind (·.2.items?)).getD []

/-- The items of the list in a field; none if the field is missing. -/
def Document.itemsIn (fields : List (String × Document)) (name : String) : List Document :=
  match Fields.get? fields name with
  | some (.seq items) => items
  | _ => []

namespace Record

variable {names defaults : List String} {omitted : String → Reading → Prop}
  {fields : List (String × Reading)} {written extra : List (String × Document)} {key : String}
  {node : Reading}

/-- The keys of a record are there after it is saved, apart from those that are left out, and only
defaults are new. -/
structure KeepsKeys (defaults : List String) (omitted : String → Reading → Prop)
    (fields : List (String × Reading)) (saved : List (String × Document)) : Prop where
  kept : ∀ f ∈ fields, f.1 ∈ saved.map Prod.fst ∨ omitted f.1 f.2
  added : ∀ f ∈ saved, f.1 ∈ fields.map Prod.fst ∨ f.1 ∈ defaults

/-- The keys are there, and under a key that the record does not know is the data that was there.
Of several entries under such a key the last one counts. -/
structure Keeps (names defaults : List String) (omitted : String → Reading → Prop)
    (fields : List (String × Reading)) (saved : List (String × Document)) : Prop
    extends KeepsKeys defaults omitted fields saved where
  others : ∀ key ∉ names, Fields.get? saved key =
    (fields.reverse.find? (·.1 == key)).bind (·.2.buffered?)

/-! ## What a record keeps -/

/-- A field that is there is the one that is read. -/
lemma field?_of_mem (honce : (split names fields).KnownOnce) {f : String × Reading}
    (hf : f ∈ fields) (hkey : f.1 ∈ names) : (split names fields).field? f.1 = some f.2 := by
  have hknown : f ∈ (split names fields).known :=
    List.mem_filter.2 ⟨hf, List.contains_iff_mem.2 hkey⟩
  obtain ⟨g, hg⟩ := Option.isSome_iff_exists.1
    (List.find?_isSome.2 ⟨f, hknown, beq_self_eq_true f.1⟩ :
      ((split names fields).known.find? (·.1 == f.1)).isSome)
  have hsame : g = f := List.inj_on_of_nodup_map honce (List.mem_of_find?_eq_some hg) hknown
    (by simpa using List.find?_some hg)
  rw [field?, hg, hsame]
  rfl

/-- A field that is read is there. -/
lemma mem_of_field? (h : (split names fields).field? key = some node) :
    key ∈ fields.map Prod.fst := by
  obtain ⟨f, hf, rfl⟩ := Option.map_eq_some_iff.1 h
  have hkey : f.1 = key := by simpa using List.find?_some hf
  exact hkey ▸ List.mem_map_of_mem (List.mem_of_mem_filter (List.mem_of_find?_eq_some hf))

/-- What is kept under a key is the data of the last entry under it. -/
lemma find?_of_kept {others : List (String × Reading)} {kept : List (String × Document)}
    (h : List.Forall₂ (fun e k => kept? e = some k) others kept) (key : String) :
    (kept.find? (·.1 == key)).map Prod.snd =
      (others.find? (·.1 == key)).bind (·.2.buffered?) := by
  induction h with
  | nil => rfl
  | @cons e k _ _ hek _ ih =>
    obtain ⟨hkey, hdata, -⟩ := kept?_eq_some_iff.1 hek
    rw [List.find?_cons, List.find?_cons, hkey]
    cases e.1 == key with
    | true => exact hdata.symm
    | false => exact ih

/-- Under a key that a record does not know it keeps the data of the last entry. -/
lemma get?_of_extra? (h : (split names fields).extra? = some extra) (hkey : key ∉ names) :
    Fields.get? extra key = (fields.reverse.find? (·.1 == key)).bind (·.2.buffered?) := by
  obtain ⟨kept, hkept, rfl⟩ := extra?_eq_some_iff.1 h
  have hfilter : (split names fields).others.reverse.find? (·.1 == key) =
      fields.reverse.find? (·.1 == key) := by
    rw [split, ← List.filter_reverse, List.find?_filter]
    congr 1
    funext e
    by_cases he : e.1 = key <;> simp [he, hkey]
  rw [Fields.get?_ofList, find?_of_kept (List.forall₂_reverse_iff.2 hkept), hfilter]

/-- What is written of the fields that a record knows: every one of them unless it may be left out,
and no other one unless it is a default. -/
structure Writes (names defaults : List String) (omitted : String → Reading → Prop)
    (record : Record) (written : List (String × Document)) : Prop where
  known : ∀ f ∈ written, f.1 ∈ names
  kept : ∀ name ∈ names, name ∈ written.map Prod.fst ∨
    ∀ node, record.field? name = some node → omitted name node
  added : ∀ f ∈ written, f.1 ∈ defaults ∨ ∃ node, record.field? f.1 = some node

lemma Writes.added_of_mem (h : Writes names defaults omitted (split names fields) written)
    {f : String × Document} (hf : f ∈ written) : f.1 ∈ fields.map Prod.fst ∨ f.1 ∈ defaults := by
  rcases h.added f hf with hdefault | ⟨node, hnode⟩
  · exact .inr hdefault
  · exact .inl (mem_of_field? hnode)

lemma Writes.kept_of_mem (h : Writes names defaults omitted (split names fields) written)
    (honce : (split names fields).KnownOnce) {f : String × Reading} (hf : f ∈ fields)
    (hkey : f.1 ∈ names) : f.1 ∈ written.map Prod.fst ∨ omitted f.1 f.2 :=
  (h.kept f.1 hkey).imp_right fun homitted => homitted f.2 (field?_of_mem honce hf hkey)

/-- A record keeps its fields if it writes those that it knows and keeps the others. -/
theorem Writes.keeps (h : Writes names defaults omitted (split names fields) written)
    (honce : (split names fields).KnownOnce)
    (hextra : (split names fields).extra? = some extra) :
    Keeps names defaults omitted fields (written ++ extra) := by
  have hothers : ∀ key ∉ names, Fields.get? (written ++ extra) key =
      (fields.reverse.find? (·.1 == key)).bind (·.2.buffered?) := by
    intro key hkey
    rw [← get?_of_extra? hextra hkey]
    refine Fields.get?_append_of_ne (fun f hf heq => hkey ?_) extra
    exact heq ▸ h.known f hf
  obtain ⟨kept, hkept, rfl⟩ := extra?_eq_some_iff.1 hextra
  refine ⟨⟨fun f hf => ?_, fun f hf => ?_⟩, hothers⟩
  · rw [List.map_append, List.mem_append]
    by_cases hkey : f.1 ∈ names
    · exact (h.kept_of_mem honce hf hkey).imp_left .inl
    · have hother : f ∈ (split names fields).others :=
        List.mem_filter.2 ⟨hf, by simpa using hkey⟩
      obtain ⟨k, hk, hkeep⟩ := forall₂_exists_of_mem hkept hother
      refine .inl (.inr ?_)
      rw [← (kept?_eq_some_iff.1 hkeep).1]
      exact Fields.key_mem_ofList hk
  · rcases List.mem_append.1 hf with hf | hf
    · exact h.added_of_mem hf
    · obtain ⟨e, he, hkeep⟩ :=
        Value.exists_of_mem_mapM (mapM_eq_some_iff.2 hkept) (Fields.mem_ofList hf)
      refine .inl ?_
      rw [(kept?_eq_some_iff.1 hkeep).1]
      exact List.mem_map_of_mem (List.mem_of_mem_filter he)

end Record

/-! ## The records of a manifest -/

section Records

open Record (Keeps KeepsKeys)

/-- A job of a document is saved with its fields; only null properties are left out. -/
def Job.KeepsFields (node : Reading) (saved : Document) : Prop :=
  ∃ before after, node.fields? = some before ∧ saved = .ofFields after ∧
    Keeps ["name", "release", "properties"] ["release"]
      (fun name node => name = "properties" ∧ node.value? = some .null) before after

/-- A group of a document is saved with its fields, and so are its jobs, one by one. -/
def InstanceGroup.KeepsFields (node : Reading) (saved : Document) : Prop :=
  ∃ before after, node.fields? = some before ∧ saved = .ofFields after ∧
    Keeps ["name", "instances", "jobs"] ["instances", "jobs"] (fun _ _ => False) before after ∧
    List.Forall₂ Job.KeepsFields (Reading.itemsIn before "jobs") (Document.itemsIn after "jobs")

/-- A variable of a document that is written as a map is saved with the fields that it knows,
without null options, and with no other field. -/
def Variable.KeepsFields (node : Reading) (saved : Document) : Prop :=
  ∀ before, node.fields? = some before → ∃ after, saved = .ofFields after ∧
    KeepsKeys [] (fun name node => name ∉ ["name", "type", "options"] ∨
      name = "options" ∧ node.value? = some .null) before after ∧
    ∀ f ∈ after, f.1 ∈ ["name", "type", "options"]

/-- A manifest is saved with its fields, without an empty list of variables, and so are its groups
and variables, one by one. -/
def Manifest.KeepsFields (node : Reading) (saved : Document) : Prop :=
  ∃ before after, node.fields? = some before ∧ saved = .ofFields after ∧
    Keeps ["name", "instance_groups", "variables"] ["instance_groups"]
      (fun name node => name = "variables" ∧ node.items? = some []) before after ∧
    List.Forall₂ InstanceGroup.KeepsFields (Reading.itemsIn before "instance_groups")
      (Document.itemsIn after "instance_groups") ∧
    List.Forall₂ Variable.KeepsFields (Reading.itemsIn before "variables")
      (Document.itemsIn after "variables")

end Records

namespace Record

variable {α : Type} {record : Record} {names : List String} {name : String} {a default : α}
  {read : Reading → Option α}

lemma exists_of_required? (h : record.required? name read = some a) :
    ∃ node, record.field? name = some node := by
  obtain ⟨node, hnode, -⟩ := Option.bind_eq_some_iff.1 h
  exact ⟨node, hnode⟩

/-- A record writes its fields if the last one is left out exactly when it has its default, and the
others are always written. -/
lemma writes_of_last {defaults : List String} {omitted : String → Reading → Prop}
    {firsts : List (String × Document)} {absent : Bool}
    (hnames : names = firsts.map Prod.fst ++ [name])
    (hfirsts : ∀ f ∈ firsts, f.1 ∈ defaults ∨ ∃ node, record.field? f.1 = some node)
    (hlast : record.withDefault? name default read = some a) (habsent : absent = true ↔ a = default)
    (homitted : ∀ node, read node = some default → omitted name node) (d : Document) :
    Writes names defaults omitted record (firsts ++ Reading.writtenUnless absent name d) := by
  have hkey := Reading.keys_writtenUnless absent name d
  refine ⟨fun f hf => ?_, fun key hkey => ?_, fun f hf => ?_⟩
  · rw [hnames]
    refine ((List.Sublist.refl (firsts.map Prod.fst)).append hkey).subset ?_
    rw [← List.map_append]
    exact List.mem_map_of_mem hf
  · rw [hnames] at hkey
    rw [List.map_append, List.mem_append]
    rcases List.mem_append.1 hkey with hkey | hkey
    · exact .inl (.inl hkey)
    · obtain rfl := List.mem_singleton.1 hkey
      cases absent with
      | false => exact .inl (.inr (by simp [Reading.writtenUnless]))
      | true =>
        -- it was read as its default, so it was missing or it may be left out
        obtain rfl := habsent.1 rfl
        refine .inr fun node hnode => homitted node ?_
        rcases withDefault?_eq_some_iff.1 hlast with ⟨hnone, -⟩ | ⟨node', hnode', hread⟩
        · rw [hnode] at hnone
          cases hnone
        · rw [hnode] at hnode'
          exact Option.some.inj hnode' ▸ hread
  · rcases List.mem_append.1 hf with hf | hf
    · exact hfirsts f hf
    · cases absent with
      | true => simp [Reading.writtenUnless] at hf
      | false =>
        obtain rfl : f = (name, d) := by simpa [Reading.writtenUnless] using hf
        rcases withDefault?_eq_some_iff.1 hlast with ⟨-, hdefault⟩ | ⟨node, hnode, -⟩
        · cases habsent.2 hdefault
        · exact .inr ⟨node, hnode⟩

lemma field?_split (hname : name ∈ names) (fields : List (String × Reading)) :
    (split names fields).field? name = (fields.find? (·.1 == name)).map Prod.snd := by
  rw [field?, split, List.find?_filter]
  congr 2
  funext e
  by_cases he : e.1 = name <;> simp [he, hname]

/-- The items of a list are read one by one. -/
lemma forall₂_itemsIn {fields : List (String × Reading)} {as : List α} (hname : name ∈ names)
    (h : (split names fields).withDefault? name [] (Reading.list? read) = some as) :
    List.Forall₂ (fun node a => read node = some a) (Reading.itemsIn fields name) as := by
  have hfield := field?_split hname fields
  rcases withDefault?_eq_some_iff.1 h with ⟨hnone, rfl⟩ | ⟨node, hnode, hread⟩
  · rw [hfield, Option.map_eq_none_iff] at hnone
    rw [Reading.itemsIn, hnone]
    exact .nil
  · rw [hfield] at hnode
    obtain ⟨f, hf, rfl⟩ := Option.map_eq_some_iff.1 hnode
    obtain ⟨items, hitems, hread⟩ := Option.bind_eq_some_iff.1 hread
    rw [Reading.itemsIn, hf, Option.bind_some, hitems]
    exact mapM_eq_some_iff.1 hread

end Record

section Records

open Record

variable {node : Reading}

lemma Reading.items?_of_list?_nil {α : Type} {read : Reading → Option α}
    (h : node.list? read = some []) : node.items? = some [] := by
  obtain ⟨items, hitems, hread⟩ := Option.bind_eq_some_iff.1 h
  cases mapM_eq_some_iff.1 hread
  exact hitems

lemma Reading.fields?_eq_some {entries : List (Reading × Reading)}
    {fields : List (String × Reading)} (hentries : node.entries? = some entries)
    (hfields : Record.texts? entries = some fields) : node.fields? = some fields := by
  rw [Reading.fields?, hentries, Option.bind_some, hfields]

/-- The record of a map, where a list of fields is welcome too. -/
lemma Reading.mapRecord?_of_record? {names : List String} {record : Record}
    {entries : List (Reading × Reading)} (hentries : node.entries? = some entries)
    (h : node.record? names = some record) : node.mapRecord? names = some record := by
  cases node with
  | atom _ | seq _ | unreadable => cases hentries
  | map _ | spelled _ _ _ | absent => exact h
  | tagged _ content =>
    cases content with
    | atom _ | seq _ | tagged _ _ | unreadable => cases hentries
    | map _ | spelled _ _ _ | absent => exact h

/-- A job that was read is saved with its fields. -/
theorem Job.keeps_fields {job : Job} (h : Job.read? node = some job) :
    Job.KeepsFields node job.toDocument := by
  obtain ⟨record, hrecord, hname, -, hproperties, hextra⟩ := Job.read?_eq_some_iff.1 h
  obtain ⟨entries, before, hentries, hbefore, honce, rfl⟩ :=
    Reading.mapRecord?_eq_some_iff.1 hrecord
  have hwrites : Writes ["name", "release", "properties"] ["release"]
      (fun name node => name = "properties" ∧ node.value? = some .null)
      (split ["name", "release", "properties"] before) job.fields := by
    refine writes_of_last (by rfl) ?_ hproperties Value.isNull_iff (fun _ hread => ⟨rfl, hread⟩) _
    simpa using exists_of_required? hname
  exact ⟨before, _, Reading.fields?_eq_some hentries hbefore, job.toDocument_eq,
    hwrites.keeps honce hextra⟩

/-- A group that was read is saved with its fields. -/
theorem InstanceGroup.keeps_fields {group : InstanceGroup}
    (h : InstanceGroup.read? node = some group) :
    InstanceGroup.KeepsFields node group.toDocument := by
  obtain ⟨record, hrecord, hname, -, hjobs, hextra⟩ := InstanceGroup.read?_eq_some_iff.1 h
  obtain ⟨entries, before, hentries, hbefore, honce, rfl⟩ :=
    Reading.mapRecord?_eq_some_iff.1 hrecord
  have hwrites : Writes ["name", "instances", "jobs"] ["instances", "jobs"] (fun _ _ => False)
      (split ["name", "instances", "jobs"] before) group.fields := by
    refine ⟨fun f hf => group.keys_fields.subset (List.mem_map_of_mem hf), ?_, ?_⟩
    · simp [InstanceGroup.fields]
    · simpa [InstanceGroup.fields] using exists_of_required? hname
  have hitems : Document.itemsIn (group.fields ++ group.extra) "jobs" =
      group.jobs.map Job.toDocument := rfl
  refine ⟨before, _, Reading.fields?_eq_some hentries hbefore, group.toDocument_eq,
    hwrites.keeps honce hextra, ?_⟩
  rw [hitems, List.forall₂_map_right_iff]
  exact (forall₂_itemsIn (by simp) hjobs).imp fun _ _ => Job.keeps_fields

/-- A variable that was read is saved with the fields that it knows. -/
theorem Variable.keeps_fields {v : Variable} (h : Variable.read? node = some v) :
    Variable.KeepsFields node v.toDocument := by
  intro before hfields
  obtain ⟨record, hrecord, hname, htype, hoptions⟩ := Variable.read?_eq_some_iff.1 h
  obtain ⟨entries, hentries, hbefore⟩ := Option.bind_eq_some_iff.1 hfields
  obtain ⟨entries', before', hentries', hbefore', honce, rfl⟩ :=
    Reading.mapRecord?_eq_some_iff.1 (Reading.mapRecord?_of_record? hentries hrecord)
  obtain rfl : entries = entries' := Option.some.inj (hentries.symm.trans hentries')
  obtain rfl : before = before' := Option.some.inj (hbefore.symm.trans hbefore')
  have hwrites : Writes ["name", "type", "options"] []
      (fun name node => name = "options" ∧ node.value? = some .null)
      (split ["name", "type", "options"] before) v.fields := by
    refine writes_of_last (by rfl) ?_ hoptions Value.isNull_iff (fun _ hread => ⟨rfl, hread⟩) _
    simpa using ⟨exists_of_required? hname, exists_of_required? htype⟩
  refine ⟨v.fields, v.toDocument_eq, ⟨fun f hf => ?_, fun f hf => hwrites.added_of_mem hf⟩,
    hwrites.known⟩
  by_cases hkey : f.1 ∈ ["name", "type", "options"]
  · exact (hwrites.kept_of_mem honce hf hkey).imp_right .inr
  · exact .inr (.inl hkey)

/-- A manifest that was read is saved with its fields, and so are its groups, their jobs, and its
variables, as far as each of them keeps fields. -/
theorem Manifest.saved_keeps_fields {m : Manifest} (h : Manifest.read? node = some m) :
    Manifest.KeepsFields node m.toDocument := by
  obtain ⟨record, hrecord, hname, hgroups, hvariables, hextra⟩ := Manifest.read?_eq_some_iff.1 h
  obtain ⟨entries, before, hentries, hbefore, honce, rfl⟩ :=
    Reading.mapRecord?_eq_some_iff.1 hrecord
  have hwrites : Writes ["name", "instance_groups", "variables"] ["instance_groups"]
      (fun name node => name = "variables" ∧ node.items? = some [])
      (split ["name", "instance_groups", "variables"] before) m.fields := by
    refine writes_of_last (by rfl) ?_ hvariables List.isEmpty_iff
      (fun _ hread => ⟨rfl, Reading.items?_of_list?_nil hread⟩) _
    simpa using exists_of_required? hname
  have hgroupItems : Document.itemsIn (m.fields ++ m.extra) "instance_groups" =
      m.groups.map InstanceGroup.toDocument := rfl
  have hvariableItems : Document.itemsIn (m.fields ++ m.extra) "variables" =
      m.variables.map Variable.toDocument := by
    cases hempty : m.variables.isEmpty with
    | false => simp [Document.itemsIn, Manifest.fields, Reading.writtenUnless, hempty, Fields.get?]
    | true =>
      have hother : Fields.get? m.extra "variables" = none :=
        Fields.get?_eq_none_iff.2 fun f hf hkey =>
          (Extra.kept_of_extra? hextra).unknown f hf (by simp [hkey])
      rw [List.isEmpty_iff.1 hempty]
      simp [Document.itemsIn, Manifest.fields, Reading.writtenUnless, hempty, Fields.get?, hother]
  refine ⟨before, _, Reading.fields?_eq_some hentries hbefore, m.toDocument_eq,
    hwrites.keeps honce hextra, ?_, ?_⟩
  · rw [hgroupItems, List.forall₂_map_right_iff]
    exact (forall₂_itemsIn (by simp) hgroups).imp fun _ _ => InstanceGroup.keeps_fields
  · rw [hvariableItems, List.forall₂_map_right_iff]
    exact (forall₂_itemsIn (by simp) hvariables).imp fun _ _ => Variable.keeps_fields

end Records

namespace Manifest

/-- A document with fields that its records do not know, at every level. -/
def managed : Document :=
  .ofFields [("name", .text "d"), ("update", .ofFields [("serial", .atom (.bool true))]),
    ("instance_groups", .seq [.ofFields [("azs", .seq [.text "z1"]), ("name", .text "g"),
      ("jobs", .seq [.ofFields [("name", .text "a"), ("properties", .atom .null),
        ("consumes", .map [])]])]]),
    ("variables", .seq [.ofFields [("name", .text "ca"), ("type", .text "certificate"),
      ("update_mode", .text "converge")]])]

/-- The document is read, and saved with its fields. -/
theorem saved_keeps_fields_managed :
    ∃ m, Manifest.read? managed.toReading = some m ∧
      Manifest.KeepsFields managed.toReading m.toDocument := by
  have hread : (Manifest.read? managed.toReading).isSome := by decide +kernel
  obtain ⟨m, hm⟩ := Option.isSome_iff_exists.1 hread
  exact ⟨m, hm, saved_keeps_fields hm⟩

/-- A document whose variable has a mode, which variables do not know, is saved without the mode. -/
theorem drops_update_mode :
    let variableWith (others : List (String × Document)) : Document :=
      .ofFields ([("name", .text "ca"), ("type", .text "certificate")] ++ others)
    let document := Document.ofFields [("name", .text "d"),
      ("variables", .seq [variableWith [("update_mode", .text "converge")]])]
    (Manifest.read? document.toReading).map Manifest.toDocument = some
      (.ofFields [("name", .text "d"), ("instance_groups", .seq []),
        ("variables", .seq [variableWith []])]) := by
  decide +kernel

end Manifest

end PropertyTree
