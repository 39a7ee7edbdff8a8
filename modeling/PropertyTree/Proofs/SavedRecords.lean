import PropertyTree.Proofs.ReadBack

/-!
# Manifests that are saved and read back

A record is written as its fields with what was kept of others after them, and reading it sorts the
two apart again.  This goes well as long as what was kept could have been read: its keys are in
order and are not fields, and its documents can be read as data (`Extra.Kept`).  A manifest is
`Sound` if this holds of its records and its trees are well-formed.

Reading a saved manifest then gives it back, with its trees as they come back
(`Manifest.read?_of_delivers`); and a manifest that was read is sound and comes back as it is
(`Manifest.settled_of_read?`).
-/

namespace PropertyTree

open Reading (DeliversField writtenUnless keys_writtenUnless required?_of_delivers
  withDefault?_of_delivers withDefault?_of_writtenUnless extra?_of_delivers)

/-! ## Fields that are kept -/

/-- What a record can have kept: fields that it does not know, in order, with data that can be read
again. -/
structure Extra.Kept (names : List String) (extra : Extra) : Prop where
  sorted : Fields.Sorted extra
  unknown : ∀ f ∈ extra, f.1 ∉ names
  data : ∀ f ∈ extra, f.2.toReading.document? = some f.2

/-- What a record keeps of its entries is kept. -/
lemma Extra.kept_of_extra? {names : List String} {fields : List (String × Reading)} {extra : Extra}
    (h : (Record.split names fields).extra? = some extra) : Extra.Kept names extra := by
  obtain ⟨kept, hkept, rfl⟩ := Record.extra?_eq_some_iff.1 h
  have hmem : ∀ f ∈ Fields.ofList kept,
      ∃ e ∈ (Record.split names fields).others, Record.kept? e = some f := by
    intro f hf
    exact Value.exists_of_mem_mapM (mapM_eq_some_iff.2 hkept) (Fields.mem_ofList hf)
  refine ⟨Fields.sorted_ofList kept, fun f hf => ?_, fun f hf => ?_⟩
  · obtain ⟨e, he, hkept⟩ := hmem f hf
    rw [(Record.kept?_eq_some_iff.1 hkept).1]
    simpa using (List.mem_filter.1 he).2
  · obtain ⟨e, -, hkept⟩ := hmem f hf
    exact (Record.kept?_eq_some_iff.1 hkept).2.2

/-! ## Jobs -/

namespace Job

variable {node : Reading} {job : Job}

/-- The fields of a job that are written. -/
def fields (job : Job) : List (String × Document) :=
  [("name", .text job.name), ("release", .text job.release)] ++
    writtenUnless job.properties.isNull "properties" job.properties.toDocument

lemma toDocument_eq (job : Job) :
    job.toDocument = .ofFields (job.fields ++ job.extra) := by
  rw [toDocument, fields, writtenUnless, fieldUnlessNull, Extra.toEntries]
  split <;> rfl

lemma keys_fields (job : Job) :
    (job.fields.map Prod.fst).Sublist ["name", "release", "properties"] := by
  rw [fields, List.map_append]
  exact (List.Sublist.refl ["name", "release"]).append (keys_writtenUnless _ _ _)

/-- A job that could have been read. -/
structure Sound (job : Job) : Prop where
  properties : job.properties.WellFormed
  extra : Extra.Kept ["name", "release", "properties"] job.extra

/-- The job that comes back. -/
def asRead (job : Job) : Job :=
  { job with properties := job.properties.asRead }

/-- A saved job is read back. -/
theorem read?_of_delivers (h : job.Sound) (hkeys : job.properties.KeysStayApart)
    (hd : node.Delivers job.toDocument) : read? node = some job.asRead := by
  rw [toDocument_eq] at hd
  obtain ⟨record, hrecord, hknown, hothers⟩ :=
    hd.mapRecord? job.keys_fields (by decide) h.extra.unknown
  refine read?_eq_some_iff.2 ⟨record, hrecord, ?_, ?_, ?_, ?_⟩
  · exact required?_of_delivers hknown rfl fun _ hnode => hnode.text?
  · exact withDefault?_of_delivers hknown rfl _ fun _ hnode => hnode.text?
  · refine withDefault?_of_writtenUnless hknown rfl (fun hnull => ?_) fun _ hnode =>
      Value.value?_of_delivers h.properties hkeys hnode
    rw [asRead, Value.isNull_iff.1 hnull]
    rfl
  · exact extra?_of_delivers hothers h.extra.sorted h.extra.data

/-- A job that was read is sound, and it comes back as it is. -/
theorem settled_of_read? (h : read? node = some job) :
    job.Sound ∧ job.properties.KeysStayApart ∧ job.asRead = job := by
  obtain ⟨record, hrecord, -, -, hproperties, hextra⟩ := read?_eq_some_iff.1 h
  obtain ⟨_, fields, -, -, -, rfl⟩ := Reading.mapRecord?_eq_some_iff.1 hrecord
  have hsettled : job.properties.Settled := by
    rcases Record.withDefault?_eq_some_iff.1 hproperties with ⟨-, hnull⟩ | ⟨_, -, hvalue⟩
    · rw [hnull]
      exact Value.settled_scalar .null
    · exact Value.settled_of_value? hvalue
  refine ⟨⟨hsettled.wellFormed, Extra.kept_of_extra? hextra⟩, hsettled.keysStayApart, ?_⟩
  rw [asRead, hsettled.asRead_eq]

end Job

/-! ## Groups -/

namespace InstanceGroup

variable {node : Reading} {group : InstanceGroup}

/-- The fields of a group. -/
def fields (group : InstanceGroup) : List (String × Document) :=
  [("name", .text group.name), ("instances", .atom (.int group.instances.toNat)),
    ("jobs", .seq (group.jobs.map Job.toDocument))]

lemma toDocument_eq (group : InstanceGroup) :
    group.toDocument = .ofFields (group.fields ++ group.extra) := by
  rw [toDocument, Document.ofFields, List.map_append]
  rfl

lemma keys_fields (group : InstanceGroup) :
    (group.fields.map Prod.fst).Sublist ["name", "instances", "jobs"] :=
  List.Sublist.refl _

/-- A group that could have been read. -/
structure Sound (group : InstanceGroup) : Prop where
  jobs : ∀ job ∈ group.jobs, job.Sound
  extra : Extra.Kept ["name", "instances", "jobs"] group.extra

/-- The group that comes back. -/
def asRead (group : InstanceGroup) : InstanceGroup :=
  { group with jobs := group.jobs.map Job.asRead }

/-- A saved group is read back. -/
theorem read?_of_delivers (h : group.Sound)
    (hkeys : ∀ job ∈ group.jobs, job.properties.KeysStayApart)
    (hd : node.Delivers group.toDocument) : read? node = some group.asRead := by
  rw [toDocument_eq] at hd
  obtain ⟨record, hrecord, hknown, hothers⟩ :=
    hd.mapRecord? group.keys_fields (by decide) h.extra.unknown
  refine read?_eq_some_iff.2 ⟨record, hrecord, ?_, ?_, ?_, ?_⟩
  · exact required?_of_delivers hknown rfl fun _ hnode => hnode.text?
  · exact withDefault?_of_delivers hknown rfl _ fun _ hnode => hnode.natural?
  · refine withDefault?_of_delivers hknown rfl _ fun _ hnode => hnode.list? ?_
    exact forall₂_map_map fun job hjob _ hnode =>
      Job.read?_of_delivers (h.jobs job hjob) (hkeys job hjob) hnode
  · exact extra?_of_delivers hothers h.extra.sorted h.extra.data

/-- A group that was read is sound, and it comes back as it is. -/
theorem settled_of_read? (h : read? node = some group) :
    group.Sound ∧ (∀ job ∈ group.jobs, job.properties.KeysStayApart) ∧ group.asRead = group := by
  obtain ⟨record, hrecord, -, -, hjobs, hextra⟩ := read?_eq_some_iff.1 h
  obtain ⟨_, fields, -, -, -, rfl⟩ := Reading.mapRecord?_eq_some_iff.1 hrecord
  have hsettled : ∀ job ∈ group.jobs,
      job.Sound ∧ job.properties.KeysStayApart ∧ job.asRead = job := by
    intro job hjob
    obtain ⟨_, hread⟩ := Record.exists_of_mem_list? hjobs hjob
    exact Job.settled_of_read? hread
  refine ⟨⟨fun job hjob => (hsettled job hjob).1, Extra.kept_of_extra? hextra⟩,
    fun job hjob => (hsettled job hjob).2.1, ?_⟩
  rw [asRead, List.map_congr_left fun job hjob => (hsettled job hjob).2.2, List.map_id']

end InstanceGroup

/-! ## Variables -/

namespace Variable

variable {node : Reading} {v : Variable}

/-- The fields of a variable that are written. -/
def fields (v : Variable) : List (String × Document) :=
  [("name", .text v.name), ("type", .text v.type)] ++
    writtenUnless v.options.isNull "options" v.options.toDocument

lemma toDocument_eq (v : Variable) : v.toDocument = .ofFields v.fields := by
  rw [toDocument, fields, writtenUnless, fieldUnlessNull]
  split <;> rfl

lemma keys_fields (v : Variable) :
    (v.fields.map Prod.fst).Sublist ["name", "type", "options"] := by
  rw [fields, List.map_append]
  exact (List.Sublist.refl ["name", "type"]).append (keys_writtenUnless _ _ _)

/-- The variable that comes back. -/
def asRead (v : Variable) : Variable :=
  { v with options := v.options.asRead }

/-- A saved variable is read back. -/
theorem read?_of_delivers (h : v.options.WellFormed) (hkeys : v.options.KeysStayApart)
    (hd : node.Delivers v.toDocument) : read? node = some v.asRead := by
  rw [toDocument_eq, ← List.append_nil v.fields] at hd
  obtain ⟨record, hrecord, hknown, -⟩ :=
    hd.mapRecord? v.keys_fields (by decide) (by simp)
  have hmap : node.record? ["name", "type", "options"] = some record := by
    obtain ⟨nodes, rfl, -⟩ := hd.map_cases
    exact hrecord
  refine read?_eq_some_iff.2 ⟨record, hmap, ?_, ?_, ?_⟩
  · exact required?_of_delivers hknown rfl fun _ hnode => hnode.text?
  · exact required?_of_delivers hknown rfl fun _ hnode => hnode.text?
  · refine withDefault?_of_writtenUnless hknown rfl (fun hnull => ?_) fun _ hnode =>
      Value.value?_of_delivers h hkeys hnode
    rw [asRead, Value.isNull_iff.1 hnull]
    rfl

/-- A variable that was read comes back as it is, and so do its options. -/
theorem settled_of_read? (h : read? node = some v) : v.options.Settled ∧ v.asRead = v := by
  obtain ⟨record, -, -, -, hoptions⟩ := read?_eq_some_iff.1 h
  have hsettled : v.options.Settled := by
    rcases Record.withDefault?_eq_some_iff.1 hoptions with ⟨-, hnull⟩ | ⟨_, -, hvalue⟩
    · rw [hnull]
      exact Value.settled_scalar .null
    · exact Value.settled_of_value? hvalue
  refine ⟨hsettled, ?_⟩
  rw [asRead, hsettled.asRead_eq]

end Variable

/-! ## Manifests -/

namespace Manifest

variable {node : Reading} {manifest : Manifest}

/-- The fields of a manifest that are written. -/
def fields (manifest : Manifest) : List (String × Document) :=
  [("name", .text manifest.name),
    ("instance_groups", .seq (manifest.groups.map InstanceGroup.toDocument))] ++
    writtenUnless manifest.variables.isEmpty "variables"
      (.seq (manifest.variables.map Variable.toDocument))

lemma toDocument_eq (manifest : Manifest) :
    manifest.toDocument = .ofFields (manifest.fields ++ manifest.extra) := by
  rw [toDocument, fields, writtenUnless, Extra.toEntries]
  cases manifest.variables.isEmpty <;> rfl

lemma keys_fields (manifest : Manifest) :
    (manifest.fields.map Prod.fst).Sublist ["name", "instance_groups", "variables"] := by
  rw [fields, List.map_append]
  exact (List.Sublist.refl ["name", "instance_groups"]).append (keys_writtenUnless _ _ _)

/-- A manifest that could have been read. -/
structure Sound (manifest : Manifest) : Prop where
  groups : ∀ group ∈ manifest.groups, group.Sound
  options : ∀ v ∈ manifest.variables, v.options.WellFormed
  extra : Extra.Kept ["name", "instance_groups", "variables"] manifest.extra

/-- No two keys of a mapping become equal when the manifest comes back. -/
structure KeysStayApart (manifest : Manifest) : Prop where
  properties : ∀ group ∈ manifest.groups, ∀ job ∈ group.jobs, job.properties.KeysStayApart
  options : ∀ v ∈ manifest.variables, v.options.KeysStayApart

/-- The manifest that comes back: inside properties and options, every any-keyed mapping all of
whose keys are strings is string-keyed, and all else is the same. -/
def asRead (manifest : Manifest) : Manifest :=
  { manifest with
    groups := manifest.groups.map InstanceGroup.asRead
    «variables» := manifest.variables.map Variable.asRead }

/-- A saved manifest is read back. -/
theorem read?_of_delivers (h : manifest.Sound) (hkeys : manifest.KeysStayApart)
    (hd : node.Delivers manifest.toDocument) : read? node = some manifest.asRead := by
  rw [toDocument_eq] at hd
  obtain ⟨record, hrecord, hknown, hothers⟩ :=
    hd.mapRecord? manifest.keys_fields (by decide) h.extra.unknown
  refine read?_eq_some_iff.2 ⟨record, hrecord, ?_, ?_, ?_, ?_⟩
  · exact required?_of_delivers hknown rfl fun _ hnode => hnode.text?
  · refine withDefault?_of_delivers hknown rfl _ fun _ hnode => hnode.list? ?_
    exact forall₂_map_map fun group hgroup _ hnode =>
      InstanceGroup.read?_of_delivers (h.groups group hgroup) (hkeys.properties group hgroup) hnode
  · refine withDefault?_of_writtenUnless hknown rfl (fun hempty => ?_) fun _ hnode =>
      hnode.list? ?_
    · rw [asRead, List.isEmpty_iff.1 hempty, List.map_nil]
    · exact forall₂_map_map fun v hv _ hnode =>
        Variable.read?_of_delivers (h.options v hv) (hkeys.options v hv) hnode
  · exact extra?_of_delivers hothers h.extra.sorted h.extra.data

/-- A manifest that was read is sound, and it comes back as it is. -/
theorem settled_of_read? (h : read? node = some manifest) :
    manifest.Sound ∧ manifest.KeysStayApart ∧ manifest.asRead = manifest := by
  obtain ⟨record, hrecord, -, hgroups, hvariables, hextra⟩ := read?_eq_some_iff.1 h
  obtain ⟨_, fields, -, -, -, rfl⟩ := Reading.mapRecord?_eq_some_iff.1 hrecord
  have hgroup : ∀ group ∈ manifest.groups, group.Sound ∧
      (∀ job ∈ group.jobs, job.properties.KeysStayApart) ∧ group.asRead = group := by
    intro group hmem
    obtain ⟨_, hread⟩ := Record.exists_of_mem_list? hgroups hmem
    exact InstanceGroup.settled_of_read? hread
  have hvariable : ∀ v ∈ manifest.variables, v.options.Settled ∧ v.asRead = v := by
    intro v hmem
    obtain ⟨_, hread⟩ := Record.exists_of_mem_list? hvariables hmem
    exact Variable.settled_of_read? hread
  refine ⟨⟨fun group hmem => (hgroup group hmem).1, fun v hmem => (hvariable v hmem).1.wellFormed,
    Extra.kept_of_extra? hextra⟩, ⟨fun group hmem => (hgroup group hmem).2.1,
    fun v hmem => (hvariable v hmem).1.keysStayApart⟩, ?_⟩
  rw [asRead, List.map_congr_left fun group hmem => (hgroup group hmem).2.2, List.map_id',
    List.map_congr_left fun v hmem => (hvariable v hmem).2, List.map_id']

end Manifest

end PropertyTree
