import PropertyTree.Proofs.JobMap
import PropertyTree.Proofs.JsonTrees
import PropertyTree.Proofs.SelectorSteps
import PropertyTree.Proofs.SimilarWalks

/-!
# Saving and loading manifests

What a selector does to a manifest keeps it sound, as long as the trees that it is given are
well-formed: an edit replaces properties by a walk that keeps trees well-formed, and all else in the
records is left alone (`Operation.run_sound`).  So a manifest that was loaded can be saved and
loaded again after any chain of edits.

The text layers are taken at their word: `Reading.TrueTo` says that what was read of a text delivers
the document that was written.  For JSON this asks nothing impossible, as a manifest that was loaded
from JSON is written as a tree that JSON can hold.
-/

namespace PropertyTree

/-! ## Edits keep manifests sound -/

namespace Manifest

variable {m : Manifest} {p : Position} {job : Job} {properties : Value} {v : Variable}

lemma Sound.job? (h : m.Sound) (hjob : m.job? p = some job) : job.Sound := by
  obtain ⟨group, hgroup, hjob⟩ := Option.bind_eq_some_iff.1 hjob
  exact (h.groups group (List.mem_of_getElem? hgroup)).jobs job (List.mem_of_getElem? hjob)

/-- A manifest stays sound if properties of a job are replaced by well-formed ones. -/
lemma Sound.setJob (h : m.Sound) (hjob : m.job? p = some job)
    (hproperties : properties.WellFormed) : (m.setJob p { job with properties }).Sound := by
  have hsound : Job.Sound { job with properties } := ⟨hproperties, (h.job? hjob).extra⟩
  refine ⟨fun group hgroup => ?_, h.options, h.extra⟩
  obtain ⟨i, hi⟩ := List.mem_iff_getElem?.1 hgroup
  have hi : (m.groups.modify p.group fun group =>
      { group with jobs := group.jobs.set p.job { job with properties } })[i]? = some group := hi
  rw [List.getElem?_modify] at hi
  obtain ⟨old, hold, rfl⟩ := Option.map_eq_some_iff.1 hi
  have holdSound := h.groups old (List.mem_of_getElem? hold)
  split
  case isFalse => exact holdSound
  case isTrue =>
    refine ⟨fun job' hjob' => ?_, holdSound.extra⟩
    rcases List.mem_or_eq_of_mem_set hjob' with hmem | rfl
    · exact holdSound.jobs job' hmem
    · exact hsound

/-- An edit of several jobs keeps a manifest sound, also if it fails on the way. -/
lemma Sound.editJobs {act : Action Unit} (h : m.Sound)
    (hact : ∀ c, c.WellFormed → (act c).2.WellFormed) (path : Path) (vivify : Bool)
    (positions : List Position) : (editJobs path vivify act positions m).value.2.Sound := by
  induction positions generalizing m with
  | nil => exact h
  | cons p rest ih =>
    cases hjob : m.job? p with
    | none =>
      simp only [Manifest.editJobs, hjob]
      exact ih h
    | some job =>
      have hvisit := (h.job? hjob).properties.visit hact path vivify
      have hset := h.setJob hjob hvisit
      cases houtcome : (job.properties.visit path vivify act).outcome with
      | error failure =>
        simp only [Manifest.editJobs, hjob, houtcome]
        exact hset
      | ok _ =>
        simp only [Manifest.editJobs, hjob, houtcome]
        exact ih hset

lemma Sound.addVariable {m' : Manifest} (h : m.Sound) (hv : v.options.WellFormed)
    (hadded : (m.addVariable v).value = .ok m') : m'.Sound := by
  unfold Manifest.addVariable at hadded
  split at hadded
  case isTrue => cases hadded
  case isFalse =>
    cases hadded
    refine ⟨h.groups, fun w hw => ?_, h.extra⟩
    rcases List.mem_append.1 hw with hw | hw
    · exact h.options w hw
    · rw [List.mem_singleton.1 hw]
      exact hv

end Manifest

namespace Selector

variable {s : Selector}

lemma sound_perform {call : Call} {operation : Selector → Logged Selector}
    (h : s.manifest.Sound) (hoperation : (operation s).value.manifest.Sound) :
    (s.perform call operation).value.manifest.Sound := by
  rcases perform_value s call operation with hsame | hdone
  · rwa [hsame]
  · rwa [hdone]

lemma sound_edit {act : Path → Action Unit} (h : s.manifest.Sound)
    (hact : ∀ path c, c.WellFormed → (act path c).2.WellFormed) (pathText : String)
    (vivify : Bool) : (s.edit pathText vivify act).value.manifest.Sound := by
  unfold edit
  split
  case h_1 => rwa [manifest_fail]
  case h_2 path _ =>
    split
    case isTrue => rwa [manifest_fail]
    case isFalse =>
      have hedited := h.editJobs (hact path) path vivify s.positions
      dsimp only
      split
      · exact hedited
      · rwa [manifest_fail]

lemma sound_addVariable {v : Variable} (h : s.manifest.Sound) (hv : v.options.WellFormed) :
    (s.addVariable v).value.manifest.Sound := by
  refine sound_perform h ?_
  dsimp only
  split
  case h_1 hadded => exact h.addVariable hv hadded
  case h_2 => rwa [manifest_fail]

lemma sound_read {α : Type} {extract : Path → Value → Except Failure α} (h : s.manifest.Sound)
    (call : Call) (pathText : String) :
    (s.read call pathText extract).value.2.manifest.Sound := by
  have hread : (s.readJob call pathText extract).value.2.manifest.Sound := by
    unfold readJob
    split
    case h_1 | h_3 => exact h
    case h_2 p _ =>
      split
      case h_1 => exact h
      case h_2 path _ =>
        split
        case h_1 => exact h
        case h_2 job hjob =>
          exact h.setJob hjob ((h.job? hjob).properties.visit (fun _ hc => hc) path false)
  unfold read
  split
  case h_1 => exact h
  case h_2 =>
    dsimp only
    split
    case h_1 answer s' hanswer => rwa [hanswer] at hread
    case h_2 failure s' hfailure =>
      rw [hfailure] at hread
      rwa [manifest_fail]

end Selector

namespace Operation

variable {σ : Type} {s : Selector}

/-- An operation without a function, whose trees are well-formed. -/
def WellFormed : Operation σ → Prop
  | addProperty _ value => value.WellFormed
  | addVariable v => v.options.WellFormed
  | forEachSelected _ | forEachGroup _ => False
  | locate _ | locateInGroup .. | removeProperty _ | getTyped .. | getValue _ | get .. => True

/-- An operation keeps the manifest sound. -/
theorem apply_sound {operation : Operation σ} (hoperation : operation.WellFormed)
    (h : s.manifest.Sound) (state : σ) : (operation.apply s state).value.2.1.manifest.Sound := by
  cases operation with
  | locate name | locateInGroup group name =>
    refine Selector.sound_perform h ?_
    rwa [Selector.manifest_select]
  | addProperty path value =>
    exact Selector.sound_perform h (Selector.sound_edit h
      (fun path c => (Value.blind_set path.last path.text hoperation).keeps c) path true)
  | removeProperty path =>
    exact Selector.sound_perform h (Selector.sound_edit h
      (fun path c => (Value.blind_remove path.last path.text).keeps c) path false)
  | addVariable v => exact Selector.sound_addVariable h hoperation
  | getTyped type path => exact Selector.sound_read h (callOf type) path
  | getValue path => exact Selector.sound_read h .getValue path
  | get type path => exact Selector.sound_read h .get path
  | forEachSelected f | forEachGroup f => cases hoperation

/-- A chain of operations keeps the manifest sound, wherever it fails. -/
theorem run_sound {operations : List (Operation σ)}
    (hoperations : ∀ operation ∈ operations, operation.WellFormed) (h : s.manifest.Sound)
    (state : σ) : (run operations s state).value.2.1.manifest.Sound := by
  induction operations generalizing s state with
  | nil => exact h
  | cons operation rest ih =>
    obtain ⟨hfirst, hrest⟩ := List.forall_mem_cons.1 hoperations
    exact ih hrest (apply_sound hfirst h state) _

end Operation

/-! ## Loading what was saved -/

/-- What was read of a text delivers a document, as a text layer does that is true to what was
written. -/
def Reading.TrueTo (read : Option Reading) (document : Document) : Prop :=
  ∃ node ∈ read, node.Delivers document

instance (read : Option Reading) (document : Document) : Decidable (Reading.TrueTo read document) :=
  inferInstanceAs (Decidable (∃ node ∈ read, _))

namespace Manifest

variable {m : Manifest}

/-- A YAML text is loaded as the manifest of the tree that it delivers. -/
lemma ofYaml_value {text : String} (h : (Yaml.read? text).bind read? = some m) :
    (ofYaml text).value = .ok m := by
  unfold ofYaml
  split
  case h_1 m' hm => rw [Option.some.inj (hm.symm.trans h)]
  case h_2 hnone => cases hnone.symm.trans h

/-- A sound manifest that was saved as YAML is loaded as it comes back. -/
lemma ofYaml_toYaml (h : m.Sound) (hkeys : m.KeysStayApart)
    (hyaml : Reading.TrueTo (Yaml.read? m.toYaml) m.toDocument) :
    (ofYaml m.toYaml).value = .ok m.asRead := by
  obtain ⟨node, hnode, hdelivers⟩ := hyaml
  refine ofYaml_value ?_
  rw [Option.mem_def.1 hnode, Option.bind_some]
  exact read?_of_delivers h hkeys hdelivers

/-- A manifest that was loaded from JSON is written as a tree that JSON can hold, and is the same
after it was saved as JSON. -/
lemma ofJson_toJson {text : String} (h : ofJson text = .ok m) :
    m.toDocument.IsJson ∧ ∃ saved, m.toJson = .ok saved ∧
      (Reading.TrueTo (Json.read? saved) m.toDocument → ofJson saved = .ok m) := by
  have hbind : (Json.read? text).bind read? = some m := by
    unfold ofJson orError at h
    split at h
    case h_1 hm => rw [hm, Except.ok.inj h]
    case h_2 => cases h
  obtain ⟨node, hnode, hread⟩ := Option.bind_eq_some_iff.1 hbind
  have hjson := isJson_of_read? (Json.isJson_of_read? hnode) hread
  obtain ⟨saved, hsaved⟩ := Json.exists_text hjson .pretty 0
  refine ⟨hjson, saved, hsaved, ?_⟩
  rintro ⟨node', hnode', hdelivers⟩
  obtain ⟨hsound, hkeys, hsame⟩ := settled_of_read? hread
  rw [ofJson, Option.mem_def.1 hnode', Option.bind_some,
    read?_of_delivers hsound hkeys hdelivers, hsame]
  rfl

/-- Saving and loading a manifest that was read.  If the text layers are true to what they are
given:

* it is the same after it was saved as YAML and loaded;
* if it was loaded from JSON, it can be saved as JSON, as a tree that JSON can hold, and is the same
  when it is loaded from there;
* after any chain of operations, also one that fails on the way, the edited manifest is loaded with
  its mappings turned, and its trees come back with no other change, unless keys of a mapping become
  equal by the change. -/
theorem save_load {node : Reading} (h : read? node = some m) :
    (Reading.TrueTo (Yaml.read? m.toYaml) m.toDocument → (ofYaml m.toYaml).value = .ok m) ∧
    (∀ text, ofJson text = .ok m →
      m.toDocument.IsJson ∧ ∃ saved, m.toJson = .ok saved ∧
        (Reading.TrueTo (Json.read? saved) m.toDocument → ofJson saved = .ok m)) ∧
    ∀ (options : SelectorOptions) (σ : Type) (operations : List (Operation σ)) (state : σ),
      (∀ operation ∈ operations, operation.WellFormed) →
      let edited := (Operation.run operations (Selector.new m options) state).value.2.1.manifest
      edited.KeysStayApart → Reading.TrueTo (Yaml.read? edited.toYaml) edited.toDocument →
        (ofYaml edited.toYaml).value = .ok edited.asRead ∧
        (∀ job ∈ edited.jobs, job.properties.ComesBackAs job.properties.asRead) ∧
        ∀ v ∈ edited.variables, v.options.ComesBackAs v.options.asRead := by
  obtain ⟨hsound, hapart, hsame⟩ := settled_of_read? h
  refine ⟨fun hyaml => ?_, fun text hjson => ofJson_toJson hjson, ?_⟩
  · rw [ofYaml_toYaml hsound hapart hyaml, hsame]
  · intro options σ operations state hoperations edited hkeys hyaml
    have hedited : edited.Sound := Operation.run_sound hoperations hsound state
    refine ⟨ofYaml_toYaml hedited hkeys hyaml, fun job hjob => ?_, fun v hv => ?_⟩
    · obtain ⟨group, hgroup, hjob⟩ := List.mem_flatMap.1 hjob
      exact Value.comesBackAs_asRead (hkeys.properties group hgroup job hjob)
    · exact Value.comesBackAs_asRead (hkeys.options v hv)

/-- A manifest without groups, with a field that it does not know. -/
def noted : Manifest :=
  { Manifest.new "d" with extra := [("z", .atom (.int 1))] }

/-- A manifest with one job of some properties, and with fields that its records do not know. -/
def deployment (properties : Value) : Manifest :=
  noted.withGroup {
    InstanceGroup.new "g" with
      jobs := [{ Job.new "a" "" with properties, extra := [("x", .map [])] }]
      extra := [("y", .seq [.text "b"])] }

/-- Edits that make an any-keyed mapping with a string key; the last one fails. -/
def deploymentChain : List (Operation Unit) :=
  [.locate "a", .addProperty "p/q" (.int 1), .addProperty "p/q/s" .null]

/-- The properties after these edits. -/
def editedProperties : Value :=
  .strMap [("p", .anyMap [(.text "q", .int 1)])]

lemma keysStayApart_editedProperties : editedProperties.KeysStayApart := by
  refine .strMap (List.forall_mem_singleton.2 (.anyMap (List.pairwise_singleton _ _) ?_ ?_))
  · simp [Value.KeysStayApart.scalar]
  · simp [Value.KeysStayApart.scalar]

/-- A manifest is saved and loaded as YAML and as JSON, and another one as YAML after some edits. -/
theorem save_load_deployment :
    (ofYaml noted.toYaml).value = .ok noted ∧
      (∃ saved, noted.toJson = .ok saved ∧ ofJson saved = .ok noted) ∧
      (ofYaml (deployment editedProperties).toYaml).value =
        .ok (deployment editedProperties.asRead) ∧
      editedProperties.asRead ≠ editedProperties := by
  have hnoted : read? noted.toDocument.toReading = some noted := by decide +kernel
  have hdeployment : read? (deployment .null).toDocument.toReading = some (deployment .null) := by
    decide +kernel
  obtain ⟨hyaml, hjson, -⟩ := save_load hnoted
  obtain ⟨-, -, hchain⟩ := save_load hdeployment
  refine ⟨hyaml (by decide +kernel), ?_, ?_, by decide +kernel⟩
  · have hloaded : ofJson (noted.toJson.toOption.getD "") = .ok noted := by
      decide +kernel
    obtain ⟨-, saved, hsaved, hload⟩ := hjson _ hloaded
    have htext : noted.toJson.toOption.getD "" = saved := by
      rw [hsaved]
      rfl
    have htrue : Reading.TrueTo (Json.read? saved) noted.toDocument := by
      rw [← htext]
      decide +kernel
    exact ⟨saved, hsaved, hload htrue⟩
  · have hoperations : ∀ operation ∈ deploymentChain, operation.WellFormed := by
      simp [deploymentChain, Operation.WellFormed, Value.WellFormed.scalar]
    have hedited : (Operation.run deploymentChain
        (Selector.new (deployment .null) .quiet) ()).value.2.1.manifest =
          deployment editedProperties := by decide +kernel
    have hkeys : (deployment editedProperties).KeysStayApart :=
      ⟨by simpa [deployment, withGroup, noted, new] using keysStayApart_editedProperties,
        by simp [deployment, withGroup, noted, new]⟩
    have htrue : Reading.TrueTo (Yaml.read? (deployment editedProperties).toYaml)
        (deployment editedProperties).toDocument := by decide +kernel
    have hloaded := hchain .quiet Unit deploymentChain () hoperations
    rw [hedited] at hloaded
    exact (hloaded hkeys htrue).1

end Manifest

end PropertyTree
