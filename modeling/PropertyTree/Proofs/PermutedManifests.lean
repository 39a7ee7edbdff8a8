import PropertyTree.Manifest.Document
import PropertyTree.Proofs.PermutedWalks
import PropertyTree.Selector.Basic

/-!
# Permuted manifests

The trees of a manifest are the properties of its jobs and the options of its variables.
`Manifest.built` is the manifest that insertion makes, tree by tree.  It is saved as the same
document (`Manifest.toDocument_built`) and has its jobs at the same positions (`job?_built`,
`findJobs_built`), and an edit of several jobs on it comes to what insertion makes of the edit
(`editJobs_built`).

A function that is passed over jobs or groups may look at anything, hence also at the order of
fields. `FieldOrders.Interchangeable` says of two functions that they do not.
-/

namespace PropertyTree

/-! ## Jobs, groups and variables -/

lemma fieldUnlessNull_built (name : String) (value : Value) :
    fieldUnlessNull name value.built = fieldUnlessNull name value := by
  rw [fieldUnlessNull, fieldUnlessNull, Value.isNull_built, Value.toDocument_built]

namespace Job

/-- The job with the property tree that insertion makes. -/
def built (job : Job) : Job := { job with properties := job.properties.built }

/-- The keys in the property tree of a job are distinct. -/
def DistinctKeys (job : Job) : Prop := job.properties.DistinctKeys

/-- Jobs that differ in the order of fields in their property trees only. -/
structure Permuted (a b : Job) : Prop where
  name : a.name = b.name
  release : a.release = b.release
  properties : a.properties.Permuted b.properties
  extra : a.extra = b.extra

variable {a b : Job}

lemma distinctKeys_built (job : Job) : job.built.DistinctKeys :=
  Value.distinctKeys_built job.properties

@[simp] lemma built_built (job : Job) : job.built.built = job.built := by
  rw [built, built, Value.built_built]

lemma Permuted.distinctKeys (ha : a.DistinctKeys) (h : a.Permuted b) : b.DistinctKeys :=
  Value.Permuted.distinctKeys ha h.properties

lemma permuted_iff (ha : a.DistinctKeys) (hb : b.DistinctKeys) :
    a.Permuted b ↔ a.built = b.built := by
  rw [built, built, mk.injEq, ← Value.permuted_iff ha hb]
  exact ⟨fun h => ⟨h.name, h.release, h.properties, h.extra⟩,
    fun ⟨hname, hrelease, hproperties, hextra⟩ => ⟨hname, hrelease, hproperties, hextra⟩⟩

lemma toDocument_built (job : Job) : job.built.toDocument = job.toDocument := by
  rw [toDocument, toDocument, built, fieldUnlessNull_built]

end Job

namespace InstanceGroup

/-- The group with the property trees that insertion makes. -/
def built (group : InstanceGroup) : InstanceGroup := { group with jobs := group.jobs.map Job.built }

/-- The keys in the property trees of a group are distinct. -/
def DistinctKeys (group : InstanceGroup) : Prop := ∀ job ∈ group.jobs, job.DistinctKeys

/-- Groups that differ in the order of fields in the property trees of their jobs only. -/
structure Permuted (a b : InstanceGroup) : Prop where
  name : a.name = b.name
  instances : a.instances = b.instances
  jobs : List.Forall₂ Job.Permuted a.jobs b.jobs
  extra : a.extra = b.extra

variable {a b : InstanceGroup}

lemma distinctKeys_built (group : InstanceGroup) : group.built.DistinctKeys :=
  List.forall_mem_map.2 fun job _ => job.distinctKeys_built

@[simp] lemma built_built (group : InstanceGroup) : group.built.built = group.built := by
  have hjobs : Job.built ∘ Job.built = Job.built := funext Job.built_built
  rw [built, built, List.map_map, hjobs]

lemma Permuted.distinctKeys (ha : a.DistinctKeys) (h : a.Permuted b) : b.DistinctKeys :=
  forall_mem_of_forall₂ h.jobs fun job hjob _ hjobs => hjobs.distinctKeys (ha job hjob)

lemma permuted_iff (ha : a.DistinctKeys) (hb : b.DistinctKeys) :
    a.Permuted b ↔ a.built = b.built := by
  have hjobs : List.Forall₂ Job.Permuted a.jobs b.jobs ↔
      a.jobs.map Job.built = b.jobs.map Job.built :=
    ⟨fun h => map_eq_map_of_forall₂ h fun job hjob _ hjobs =>
      (Job.permuted_iff (ha job hjob) (hjobs.distinctKeys (ha job hjob))).1 hjobs,
    fun h => forall₂_of_map_eq h fun job hjob job' hjob' =>
      (Job.permuted_iff (ha job hjob) (hb job' hjob')).2⟩
  rw [built, built, mk.injEq, ← hjobs]
  exact ⟨fun h => ⟨h.name, h.instances, h.jobs, h.extra⟩,
    fun ⟨hname, hinstances, hjobs, hextra⟩ => ⟨hname, hinstances, hjobs, hextra⟩⟩

lemma toDocument_built (group : InstanceGroup) : group.built.toDocument = group.toDocument := by
  have hjobs : Job.toDocument ∘ Job.built = Job.toDocument := funext Job.toDocument_built
  rw [toDocument, toDocument, built, List.map_map, hjobs]

end InstanceGroup

namespace Variable

/-- The variable with the options that insertion makes. -/
def built (v : Variable) : Variable := { v with options := v.options.built }

/-- Variables that differ in the order of fields in their options only. -/
structure Permuted (v w : Variable) : Prop where
  name : v.name = w.name
  type : v.type = w.type
  options : v.options.Permuted w.options

lemma Permuted.built_eq {v w : Variable} (hv : v.options.DistinctKeys) (h : v.Permuted w) :
    v.built = w.built := by
  rw [built, built, h.name, h.type, Value.Permuted.built_eq hv h.options]

lemma toDocument_built (v : Variable) : v.built.toDocument = v.toDocument := by
  rw [toDocument, toDocument, built, fieldUnlessNull_built]

end Variable

namespace Manifest

/-- The manifest with the trees that insertion makes. -/
def built (manifest : Manifest) : Manifest :=
  { manifest with
    groups := manifest.groups.map InstanceGroup.built
    «variables» := manifest.variables.map Variable.built }

/-- The keys in the trees of a manifest are distinct. -/
structure DistinctKeys (manifest : Manifest) : Prop where
  groups : ∀ group ∈ manifest.groups, group.DistinctKeys
  options : ∀ v ∈ manifest.variables, v.options.DistinctKeys

/-- Manifests that differ in the order of fields in their trees only. -/
structure Permuted (m n : Manifest) : Prop where
  name : m.name = n.name
  groups : List.Forall₂ InstanceGroup.Permuted m.groups n.groups
  declared : List.Forall₂ Variable.Permuted m.variables n.variables
  extra : m.extra = n.extra

variable {m n : Manifest} {p : Position} {job : Job}

lemma Permuted.distinctKeys (hm : m.DistinctKeys) (h : m.Permuted n) : n.DistinctKeys where
  groups := forall_mem_of_forall₂ h.groups fun group hgroup _ horder =>
    horder.distinctKeys (hm.groups group hgroup)
  options := forall_mem_of_forall₂ h.declared fun v hv _ horder =>
    Value.Permuted.distinctKeys (hm.options v hv) horder.options

/-- Inserting fields in any order makes the same manifest. -/
theorem Permuted.built_eq (hm : m.DistinctKeys) (h : m.Permuted n) : m.built = n.built := by
  have hgroups : m.groups.map InstanceGroup.built = n.groups.map InstanceGroup.built := by
    refine map_eq_map_of_forall₂ h.groups fun group hgroup group' horder => ?_
    have hdistinct := hm.groups group hgroup
    exact (InstanceGroup.permuted_iff hdistinct (horder.distinctKeys hdistinct)).1 horder
  have hdeclared : m.variables.map Variable.built = n.variables.map Variable.built :=
    map_eq_map_of_forall₂ h.declared fun v hv _ horder => horder.built_eq (hm.options v hv)
  rw [built, built, hgroups, hdeclared, h.name, h.extra]

/-- A manifest is saved as the document of the manifest that insertion makes. -/
theorem toDocument_built (manifest : Manifest) :
    manifest.built.toDocument = manifest.toDocument := by
  have hgroups : InstanceGroup.toDocument ∘ InstanceGroup.built = InstanceGroup.toDocument :=
    funext InstanceGroup.toDocument_built
  have hdeclared : Variable.toDocument ∘ Variable.built = Variable.toDocument :=
    funext Variable.toDocument_built
  simp only [toDocument, built, List.map_map, hgroups, hdeclared, List.isEmpty_map]

/-! ## Looking up and putting back -/

lemma job?_built (manifest : Manifest) (p : Position) :
    manifest.built.job? p = (manifest.job? p).map Job.built := by
  rw [job?, job?, built, List.getElem?_map]
  cases manifest.groups[p.group]? with
  | none => rfl
  | some group => exact List.getElem?_map

lemma job?_built_of_missing (h : m.job? p = none) : m.built.job? p = none := by
  rw [job?_built, h, Option.map_none]

lemma job?_built_of_found (h : m.job? p = some job) : m.built.job? p = some job.built := by
  rw [job?_built, h, Option.map_some]

lemma built_setJob (manifest : Manifest) (p : Position) (job : Job) :
    (manifest.setJob p job).built = manifest.built.setJob p job.built := by
  rw [setJob, setJob, built, built, mk.injEq]
  refine ⟨rfl, List.ext_getElem? fun i => ?_, rfl, rfl⟩
  simp only [List.getElem?_map, List.getElem?_modify]
  cases manifest.groups[i]? with
  | none => rfl
  | some group =>
    simp only [Option.map_eq_map, Option.map_some]
    split
    case isTrue => simp only [InstanceGroup.built, List.map_set]
    case isFalse => rfl

/-- Putting back a job with another tree. -/
lemma setJob_properties_built (manifest : Manifest) (p : Position) (job : Job) (tree : Value) :
    manifest.built.setJob p { job.built with properties := tree.built } =
      (manifest.setJob p { job with properties := tree }).built :=
  (built_setJob manifest p { job with properties := tree }).symm

lemma DistinctKeys.of_job? (h : m.DistinctKeys) (hjob : m.job? p = some job) :
    job.DistinctKeys := by
  obtain ⟨group, hgroup, hjob⟩ := Option.bind_eq_some_iff.1 hjob
  exact h.groups group (List.mem_of_getElem? hgroup) job (List.mem_of_getElem? hjob)

lemma DistinctKeys.setJob (h : m.DistinctKeys) (hjob : job.DistinctKeys) (p : Position) :
    (m.setJob p job).DistinctKeys := by
  refine ⟨fun group hgroup => ?_, h.options⟩
  obtain ⟨i, hi⟩ := List.mem_iff_getElem?.1 hgroup
  rw [Manifest.setJob, List.getElem?_modify] at hi
  obtain ⟨old, hold, rfl⟩ := Option.map_eq_some_iff.1 hi
  have hdistinct := h.groups old (List.mem_of_getElem? hold)
  split
  case isTrue =>
    intro job' hjob'
    rcases List.mem_or_eq_of_mem_set hjob' with hold | rfl
    · exact hdistinct job' hold
    · exact hjob
  case isFalse => exact hdistinct

lemma DistinctKeys.setProperties {tree : Value} (h : m.DistinctKeys) (htree : tree.DistinctKeys)
    (p : Position) (job : Job) : (m.setJob p { job with properties := tree }).DistinctKeys :=
  h.setJob (show Job.DistinctKeys { job with properties := tree } from htree) p

lemma jobIndices_built (name : String) (start : Nat) (jobs : List Job) :
    jobIndices name start (jobs.map Job.built) = jobIndices name start jobs := by
  induction jobs generalizing start with
  | nil => rfl
  | cons job rest ih => rw [List.map_cons, jobIndices, jobIndices, ih, Job.built]

lemma findIn_built {test : InstanceGroup → Bool} (htest : ∀ group, test group.built = test group)
    (name : String) (start : Nat) (groups : List InstanceGroup) :
    findIn test name start (groups.map InstanceGroup.built) = findIn test name start groups := by
  induction groups generalizing start with
  | nil => rfl
  | cons group rest ih =>
    rw [List.map_cons, findIn, findIn, htest, ih, InstanceGroup.built, jobIndices_built]

/-- A search finds the same positions. -/
lemma findJobs_built (manifest : Manifest) (group? : Option String) (name : String) :
    manifest.built.findJobs group? name = manifest.findJobs group? name := by
  refine findIn_built (fun group => ?_) name 0 manifest.groups
  cases group? <;> rfl

/-! ## Editing several jobs -/

theorem editJobs_built {act act' : Action Unit} (hact : Value.OrderBlind id act act') (path : Path)
    (vivify : Bool) (positions : List Position) (hm : m.DistinctKeys) :
    editJobs path vivify act' positions m.built =
        (editJobs path vivify act positions m).map (fun edited => (edited.1, edited.2.built)) ∧
      (editJobs path vivify act positions m).value.2.DistinctKeys := by
  induction positions generalizing m with
  | nil => exact ⟨rfl, hm⟩
  | cons p rest ih =>
    cases hjob : m.job? p with
    | none =>
      simp only [editJobs, hjob, job?_built_of_missing hjob]
      exact ih hm
    | some job =>
      obtain ⟨hvisit, hkeys⟩ := Value.visit_built hact path vivify (hm.of_job? hjob)
      have hvisit : job.built.properties.visit path vivify act' =
          (job.properties.visit path vivify act).built id := hvisit
      have hm' := hm.setProperties hkeys p job
      obtain ⟨hrest, hend⟩ := ih hm'
      simp only [editJobs, hjob, job?_built_of_found hjob, hvisit, Visit.built,
        setJob_properties_built]
      cases (job.properties.visit path vivify act).outcome with
      | error failure => exact ⟨rfl, hm'⟩
      | ok _ =>
        simp only [Except.map, hrest]
        exact ⟨rfl, hend⟩

end Manifest

/-! ## Functions that carry a state -/

/-- Records with trees in them: what insertion makes of one, whether its keys are distinct, and
whether two of them differ in the order of fields only. -/
structure FieldOrders (α : Type) where
  built : α → α
  DistinctKeys : α → Prop
  Permuted : α → α → Prop
  distinctKeys_built : ∀ a, DistinctKeys (built a)
  built_built : ∀ a, built (built a) = built a
  keeps : ∀ {a b}, DistinctKeys a → Permuted a b → DistinctKeys b
  permuted_iff : ∀ {a b}, DistinctKeys a → DistinctKeys b → (Permuted a b ↔ built a = built b)

/-- The orders of fields in jobs. -/
def Job.orders : FieldOrders Job :=
  ⟨built, DistinctKeys, Permuted, distinctKeys_built, built_built, Permuted.distinctKeys,
    permuted_iff⟩

/-- The orders of fields in groups. -/
def InstanceGroup.orders : FieldOrders InstanceGroup :=
  ⟨built, DistinctKeys, Permuted, distinctKeys_built, built_built, Permuted.distinctKeys,
    permuted_iff⟩

namespace FieldOrders

variable {α σ : Type} {o : FieldOrders α} {f g : α → σ → α × σ} {a b : α}

/-- Functions that take arguments in two orders to results in two orders and to one state. -/
def Interchangeable (o : FieldOrders α) (f g : α → σ → α × σ) : Prop :=
  ∀ a b state, o.DistinctKeys a → o.Permuted a b →
    o.DistinctKeys (f a state).1 ∧ o.Permuted (f a state).1 (g b state).1 ∧
      (f a state).2 = (g b state).2

/-- A function to which the order of fields makes no difference, the order in its results aside. -/
structure Blind (o : FieldOrders α) (f : α → σ → α × σ) : Prop where
  keeps : ∀ a state, o.DistinctKeys a → o.DistinctKeys (f a state).1
  built : ∀ a state, o.DistinctKeys a → o.built (f (o.built a) state).1 = o.built (f a state).1
  state : ∀ a state, o.DistinctKeys a → (f (o.built a) state).2 = (f a state).2

/-- The function that takes and gives what insertion makes. -/
def builtFunction (o : FieldOrders α) (f : α → σ → α × σ) : α → σ → α × σ :=
  fun a state => (o.built (f (o.built a) state).1, (f (o.built a) state).2)

lemma Blind.builtFunction_built (h : o.Blind f) (ha : o.DistinctKeys a) (state : σ) :
    o.builtFunction f (o.built a) state = (o.built (f a state).1, (f a state).2) := by
  rw [builtFunction, o.built_built, h.built a state ha, h.state a state ha]

lemma permuted_built (o : FieldOrders α) (ha : o.DistinctKeys a) : o.Permuted a (o.built a) :=
  (o.permuted_iff ha (o.distinctKeys_built a)).2 (o.built_built a).symm

lemma permuted_symm (o : FieldOrders α) (ha : o.DistinctKeys a) (h : o.Permuted a b) :
    o.Permuted b a := by
  have hb := o.keeps ha h
  exact (o.permuted_iff hb ha).2 ((o.permuted_iff ha hb).1 h).symm

lemma Interchangeable.symm (h : o.Interchangeable f g) : o.Interchangeable g f := by
  intro a b state ha horder
  obtain ⟨hkeys, hresults, hstate⟩ := h b a state (o.keeps ha horder) (o.permuted_symm ha horder)
  exact ⟨o.keeps hkeys hresults, o.permuted_symm hkeys hresults, hstate.symm⟩

/-- In the order of insertion the functions cannot be told apart. -/
lemma Interchangeable.apply_built (h : o.Interchangeable f g) (a : α) (state : σ) :
    o.built (f (o.built a) state).1 = o.built (g (o.built a) state).1 ∧
      (f (o.built a) state).2 = (g (o.built a) state).2 := by
  have ha := o.distinctKeys_built a
  obtain ⟨hkeys, horder, hstate⟩ := h _ _ state ha ((o.permuted_iff ha ha).2 rfl)
  exact ⟨(o.permuted_iff hkeys (o.keeps hkeys horder)).1 horder, hstate⟩

lemma Interchangeable.left (h : o.Interchangeable f g) : o.Blind f := by
  have hcross : ∀ a state, o.DistinctKeys a → o.DistinctKeys (f a state).1 ∧
      o.built (f a state).1 = o.built (g (o.built a) state).1 ∧
        (f a state).2 = (g (o.built a) state).2 := by
    intro a state ha
    obtain ⟨hkeys, horder, hstate⟩ := h a (o.built a) state ha (o.permuted_built ha)
    exact ⟨hkeys, (o.permuted_iff hkeys (o.keeps hkeys horder)).1 horder, hstate⟩
  refine ⟨fun a state ha => (hcross a state ha).1, fun a state ha => ?_, fun a state ha => ?_⟩
  · rw [(h.apply_built a state).1, (hcross a state ha).2.1]
  · rw [(h.apply_built a state).2, (hcross a state ha).2.2]

lemma Interchangeable.right (h : o.Interchangeable f g) : o.Blind g := h.symm.left

lemma Interchangeable.builtFunction_eq (h : o.Interchangeable f g) :
    o.builtFunction f = o.builtFunction g := by
  funext a state
  rw [builtFunction, builtFunction, (h.apply_built a state).1, (h.apply_built a state).2]

end FieldOrders

namespace Manifest

variable {σ : Type} {m : Manifest}

lemma visitJobs_built {f : Job → σ → Job × σ} (hf : Job.orders.Blind f) (positions : List Position)
    (hm : m.DistinctKeys) (state : σ) :
    visitJobs (Job.orders.builtFunction f) positions (m.built, state) =
        ((visitJobs f positions (m, state)).1.built, (visitJobs f positions (m, state)).2) ∧
      (visitJobs f positions (m, state)).1.DistinctKeys := by
  induction positions generalizing m state with
  | nil => exact ⟨rfl, hm⟩
  | cons p rest ih =>
    cases hjob : m.job? p with
    | none =>
      simp only [visitJobs, hjob, job?_built_of_missing hjob]
      exact ih hm state
    | some job =>
      have hkeys := hm.of_job? hjob
      have hvisit : Job.orders.builtFunction f job.built state =
          ((f job state).1.built, (f job state).2) := hf.builtFunction_built hkeys state
      simp only [visitJobs, hjob, job?_built_of_found hjob, hvisit, ← built_setJob]
      exact ih (hm.setJob (hf.keeps job state hkeys) p) _

lemma visitGroups_built {f : InstanceGroup → σ → InstanceGroup × σ}
    (hf : InstanceGroup.orders.Blind f) {groups : List InstanceGroup}
    (hgroups : ∀ group ∈ groups, group.DistinctKeys) (state : σ) :
    visitGroups (InstanceGroup.orders.builtFunction f) (groups.map InstanceGroup.built) state =
        ((visitGroups f groups state).1.map InstanceGroup.built, (visitGroups f groups state).2) ∧
      ∀ group ∈ (visitGroups f groups state).1, group.DistinctKeys := by
  induction groups generalizing state with
  | nil => exact ⟨rfl, hgroups⟩
  | cons group rest ih =>
    obtain ⟨hgroup, hrest⟩ := List.forall_mem_cons.1 hgroups
    obtain ⟨hvisited, hkeys⟩ := ih hrest (f group state).2
    have hvisit : InstanceGroup.orders.builtFunction f group.built state =
        ((f group state).1.built, (f group state).2) := hf.builtFunction_built hgroup state
    simp only [List.map_cons, visitGroups, hvisit, hvisited, true_and]
    exact List.forall_mem_cons.2 ⟨hf.keeps group state hgroup, hkeys⟩

end Manifest

end PropertyTree
