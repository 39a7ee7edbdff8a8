import Mathlib.Tactic.Lemma
import PropertyTree.Selector.Operation

/-!
# Manifests as maps over their jobs

Whatever an operation does to the properties of jobs, it leaves the rest of the manifest alone.
`Manifest.mapJobs` says this in one equation: it rewrites every job, with its position in hand, and
keeps all groups, all orders and all other fields.  Putting one job back is such a map
(`setJob_eq_mapJobs`), and maps compose (`mapJobs_mapJobs`), so any number of edits is one map.

Two maps that agree on the jobs that are there are equal (`mapJobs_congr`); this is how a fold over
positions is compared with the map it comes to.
-/

namespace PropertyTree

namespace InstanceGroup

/-- Rewrites every job of a group in its place. -/
def mapJobs (f : Nat → Job → Job) (group : InstanceGroup) : InstanceGroup :=
  { group with jobs := group.jobs.mapIdx f }

@[simp] lemma mapJobs_id (group : InstanceGroup) : group.mapJobs (fun _ job => job) = group := by
  have hjobs : group.jobs.mapIdx (fun _ job => job) = group.jobs := by
    rw [List.mapIdx_eq_iff]
    intro j
    cases group.jobs[j]? <;> rfl
  rw [mapJobs, hjobs]

lemma mapJobs_congr {f g : Nat → Job → Job} {group : InstanceGroup}
    (h : ∀ (j : Nat) (job : Job), group.jobs[j]? = some job → f j job = g j job) :
    group.mapJobs f = group.mapJobs g := by
  have hjobs : group.jobs.mapIdx f = group.jobs.mapIdx g := by
    rw [List.mapIdx_eq_iff]
    intro j
    rw [List.getElem?_mapIdx]
    exact Option.map_congr fun job hjob => (h j job hjob).symm
  rw [mapJobs, mapJobs, hjobs]

end InstanceGroup

namespace Manifest

/-- Rewrites every job in its place. -/
def mapJobs (f : Position → Job → Job) (manifest : Manifest) : Manifest :=
  { manifest with
    groups := manifest.groups.mapIdx fun g group => group.mapJobs fun j => f ⟨g, j⟩ }

variable {manifest : Manifest} {f g : Position → Job → Job} {p : Position} {job : Job}

/-! ## The jobs and their positions -/

lemma mem_jobs_iff : job ∈ manifest.jobs ↔ ∃ p, manifest.job? p = some job := by
  rw [jobs, List.mem_flatMap]
  constructor
  · rintro ⟨group, hgroup, hjob⟩
    obtain ⟨i, hi⟩ := List.mem_iff_getElem?.1 hgroup
    obtain ⟨j, hj⟩ := List.mem_iff_getElem?.1 hjob
    exact ⟨⟨i, j⟩, by rw [job?, hi, Option.bind_some, hj]⟩
  · rintro ⟨p, hp⟩
    obtain ⟨group, hgroup, hjob⟩ := Option.bind_eq_some_iff.1 hp
    exact ⟨group, List.mem_of_getElem? hgroup, List.mem_of_getElem? hjob⟩

/-! ## The job at a position of a map -/

@[simp] lemma job?_mapJobs (f : Position → Job → Job) (manifest : Manifest) (p : Position) :
    (manifest.mapJobs f).job? p = (manifest.job? p).map (f p) := by
  simp only [job?, mapJobs, List.getElem?_mapIdx]
  cases manifest.groups[p.group]? with
  | none => rfl
  | some group => simp [InstanceGroup.mapJobs]

/-- Only what a map does to the jobs that are there counts. -/
lemma mapJobs_congr (h : ∀ p job, manifest.job? p = some job → f p job = g p job) :
    manifest.mapJobs f = manifest.mapJobs g := by
  have hgroups : manifest.groups.mapIdx (fun i group => group.mapJobs fun j => f ⟨i, j⟩) =
      manifest.groups.mapIdx fun i group => group.mapJobs fun j => g ⟨i, j⟩ := by
    rw [List.mapIdx_eq_iff]
    intro i
    rw [List.getElem?_mapIdx]
    refine Option.map_congr fun group hgroup => InstanceGroup.mapJobs_congr fun j job hjob => ?_
    exact (h ⟨i, j⟩ job (by simp [job?, hgroup, hjob])).symm
  rw [mapJobs, mapJobs, hgroups]

@[simp] lemma mapJobs_id (manifest : Manifest) :
    manifest.mapJobs (fun _ job => job) = manifest := by
  have hgroups : manifest.groups.mapIdx
      (fun _ group => InstanceGroup.mapJobs (fun _ job => job) group) = manifest.groups := by
    rw [List.mapIdx_eq_iff]
    intro i
    cases manifest.groups[i]? with
    | none => rfl
    | some group => rw [Option.map_some, InstanceGroup.mapJobs_id]
  rw [mapJobs, hgroups]

lemma mapJobs_mapJobs (f g : Position → Job → Job) (manifest : Manifest) :
    (manifest.mapJobs g).mapJobs f = manifest.mapJobs fun p job => f p (g p job) := by
  simp [mapJobs, InstanceGroup.mapJobs, List.mapIdx_mapIdx, Function.comp_def]

/-! ## Putting one job back -/

lemma setJob_eq_mapJobs (manifest : Manifest) (p : Position) (job : Job) :
    manifest.setJob p job = manifest.mapJobs fun q old => if q = p then job else old := by
  have hset : ∀ group : InstanceGroup, { group with jobs := group.jobs.set p.job job } =
      group.mapJobs fun j old => if (⟨p.group, j⟩ : Position) = p then job else old := by
    intro group
    obtain ⟨pg, pj⟩ := p
    simp only [InstanceGroup.mapJobs, Position.mk.injEq, true_and, InstanceGroup.mk.injEq, and_true]
    refine List.ext_getElem? fun j => ?_
    rw [List.getElem?_set', List.getElem?_mapIdx]
    by_cases hj : pj = j
    · rw [if_pos hj]
      exact Option.map_congr fun old _ => by rw [if_pos hj.symm]; rfl
    · have hne : j ≠ pj := fun h => hj h.symm
      simp [hj, hne]
  have hgroups : manifest.groups.modify p.group
      (fun group => { group with jobs := group.jobs.set p.job job }) =
        manifest.groups.mapIdx fun i group =>
          group.mapJobs fun j old => if (⟨i, j⟩ : Position) = p then job else old := by
    refine List.ext_getElem? fun i => ?_
    rw [List.getElem?_modify, List.getElem?_mapIdx]
    refine Option.map_congr fun group _ => ?_
    split
    case isTrue hi => rw [← hi, hset]
    case isFalse hi =>
      have hne : ∀ j, (⟨i, j⟩ : Position) ≠ p := by rintro j rfl; exact hi rfl
      simp [hne]
  rw [setJob, mapJobs, hgroups]

lemma job?_setJob (manifest : Manifest) (p q : Position) (job : Job) :
    (manifest.setJob p job).job? q =
      (manifest.job? q).map fun old => if q = p then job else old := by
  rw [setJob_eq_mapJobs, job?_mapJobs]

/-- Putting back the job that is there changes nothing. -/
lemma setJob_job? (h : manifest.job? p = some job) : manifest.setJob p job = manifest := by
  rw [setJob_eq_mapJobs]
  refine (mapJobs_congr fun q old hold => ?_).trans (mapJobs_id manifest)
  split
  case isFalse => rfl
  case isTrue hq =>
    subst hq
    exact Option.some.inj (h.symm.trans hold)

/-! ## Searching after a map -/

lemma jobIndices_mapIdx {f : Nat → Job → Job} (hf : ∀ j job, (f j job).name = job.name)
    (name : String) (start : Nat) (jobs : List Job) :
    jobIndices name start (jobs.mapIdx f) = jobIndices name start jobs := by
  induction jobs generalizing start f with
  | nil => rfl
  | cons job rest ih =>
    rw [List.mapIdx_cons, jobIndices, jobIndices, hf, ih fun j => hf (j + 1)]

lemma findIn_mapIdx {f : Nat → Nat → Job → Job} (hf : ∀ i j job, (f i j job).name = job.name)
    {test : InstanceGroup → Bool} (htest : ∀ group f, test (group.mapJobs f) = test group)
    (name : String) (start : Nat) (groups : List InstanceGroup) :
    findIn test name start (groups.mapIdx fun i group => group.mapJobs (f i)) =
      findIn test name start groups := by
  induction groups generalizing start f with
  | nil => rfl
  | cons group rest ih =>
    rw [List.mapIdx_cons, findIn, findIn, htest, ih fun i => hf (i + 1), InstanceGroup.mapJobs,
      jobIndices_mapIdx (hf 0)]

/-- A search finds the same positions after jobs were rewritten without renaming them. -/
lemma findJobs_mapJobs {f : Position → Job → Job} (hf : ∀ p job, (f p job).name = job.name)
    (manifest : Manifest) (group? : Option String) (name : String) :
    (manifest.mapJobs f).findJobs group? name = manifest.findJobs group? name := by
  refine findIn_mapIdx (fun i j => hf ⟨i, j⟩) (fun group f => ?_) name 0 manifest.groups
  cases group? <;> rfl

end Manifest

end PropertyTree
