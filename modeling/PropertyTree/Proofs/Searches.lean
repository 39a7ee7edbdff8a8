import PropertyTree.Proofs.Reachable

/-!
# What a search finds

A search goes through the groups and, in each that is asked for, through the jobs, and counts along.
Here the counting is undone: the positions that are found are exactly those that hold a job of the
name (`Manifest.mem_findJobs_iff`), and looking them up again gives the jobs of the name, in the
order of the manifest (`Manifest.filterMap_findJobs`).

Both are shown for a search that starts in the middle, with some groups or jobs already behind it,
since that is what the search is doing after its first step.
-/

namespace PropertyTree

/-- An item of a list is its first or comes later. -/
lemma exists_getElem?_cons {α : Type} {a : α} {rest : List α} {P : Nat → α → Prop} :
    (∃ i b, (a :: rest)[i]? = some b ∧ P i b) ↔
      P 0 a ∨ ∃ i b, rest[i]? = some b ∧ P (i + 1) b := by
  constructor
  · rintro ⟨i, b, hb, hP⟩
    cases i with
    | zero => exact .inl (Option.some.inj hb ▸ hP)
    | succ i => exact .inr ⟨i, b, hb, hP⟩
  · rintro (hP | ⟨i, b, hb, hP⟩)
    · exact ⟨0, a, rfl, hP⟩
    · exact ⟨i + 1, b, hb, hP⟩

namespace Manifest

/-- A position holds a job of a name, in a group of a name if one is asked for. -/
def Holds (manifest : Manifest) (group? : Option String) (name : String) (p : Position) : Prop :=
  ∃ group job, manifest.groups[p.group]? = some group ∧ group.jobs[p.job]? = some job ∧
    (∀ wanted ∈ group?, group.name = wanted) ∧ job.name = name

/-- All jobs, or those in the groups of a name, group by group. -/
def jobsIn (manifest : Manifest) : Option String → List Job
  | none => manifest.jobs
  | some wanted => (manifest.groups.filter (·.name = wanted)).flatMap InstanceGroup.jobs

variable {manifest : Manifest} {group? : Option String} {name : String} {p : Position}

lemma Holds.job? (h : manifest.Holds group? name p) :
    ∃ job, manifest.job? p = some job ∧ job.name = name := by
  obtain ⟨group, job, hgroup, hjob, -, hname⟩ := h
  exact ⟨job, by rw [Manifest.job?, hgroup, Option.bind_some, hjob], hname⟩

/-! ## Which positions are found -/

lemma mem_jobIndices_iff {start i : Nat} {jobs : List Job} :
    i ∈ jobIndices name start jobs ↔
      ∃ j job, jobs[j]? = some job ∧ i = start + j ∧ job.name = name := by
  induction jobs generalizing start with
  | nil => simp [jobIndices]
  | cons job rest ih =>
    have hlater : i ∈ jobIndices name (start + 1) rest ↔
        ∃ j job, rest[j]? = some job ∧ i = start + (j + 1) ∧ job.name = name := by
      rw [ih]
      simp only [Nat.add_assoc, Nat.add_comm 1]
    rw [exists_getElem?_cons, jobIndices, ← hlater]
    split
    case isTrue hname => simp [hname]
    case isFalse hname => simp [hname]

lemma mem_findIn_iff {test : InstanceGroup → Bool} {start : Nat} {groups : List InstanceGroup} :
    p ∈ findIn test name start groups ↔
      ∃ g group, groups[g]? = some group ∧ p.group = start + g ∧ test group = true ∧
        p.job ∈ jobIndices name 0 group.jobs := by
  induction groups generalizing start with
  | nil => simp [findIn]
  | cons group rest ih =>
    have hlater : p ∈ findIn test name (start + 1) rest ↔
        ∃ g group, rest[g]? = some group ∧ p.group = start + (g + 1) ∧ test group = true ∧
          p.job ∈ jobIndices name 0 group.jobs := by
      rw [ih]
      simp only [Nat.add_assoc, Nat.add_comm 1]
    have hhere : p ∈ (jobIndices name 0 group.jobs).map (Position.mk start) ↔
        p.group = start ∧ p.job ∈ jobIndices name 0 group.jobs := by
      constructor
      · rintro h
        obtain ⟨j, hj, rfl⟩ := List.mem_map.1 h
        exact ⟨rfl, hj⟩
      · rintro ⟨rfl, hj⟩
        exact List.mem_map_of_mem hj
    rw [exists_getElem?_cons, findIn, List.mem_append, ← hlater]
    split
    case isTrue htest => simp [htest, hhere]
    case isFalse htest => simp [htest]

/-- A search finds exactly the positions that hold a job of the name. -/
theorem mem_findJobs_iff : p ∈ manifest.findJobs group? name ↔ manifest.Holds group? name p := by
  simp only [findJobs, mem_findIn_iff, mem_jobIndices_iff, Nat.zero_add, Holds]
  constructor
  · rintro ⟨g, group, hgroup, hg, htest, j, job, hjob, hj, hname⟩
    rw [← hg] at hgroup
    rw [← hj] at hjob
    refine ⟨group, job, hgroup, hjob, ?_, hname⟩
    cases group? with
    | none => simp
    | some wanted => simpa using htest
  · rintro ⟨group, job, hgroup, hjob, htest, hname⟩
    refine ⟨p.group, group, hgroup, rfl, ?_, p.job, job, hjob, rfl, hname⟩
    cases group? with
    | none => rfl
    | some wanted => simpa using htest

/-! ## Which jobs are found -/

lemma filterMap_jobIndices (name : String) (before jobs : List Job) :
    (jobIndices name before.length jobs).filterMap (fun i => (before ++ jobs)[i]?) =
      jobs.filter (·.name = name) := by
  induction jobs generalizing before with
  | nil => rfl
  | cons job rest ih =>
    have hlater := ih (before ++ [job])
    rw [List.length_append, List.length_singleton, List.append_assoc] at hlater
    have hhere : (before ++ job :: rest)[before.length]? = some job := by simp
    rw [jobIndices]
    split
    case isTrue hname =>
      rw [List.filterMap_cons_some hhere, List.filter_cons_of_pos (by simpa using hname)]
      exact congrArg (job :: ·) hlater
    case isFalse hname =>
      rw [List.filter_cons_of_neg (by simpa using hname)]
      exact hlater

lemma filterMap_findIn (test : InstanceGroup → Bool) (name : String)
    (before groups : List InstanceGroup) :
    (findIn test name before.length groups).filterMap
        (fun p => (before ++ groups)[p.group]?.bind (·.jobs[p.job]?)) =
      ((groups.filter test).flatMap InstanceGroup.jobs).filter (·.name = name) := by
  induction groups generalizing before with
  | nil => rfl
  | cons group rest ih =>
    have hlater := ih (before ++ [group])
    rw [List.length_append, List.length_singleton, List.append_assoc] at hlater
    rw [findIn, List.filterMap_append]
    split
    case isTrue htest =>
      have hhere := filterMap_jobIndices name [] group.jobs
      rw [List.filter_cons_of_pos htest, List.flatMap_cons, List.filter_append, ← hhere]
      have hlook : (fun p : Position => (before ++ group :: rest)[p.group]?.bind (·.jobs[p.job]?)) ∘
          Position.mk before.length = fun i => ([] ++ group.jobs)[i]? := by
        funext i
        simp
      rw [List.filterMap_map, hlook]
      exact congrArg _ hlater
    case isFalse htest =>
      rw [List.filter_cons_of_neg htest]
      exact hlater

/-- The jobs at the positions that a search finds are the jobs of the name, in the order of the
manifest. -/
theorem filterMap_findJobs (manifest : Manifest) (group? : Option String) (name : String) :
    (manifest.findJobs group? name).filterMap manifest.job? =
      (manifest.jobsIn group?).filter (·.name = name) := by
  cases group? with
  | none =>
    have hall := filterMap_findIn (fun _ => true) name [] manifest.groups
    rwa [List.filter_eq_self.2 fun _ _ => rfl] at hall
  | some wanted =>
    exact filterMap_findIn (fun group => group.name == wanted) name [] manifest.groups

end Manifest

end PropertyTree
