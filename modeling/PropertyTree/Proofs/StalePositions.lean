import PropertyTree.Proofs.Selection

/-!
# Positions gone stale

A function that edits the groups may drop, add and move jobs, and the recorded positions are not
revised.  A position that designates no job any more is passed over.  A position that designates
another job now is not noticed: nothing compares the name of the job with the name that was located,
so later operations edit that job.  `Selector.edits_unlocated_job` is a chain to which this happens.

`Selector.edits_in_place` tells the two apart.  Operations change the jobs that stand at recorded
positions, whatever they are called, and no others.  So jobs of other names are safe exactly if the
edit of the groups leaves none of them at a recorded position.  Functions that drop and add jobs
only at the end of a group, and rename none, are of this kind (`KeepsPlaces`).
-/

namespace PropertyTree

variable {σ : Type}

namespace Manifest

/-- Passing groups through a function applies it to each of them, in some state. -/
lemma getElem?_visitGroups (f : InstanceGroup → σ → InstanceGroup × σ)
    (groups : List InstanceGroup) (state : σ) (i : Nat) :
    ∃ met, (visitGroups f groups state).1[i]? = groups[i]?.map fun group => (f group met).1 := by
  induction groups generalizing state i with
  | nil => exact ⟨state, rfl⟩
  | cons group rest ih =>
    cases i with
    | zero => exact ⟨state, rfl⟩
    | succ i => exact ih (f group state).2 i

end Manifest

/-- Functions that leave in each place of a group no job, or one of the name that was there.  They
may edit jobs, and drop and add some at the end. -/
def KeepsPlaces (f : InstanceGroup → σ → InstanceGroup × σ) : Prop :=
  ∀ group state (j : Nat) (old new : Job), group.jobs[j]? = some old →
    (f group state).1.jobs[j]? = some new → new.name = old.name

namespace Selector

/-- What a search and then an edit of the groups make of a selector. -/
def regrouped (s : Selector) (group? : Option String) (name : String)
    (f : InstanceGroup → σ → InstanceGroup × σ) (state : σ) : Selector :=
  (Operation.run [.search group? name, .forEachGroup f] s state).value.2.1

variable {s : Selector} {group? : Option String} {name : String}
  {f : InstanceGroup → σ → InstanceGroup × σ} {state : σ}

/-! ## The state after the edit -/

/-- If nothing is found, the edit is skipped. -/
lemma regrouped_of_missing (h : s.failure = none) (hfound : s.manifest.findJobs group? name = []) :
    s.regrouped group? name f state =
      { s with positions := [], failure := some (.entityNotFound name) } := by
  have hsearch := search_value h group? name state
  rw [select_value h, hfound] at hsearch
  have hfailure : ((Operation.search group? name).apply s state).value.2.1.failure =
      some (.entityNotFound name) := by rw [hsearch]; rfl
  rw [regrouped, Operation.run_cons_value, Operation.run_of_failure hfailure, hsearch]
  rfl

/-- If jobs are found, the groups are edited, and the selection stays as it was found. -/
lemma regrouped_of_found (h : s.failure = none) (hfound : s.manifest.findJobs group? name ≠ [])
    (f : InstanceGroup → σ → InstanceGroup × σ) (state : σ) :
    ∃ met, s.regrouped group? name f state =
      { s with
        positions := s.manifest.findJobs group? name
        manifest := { s.manifest with
          groups := (Manifest.visitGroups f s.manifest.groups met).1 } } := by
  have hsearch := search_value h group? name state
  have hsome : (s.manifest.findJobs group? name).isEmpty = false := by simpa using hfound
  rw [select_value h, hsome] at hsearch
  refine ⟨((Operation.search group? name).apply s state).value.2.2, ?_⟩
  rw [regrouped, Operation.run_cons_value, Operation.run_cons_value, hsearch]
  simp [Operation.apply, Operation.run, forEachGroup, Logged.map, Logged.quiet, h]

/-- The edit does not revise the positions. -/
lemma positions_regrouped (h : s.failure = none) :
    (s.regrouped group? name f state).positions = s.manifest.findJobs group? name := by
  by_cases hfound : s.manifest.findJobs group? name = []
  · rw [regrouped_of_missing h hfound, hfound]
  · obtain ⟨met, hregrouped⟩ := regrouped_of_found h hfound f state
    rw [hregrouped]

/-- Without a selection there is nothing to do, and otherwise there is no failure. -/
lemma failure_regrouped (h : s.failure = none) :
    (s.regrouped group? name f state).positions = [] ∨
      (s.regrouped group? name f state).failure = none := by
  by_cases hfound : s.manifest.findJobs group? name = []
  · exact .inl ((positions_regrouped h).trans hfound)
  · obtain ⟨met, hregrouped⟩ := regrouped_of_found h hfound f state
    exact .inr (by rw [hregrouped, h])

/-- If the edit keeps places, it leaves no jobs but those of the name at recorded positions. -/
lemma name_of_regrouped (h : s.failure = none) (hf : KeepsPlaces f) {p : Position} {job : Job}
    (hp : p ∈ (s.regrouped group? name f state).positions)
    (hjob : (s.regrouped group? name f state).manifest.job? p = some job) : job.name = name := by
  rw [positions_regrouped h] at hp
  obtain ⟨met, hregrouped⟩ := regrouped_of_found h (List.ne_nil_of_mem hp) f state
  obtain ⟨group, old, hgroup, hold, -, hname⟩ := Manifest.mem_findJobs_iff.1 hp
  obtain ⟨met', hvisited⟩ := Manifest.getElem?_visitGroups f s.manifest.groups met p.group
  have hnew : (f group met').1.jobs[p.job]? = some job := by
    rw [hregrouped, Manifest.job?, hvisited, hgroup] at hjob
    exact hjob
  exact (hf group met' p.job old job hold hnew).trans hname

/-! ## Operations after the edit -/

/-- Only jobs of a name are changed by operations on the selected jobs. -/
def EditsOnly (σ : Type) (edited : Selector) (name : String) : Prop :=
  ∀ operation : Operation σ, operation.worksOnJobs = true → ∀ state,
    edited.manifest.Rewritten (fun _ old _ => old.name = name)
      (operation.apply edited state).value.2.1.manifest

/-- How operations on the selected jobs go after a search and an edit of the groups. -/
structure EditsInPlace (σ : Type) (s : Selector) (group? : Option String) (name : String)
    (edited : Selector) : Prop where
  /-- The positions are still those that were found. -/
  positions : edited.positions = s.manifest.findJobs group? name
  /-- Operations rewrite jobs at these positions, each once, and leave all others alone. -/
  rewritten : ∀ operation : Operation σ, operation.worksOnJobs = true → ∀ state,
    edited.manifest.Rewritten (fun p old new => p ∈ edited.positions ∧ operation.Patches old new)
      (operation.apply edited state).value.2.1.manifest
  /-- A function is applied to all jobs at these positions, whatever they are called; positions
  without a job are passed over. -/
  visited : ∀ (g : Job → σ → Job × σ) (state : σ), ∃ met : Position → σ,
    ((Operation.forEachSelected g).apply edited state).value.2.1.manifest =
      edited.manifest.mapJobs fun p job =>
        if p ∈ edited.positions then (g job (met p)).1 else job

/-- Operations work on the jobs that stand at recorded positions. -/
lemma editsInPlace_regrouped (hs : s.Reachable) (h : s.failure = none) (group? : Option String)
    (name : String) (f : InstanceGroup → σ → InstanceGroup × σ) (state : σ) :
    EditsInPlace σ s group? name (s.regrouped group? name f state) := by
  have hpositions : (s.regrouped group? name f state).positions = s.manifest.findJobs group? name :=
    positions_regrouped h
  have hselected : (s.regrouped group? name f state).positions = [] ∨
      (s.regrouped group? name f state).failure = none := failure_regrouped h
  have hnodup : (s.regrouped group? name f state).positions.Nodup := (hs.run _ state).nodup
  generalize s.regrouped group? name f state = edited at *
  refine ⟨hpositions, fun _ hoperation state => Operation.apply_rewritten hnodup hoperation state,
    fun g state => ?_⟩
  cases hfailure : edited.failure with
  | none => exact forEachSelected_eq_mapJobs hfailure hnodup g state
  | some failure =>
    have hnil : edited.positions = [] := hselected.resolve_right (by simp [hfailure])
    rw [Operation.apply_of_failure hfailure]
    exact ⟨fun _ => state, by simp [hnil]⟩

/-- Jobs of other names are in danger only at recorded positions, and there they are. -/
lemma EditsInPlace.editsOnly_iff {edited : Selector} (h : EditsInPlace σ s group? name edited)
    (state : σ) :
    EditsOnly σ edited name ↔
      ∀ p ∈ edited.positions, ∀ job, edited.manifest.job? p = some job → job.name = name := by
  constructor
  · intro hall p hp job hjob
    -- a function that changes every job it is given gives the job away
    let mark : Job → σ → Job × σ := fun job state =>
      ({ job with release := job.release ++ "'" }, state)
    obtain ⟨met, hmet⟩ := h.visited mark state
    rcases (hall (.forEachSelected mark) rfl state).job? p with hsame | ⟨old, -, hold, -, hname⟩
    · rw [hmet, Manifest.job?_mapJobs, hjob, Option.map_some, if_pos hp] at hsame
      have hrelease : job.release ++ "'" = job.release :=
        congrArg Job.release (Option.some.inj hsame)
      simp at hrelease
    · obtain rfl : job = old := Option.some.inj (hjob.symm.trans hold)
      exact hname
  · intro hnames operation hoperation state
    exact (h.rewritten operation hoperation state).mono fun p old _ hold hchange =>
      hnames p hchange.1 old hold

/-- After an edit of the groups, operations change the jobs that stand at the positions found before
it.  Jobs of other names are left alone exactly if none of them has come to such a position, and a
function that keeps places brings none there. -/
theorem edits_in_place (hs : s.Reachable) (hfailure : s.failure = none) (group? : Option String)
    (name : String) (f : InstanceGroup → σ → InstanceGroup × σ) (state : σ) :
    let edited := s.regrouped group? name f state
    EditsInPlace σ s group? name edited ∧
      (EditsOnly σ edited name ↔
        ∀ p ∈ edited.positions, ∀ job, edited.manifest.job? p = some job → job.name = name) ∧
      (KeepsPlaces f → EditsOnly σ edited name) := by
  intro edited
  have hplaces := editsInPlace_regrouped hs hfailure group? name f state
  have honly := hplaces.editsOnly_iff state
  refine ⟨hplaces, honly, fun hf => honly.2 fun p hp job hjob => ?_⟩
  exact name_of_regrouped hfailure hf hp hjob

/-- A function that drops the last job of every group. -/
def dropLastJob (group : InstanceGroup) (state : Unit) : InstanceGroup × Unit :=
  ({ group with jobs := group.jobs.dropLast }, state)

/-- A manifest with a group of two jobs. -/
def twoJobs : Manifest :=
  (Manifest.new "m").withGroup
    (((InstanceGroup.new "g").withJob (Job.new "b" "r")).withJob (Job.new "a" "r"))

/-- The last job is located and dropped.  Its position is passed over, and the other job is safe. -/
theorem edits_in_place_dropped :
    let s := Selector.new twoJobs .quiet
    let edited := s.regrouped none "a" dropLastJob ()
    (s.Reachable ∧ s.failure = none ∧ KeepsPlaces dropLastJob) ∧
      (edited.positions = [⟨0, 1⟩] ∧ edited.manifest.job? ⟨0, 1⟩ = none) ∧
      EditsInPlace Unit s none "a" edited ∧ EditsOnly Unit edited "a" := by
  intro s edited
  have hs : s.Reachable := .new twoJobs .quiet
  have hkeeps : KeepsPlaces dropLastJob := by
    intro group state j old new hold hnew
    have hsame : group.jobs[j]? = some new := by
      rw [dropLastJob, List.getElem?_dropLast] at hnew
      split at hnew
      · exact hnew
      · cases hnew
    rw [Option.some.inj (hold.symm.trans hsame)]
  obtain ⟨hplaces, -, honly⟩ := edits_in_place hs rfl none "a" dropLastJob ()
  exact ⟨⟨hs, rfl, hkeeps⟩, by decide +kernel, hplaces, honly hkeeps⟩

/-- A function that puts a job before the others of every group. -/
def unshiftJob (job : Job) (group : InstanceGroup) (state : Unit) : InstanceGroup × Unit :=
  ({ group with jobs := job :: group.jobs }, state)

/-- The job that comes to stand at the recorded position is edited, although it is not the one that
was located; the located job has moved on and is not edited. -/
theorem edits_unlocated_job :
    let manifest := (Manifest.new "m").withGroup ((InstanceGroup.new "g").withJob (Job.new "a" ""))
    let edited := (Selector.new manifest .quiet).regrouped none "a" (unshiftJob (Job.new "b" "")) ()
    let final := ((Operation.addProperty "x" (.int 1)).apply edited ()).value.2.1
    (edited.positions = [⟨0, 0⟩] ∧ edited.manifest.jobs = [Job.new "b" "", Job.new "a" ""]) ∧
      (final.failure = none ∧ final.manifest.jobs =
        [{ Job.new "b" "" with properties := .strMap [("x", .int 1)] }, Job.new "a" ""]) ∧
      ¬ EditsOnly Unit edited "a" := by
  intro manifest edited final
  have hedited : edited.manifest.job? ⟨0, 0⟩ = some (Job.new "b" "") := by decide +kernel
  have hfinal : final.manifest.job? ⟨0, 0⟩ =
      some { Job.new "b" "" with properties := .strMap [("x", .int 1)] } := by decide +kernel
  refine ⟨by decide +kernel, by decide +kernel, fun honly => ?_⟩
  rcases (honly (.addProperty "x" (.int 1)) rfl ()).job? ⟨0, 0⟩ with
    hsame | ⟨old, -, hold, -, hname⟩
  · cases (hfinal.symm.trans hsame).trans hedited
  · obtain rfl : Job.new "b" "" = old := Option.some.inj (hedited.symm.trans hold)
    exact absurd hname (by decide)

end Selector

end PropertyTree
