import PropertyTree.Proofs.ChainFailure
import PropertyTree.Proofs.JobEdits
import PropertyTree.Proofs.Searches

/-!
# Passing the jobs of a name through a function

`locate` records positions, and `forEachSelected` visits them afterwards, while its function changes
the jobs and may rename them.  What the two come to together needs no positions: a pass over the
jobs of the manifest (`Manifest.visitAll`), group by group and each group in its order, that gives
the jobs of the name to the function and leaves the others alone (`Job.ifNamed`).

Each position is visited when the jobs before it were passed and those after it were not.  So the
loop over the positions is followed with the manifest cut at the job that is next; the two halves of
a cut are never searched again, which is why a new name does no harm.

## Main statements

* `Manifest.visitJobs_findJobs`: the loop over the found positions is the pass over all jobs.
* `Selector.addProperty_eq_forEachSelected`: setting a property is such a pass, if no job refuses.
* `Operation.run_visits_named`: both for chains, with the state that the function carries.
-/

namespace PropertyTree

variable {σ : Type}

/-! ## A pass over all jobs -/

namespace Job

/-- Passes jobs through a function that carries a state, in their order. -/
def visitList (f : Job → σ → Job × σ) : List Job → σ → List Job × σ
  | [], state => ([], state)
  | job :: rest, state =>
    let (job, state) := f job state
    let (rest, state) := visitList f rest state
    (job :: rest, state)

/-- A function for the jobs of a name; other jobs it leaves as they are, with the state. -/
def ifNamed (name : String) (f : Job → σ → Job × σ) (job : Job) (state : σ) : Job × σ :=
  if job.name = name then f job state else (job, state)

/-- Replaces the properties by what storing a value at a path makes of them. -/
def setProperty (path : Path) (value : Value) (job : Job) : Job :=
  { job with properties := (job.properties.setAt path true value).node }

end Job

/-- Passes the jobs of a group through a function that carries a state. -/
def InstanceGroup.visitJobs (f : Job → σ → Job × σ) (group : InstanceGroup) (state : σ) :
    InstanceGroup × σ :=
  let (jobs, state) := Job.visitList f group.jobs state
  ({ group with jobs }, state)

/-- Passes all jobs of a manifest through a function that carries a state, each once, in the order
of the manifest. -/
def Manifest.visitAll (f : Job → σ → Job × σ) (manifest : Manifest) (state : σ) : Manifest × σ :=
  let (groups, state) := visitGroups (InstanceGroup.visitJobs f) manifest.groups state
  ({ manifest with groups }, state)

namespace Job

lemma visitList_pure (g : Job → Job) (jobs : List Job) (state : σ) :
    visitList (fun job state => (g job, state)) jobs state = (jobs.map g, state) := by
  induction jobs with
  | nil => rfl
  | cons job rest ih => simp only [visitList, ih, List.map_cons]

lemma visitList_state (f : Job → σ → Job × σ) (jobs : List Job) (state : σ) :
    (visitList f jobs state).2 = jobs.foldl (fun state job => (f job state).2) state := by
  induction jobs generalizing state with
  | nil => rfl
  | cons job rest ih => rw [visitList, List.foldl_cons, ← ih]

lemma ifNamed_pure (name : String) (g : Job → Job) :
    ifNamed name (fun job (state : σ) => (g job, state)) =
      fun job state => (if job.name = name then g job else job, state) := by
  funext job state
  rw [ifNamed]
  split <;> rfl

lemma ifNamed_state (name : String) (f : Job → σ → Job × σ) (job : Job) (state : σ) :
    (ifNamed name f job state).2 = if job.name = name then (f job state).2 else state := by
  rw [ifNamed]
  split <;> rfl

end Job

namespace Manifest

/-- A function without a state is mapped over the jobs. -/
lemma visitAll_pure (g : Job → Job) (manifest : Manifest) (state : σ) :
    manifest.visitAll (fun job state => (g job, state)) state =
      ({ manifest with
          groups := manifest.groups.map fun group => { group with jobs := group.jobs.map g } },
        state) := by
  have hgroups : ∀ groups : List InstanceGroup,
      visitGroups (InstanceGroup.visitJobs fun job state => (g job, state)) groups state =
        (groups.map fun group => { group with jobs := group.jobs.map g }, state) := by
    intro groups
    induction groups with
    | nil => rfl
    | cons group rest ih =>
      simp only [visitGroups, InstanceGroup.visitJobs, Job.visitList_pure, List.map_cons, ih]
  rw [visitAll, hgroups]

/-- The state goes through the jobs in the order of the manifest. -/
lemma visitAll_state (f : Job → σ → Job × σ) (manifest : Manifest) (state : σ) :
    (manifest.visitAll f state).2 =
      manifest.jobs.foldl (fun state job => (f job state).2) state := by
  have hgroups : ∀ (groups : List InstanceGroup) (state : σ),
      (visitGroups (InstanceGroup.visitJobs f) groups state).2 =
        (groups.flatMap InstanceGroup.jobs).foldl (fun state job => (f job state).2) state := by
    intro groups
    induction groups with
    | nil => intro _; rfl
    | cons group rest ih =>
      intro state
      rw [visitGroups, InstanceGroup.visitJobs, ih, Job.visitList_state, List.flatMap_cons,
        List.foldl_append]
  exact hgroups manifest.groups state

/-! ## The loop over the found positions -/

lemma visitJobs_append (f : Job → σ → Job × σ) (before after : List Position)
    (start : Manifest × σ) :
    visitJobs f (before ++ after) start = visitJobs f after (visitJobs f before start) := by
  induction before generalizing start with
  | nil => rfl
  | cons p rest ih =>
    obtain ⟨manifest, state⟩ := start
    rw [List.cons_append, visitJobs, visitJobs]
    cases manifest.job? p with
    | none => exact ih _
    | some job => exact ih _

variable {manifest : Manifest} {before after : List InstanceGroup} {group : InstanceGroup}
  {done rest : List Job} {job : Job}

/-- The manifest with one of its groups in hand, of whose jobs some are done. -/
def cutAt (manifest : Manifest) (before : List InstanceGroup) (group : InstanceGroup)
    (done rest : List Job) (after : List InstanceGroup) : Manifest :=
  { manifest with groups := before ++ { group with jobs := done ++ rest } :: after }

lemma job?_cutAt :
    (manifest.cutAt before group done (job :: rest) after).job? ⟨before.length, done.length⟩ =
      some job := by
  simp [cutAt, job?]

lemma setJob_cutAt (new : Job) :
    (manifest.cutAt before group done (job :: rest) after).setJob ⟨before.length, done.length⟩ new =
      manifest.cutAt before group (done ++ [new]) rest after := by
  simp only [setJob, cutAt]
  rw [List.modify_eq_take_cons_drop (by simp)]
  simp

lemma cutAt_step :
    manifest.cutAt before group done (job :: rest) after =
      manifest.cutAt before group (done ++ [job]) rest after := by
  simp [cutAt]

/-- In one group: the positions of the name that are left are visited as the jobs that are left are
passed. -/
lemma visitJobs_jobIndices (name : String) (f : Job → σ → Job × σ) (manifest : Manifest)
    (before : List InstanceGroup) (group : InstanceGroup) (done rest : List Job)
    (after : List InstanceGroup) (state : σ) :
    visitJobs f ((jobIndices name done.length rest).map (Position.mk before.length))
        (manifest.cutAt before group done rest after, state) =
      (manifest.cutAt before group (done ++ (Job.visitList (Job.ifNamed name f) rest state).1) []
        after, (Job.visitList (Job.ifNamed name f) rest state).2) := by
  induction rest generalizing done state with
  | nil => simp [jobIndices, visitJobs, Job.visitList]
  | cons job rest ih =>
    have hnext : ∀ (new : Job) (state : σ),
        visitJobs f ((jobIndices name (done.length + 1) rest).map (Position.mk before.length))
            (manifest.cutAt before group (done ++ [new]) rest after, state) =
          (manifest.cutAt before group
            (done ++ new :: (Job.visitList (Job.ifNamed name f) rest state).1) [] after,
            (Job.visitList (Job.ifNamed name f) rest state).2) := by
      intro new state
      have hrest := ih (done ++ [new]) state
      rwa [List.length_append, List.length_singleton, List.append_assoc,
        List.singleton_append] at hrest
    rw [jobIndices, Job.visitList, Job.ifNamed]
    split
    case isTrue hname =>
      rw [List.map_cons, visitJobs, job?_cutAt]
      simp only [setJob_cutAt]
      exact hnext (f job state).1 (f job state).2
    case isFalse hname =>
      rw [cutAt_step]
      exact hnext job state

/-- Over the groups that are left, when those before are done. -/
lemma visitJobs_findIn (name : String) (f : Job → σ → Job × σ) (manifest : Manifest)
    (before rest : List InstanceGroup) (state : σ) :
    visitJobs f (findIn (fun _ => true) name before.length rest)
        ({ manifest with groups := before ++ rest }, state) =
      ({ manifest with
          groups := before ++
            (visitGroups (InstanceGroup.visitJobs (Job.ifNamed name f)) rest state).1 },
        (visitGroups (InstanceGroup.visitJobs (Job.ifNamed name f)) rest state).2) := by
  induction rest generalizing before state with
  | nil => rfl
  | cons group rest ih =>
    have hgroup := visitJobs_jobIndices name f manifest before group [] group.jobs rest state
    rw [findIn, if_pos rfl, visitJobs_append]
    refine (congrArg _ hgroup).trans ?_
    have hrest := ih (before ++ [(InstanceGroup.visitJobs (Job.ifNamed name f) group state).1])
      (InstanceGroup.visitJobs (Job.ifNamed name f) group state).2
    rw [List.length_append, List.length_singleton, List.append_assoc, List.append_assoc] at hrest
    simpa [cutAt, InstanceGroup.visitJobs, visitGroups] using hrest

/-- Visiting the positions that a search for a name finds is a pass over all jobs. -/
theorem visitJobs_findJobs (name : String) (f : Job → σ → Job × σ) (manifest : Manifest)
    (state : σ) :
    visitJobs f (manifest.findJobs none name) (manifest, state) =
      manifest.visitAll (Job.ifNamed name f) state :=
  visitJobs_findIn name f manifest [] manifest.groups state

/-! ## An edit that no job refuses -/

/-- If no job refuses, the loop of an edit is a visit of the jobs.  Distinct positions keep the jobs
that are left as they were, so it is enough that they do not refuse at the start. -/
lemma editJobs_eq_visitJobs {path : Path} {value : Value} {positions : List Position}
    (hpositions : positions.Nodup) {manifest : Manifest}
    (hset : ∀ e ∈ manifest.jobsAt positions,
      (e.2.properties.setAt path true value).outcome = .ok ()) (state : σ) :
    let edited :=
      (editJobs path true (Value.set path.last path.text value) positions manifest).value
    edited.1 = none ∧
      visitJobs (fun job state => (Job.setProperty path value job, state)) positions
        (manifest, state) = (edited.2, state) := by
  induction positions generalizing manifest with
  | nil => exact ⟨rfl, rfl⟩
  | cons p rest ih =>
    obtain ⟨hp, hrest⟩ := List.nodup_cons.1 hpositions
    cases hjob : manifest.job? p with
    | none =>
      rw [jobsAt_cons_none hjob] at hset
      simp only [editJobs, visitJobs, hjob]
      exact ih hrest hset
    | some job =>
      rw [jobsAt_cons_some hjob, List.forall_mem_cons] at hset
      obtain ⟨hhere, hlater⟩ := hset
      rw [Value.setAt] at hhere
      simp only [editJobs, visitJobs, hjob, hhere]
      exact ih hrest (by rwa [jobsAt_setJob hp])

end Manifest

/-- Setting a property of the selected jobs passes each of them through the function that sets it in
one job, if none of them refuses. -/
lemma Selector.addProperty_eq_forEachSelected {s : Selector} (hok : s.failure = none)
    (hpositions : s.positions.Nodup) (hselected : s.positions ≠ []) {pathText : String}
    {path : Path} (hpath : Path.ofText? pathText = some path) {value : Value}
    (hset : ∀ e ∈ s.manifest.jobsAt s.positions,
      (e.2.properties.setAt path true value).outcome = .ok ()) (state : σ) :
    ((s.addProperty pathText value).value, state) =
      (s.forEachSelected (fun job state => (Job.setProperty path value job, state))
        state).value := by
  obtain ⟨hnone, hvisited⟩ := Manifest.editJobs_eq_visitJobs hpositions hset state
  rw [addProperty, perform_of_none hok, edit_selected hok hpath hselected, forEachSelected, hok]
  simp only [hvisited, hnone, Logged.quiet]

namespace Operation

open Selector (new)

/-! ## Chains of two calls -/

/-- Locating a name, and one call after it: the call meets the found positions, or is skipped. -/
lemma run_locate (manifest : Manifest) (options : SelectorOptions) (name : String)
    (operation : Operation σ) (state : σ) :
    (run [.locate name, operation] (new manifest options) state).value.2 =
      if manifest.findJobs none name = [] then
        ({ new manifest options with failure := some (.entityNotFound name) }, state)
      else
        (operation.apply { new manifest options with positions := manifest.findJobs none name }
          state).value.2 := by
  have hrun : (run [.locate name, operation] (new manifest options) state).value.2 =
      (operation.apply ((new manifest options).select name (manifest.findJobs none name)).value
        state).value.2 := rfl
  rw [hrun, Selector.select_value rfl]
  by_cases hnone : manifest.findJobs none name = []
  · rw [if_pos hnone, hnone]
    exact congrArg Prod.snd (apply_of_failure rfl operation state)
  · have hfound : (manifest.findJobs none name).isEmpty = false := by simpa using hnone
    rw [if_neg hnone, hfound]
    rfl

/-- Locating a name and passing the selection through a function is a pass over the manifest that
gives the jobs of the name to the function. -/
lemma run_locate_forEachSelected (manifest : Manifest) (options : SelectorOptions) (name : String)
    (f : Job → σ → Job × σ) (state : σ) :
    let final := (run [.locate name, .forEachSelected f] (new manifest options) state).value.2
    (final.1.manifest, final.2) = manifest.visitAll (Job.ifNamed name f) state := by
  intro final
  have hfinal : final = _ := run_locate manifest options name (.forEachSelected f) state
  rw [hfinal, ← Manifest.visitJobs_findJobs]
  split
  case isTrue hnone => rw [hnone]; rfl
  case isFalse => rfl

/-- Setting a property of the jobs of a name is passing them through the function that sets it in
one job, if it can be set in each of them. -/
lemma run_locate_addProperty {manifest : Manifest} {name pathText : String} {path : Path}
    (hpath : Path.ofText? pathText = some path) {value : Value}
    (hset : ∀ job ∈ manifest.jobs, job.name = name →
      (job.properties.setAt path true value).outcome = .ok ())
    (options : SelectorOptions) (state : σ) :
    (run [.locate name, .addProperty pathText value] (new manifest options) state).value.2 =
      (run [.locate name,
        .forEachSelected fun job state => (Job.setProperty path value job, state)]
        (new manifest options) state).value.2 := by
  rw [run_locate, run_locate]
  split
  case isTrue => rfl
  case isFalse hfound =>
    have hjobs : ∀ e ∈ manifest.jobsAt (manifest.findJobs none name),
        (e.2.properties.setAt path true value).outcome = .ok () := by
      intro e he
      obtain ⟨hp, hjob⟩ := Manifest.mem_of_mem_jobsAt he
      obtain ⟨job, hholds, hname⟩ := (Manifest.mem_findJobs_iff.1 hp).job?
      obtain rfl : e.2 = job := Option.some.inj (hjob.symm.trans hholds)
      exact hset e.2 (Manifest.mem_jobs_iff.2 ⟨e.1, hjob⟩) hname
    exact Selector.addProperty_eq_forEachSelected rfl (manifest.inOrder_findJobs none name).nodup
      hfound hpath hjobs state

/-- Locating a name and passing the selection through a function is a map over the manifest, for
functions with a state, for functions without one, and for setting a property. -/
theorem run_visits_named (manifest : Manifest) (options : SelectorOptions) (name : String)
    (state : σ) :
    let start := new manifest options
    (∀ f : Job → σ → Job × σ,
      let final := (run [.locate name, .forEachSelected f] start state).value.2
      (final.1.manifest, final.2) = manifest.visitAll (Job.ifNamed name f) state ∧
        final.2 = (manifest.jobs.filter (·.name = name)).foldl (fun state job => (f job state).2)
          state) ∧
    (∀ g : Job → Job,
      (run [.locate name, .forEachSelected fun job state => (g job, state)] start
          state).value.2.1.manifest =
        { manifest with
          groups := manifest.groups.map fun group =>
            { group with
              jobs := group.jobs.map fun job => if job.name = name then g job else job } }) ∧
    ∀ (pathText : String) (path : Path) (value : Value), Path.ofText? pathText = some path →
      (∀ job ∈ manifest.jobs, job.name = name →
        (job.properties.setAt path true value).outcome = .ok ()) →
      (run [.locate name, .addProperty pathText value] start state).value.2.1.manifest =
        (run [.locate name,
          .forEachSelected fun job state => (Job.setProperty path value job, state)] start
          state).value.2.1.manifest := by
  intro start
  refine ⟨fun f => ?_, fun g => ?_, fun pathText path value hpath hset => ?_⟩
  · have hpass := run_locate_forEachSelected manifest options name f state
    have hstate := congrArg Prod.snd hpass
    rw [Manifest.visitAll_state] at hstate
    refine ⟨hpass, hstate.trans ?_⟩
    simp only [List.foldl_filter, Job.ifNamed_state, decide_eq_true_eq]
  · have hpass := run_locate_forEachSelected manifest options name (fun job state => (g job, state))
      state
    rw [Job.ifNamed_pure, Manifest.visitAll_pure] at hpass
    exact congrArg Prod.fst hpass
  · exact congrArg (·.1.manifest) (run_locate_addProperty hpath hset options state)

/-- Two groups with jobs of the same two names. -/
def sharedNames : Manifest :=
  let first := ((InstanceGroup.new "g").withJob (Job.new "a" "r")).withJob (Job.new "b" "r")
  let second := ((InstanceGroup.new "h").withJob (Job.new "b" "s")).withJob (Job.new "a" "s")
  ((Manifest.new "m").withGroup first).withGroup second

/-- A function that gives the jobs the other name is called once with each of them; and a property
can be set in both. -/
theorem run_visits_named_sharedNames :
    let after (operation : Operation (List String)) :=
      (run [.locate "a", operation] (new sharedNames .quiet) []).value.2
    let rename (job : Job) (seen : List String) := ({ job with name := "b" }, seen ++ [job.release])
    let set (job : Job) (seen : List String) :=
      (Job.setProperty ⟨["x"], "y"⟩ (.int 1) job, seen)
    (after (.forEachSelected rename)).2 = ["r", "s"] ∧
      (∀ job ∈ sharedNames.jobs, job.name = "a" →
        (job.properties.setAt ⟨["x"], "y"⟩ true (.int 1)).outcome = .ok ()) ∧
      (after (.addProperty "x/y" (.int 1))).1.manifest =
        (after (.forEachSelected set)).1.manifest := by
  intro after rename set
  obtain ⟨hvisits, -, hsets⟩ := run_visits_named sharedNames .quiet "a" ([] : List String)
  have hset : ∀ job ∈ sharedNames.jobs, job.name = "a" →
      (job.properties.setAt ⟨["x"], "y"⟩ true (.int 1)).outcome = .ok () := by
    decide +kernel
  exact ⟨(hvisits rename).2, hset, hsets "x/y" ⟨["x"], "y"⟩ (.int 1) (by decide +kernel) hset⟩

end Operation

end PropertyTree
