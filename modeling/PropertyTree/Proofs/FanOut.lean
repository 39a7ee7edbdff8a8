import Mathlib.Data.List.Basic
import PropertyTree.Proofs.JobMap
import PropertyTree.Proofs.Reachable
import PropertyTree.Proofs.Walks

/-!
# Edits of several jobs

An edit of the selected jobs is a loop that writes every visited job back, the failing one included,
and goes on only after a success.  `Selector.FansOut` says what this comes to without a loop: the
jobs that are still there split into those before the first refusal and the rest, and the manifest
is the old one with the single-job operation applied to the former.

Two facts carry this.  A single-job operation that fails leaves its tree as it was
(`Value.visit_node_of_error`), so writing the failing job back is writing nothing.  And the recorded
positions are distinct in every reachable state, so each job is judged by its original properties,
not by what an earlier turn of the loop made of them.

## Main statements

* `Manifest.editJobs_spec`: the loop over distinct positions.
* `Selector.fansOut_edits`: setting and removing fan out in this sense.
-/

namespace PropertyTree

variable {α : Type}

namespace Manifest

/-- The jobs at some positions, those that are there, with their positions. -/
def jobsAt (manifest : Manifest) (positions : List Position) : List (Position × Job) :=
  positions.filterMap fun p => (manifest.job? p).map (p, ·)

/-- The manifest with the properties of the jobs at some positions replaced by what an edit makes of
them. -/
def editedAt (edit : Value → Visit α) (done : List (Position × Job)) (manifest : Manifest) :
    Manifest :=
  manifest.mapJobs fun p job =>
    if p ∈ done.map Prod.fst then { job with properties := (edit job.properties).node } else job

variable {manifest : Manifest} {p : Position} {positions : List Position} {job : Job}

lemma jobsAt_cons_none (h : manifest.job? p = none) :
    manifest.jobsAt (p :: positions) = manifest.jobsAt positions := by
  simp [jobsAt, h]

lemma jobsAt_cons_some (h : manifest.job? p = some job) :
    manifest.jobsAt (p :: positions) = (p, job) :: manifest.jobsAt positions := by
  simp [jobsAt, h]

lemma mem_of_mem_jobsAt {e : Position × Job} (h : e ∈ manifest.jobsAt positions) :
    e.1 ∈ positions ∧ manifest.job? e.1 = some e.2 := by
  obtain ⟨p, hp, he⟩ := List.mem_filterMap.1 h
  obtain ⟨job, hjob, rfl⟩ := Option.map_eq_some_iff.1 he
  exact ⟨hp, hjob⟩

lemma jobsAt_sublist (manifest : Manifest) (positions : List Position) :
    List.Sublist ((manifest.jobsAt positions).map Prod.fst) positions := by
  induction positions with
  | nil => simp [jobsAt]
  | cons p rest ih =>
    cases h : manifest.job? p with
    | none => rw [jobsAt_cons_none h]; exact ih.cons p
    | some job => rw [jobsAt_cons_some h]; exact ih.cons_cons p

/-- Putting a job back at another position does not matter. -/
lemma jobsAt_setJob (h : p ∉ positions) (job : Job) :
    (manifest.setJob p job).jobsAt positions = manifest.jobsAt positions := by
  refine List.filterMap_congr fun q hq => ?_
  have hne : q ≠ p := by rintro rfl; exact h hq
  simp [job?_setJob, hne]

lemma editedAt_nil (edit : Value → Visit α) (manifest : Manifest) :
    manifest.editedAt edit [] = manifest := by
  simp [editedAt]

lemma job?_editedAt {edit : Value → Visit α} {done : List (Position × Job)}
    (h : p ∉ done.map Prod.fst) : (manifest.editedAt edit done).job? p = manifest.job? p := by
  rw [editedAt, job?_mapJobs]
  simp [h]

/-- Editing one job, and then others, is editing them together. -/
lemma editedAt_cons {edit : Value → Visit α} {done : List (Position × Job)}
    (hjob : manifest.job? p = some job) (hp : p ∉ done.map Prod.fst) :
    (manifest.setJob p { job with properties := (edit job.properties).node }).editedAt edit done =
      manifest.editedAt edit ((p, job) :: done) := by
  rw [editedAt, editedAt, setJob_eq_mapJobs, mapJobs_mapJobs]
  refine mapJobs_congr fun q old hold => ?_
  by_cases hq : q = p
  · subst hq
    obtain rfl : job = old := Option.some.inj (hjob.symm.trans hold)
    simp [hp]
  · have hmem : q ∈ List.map Prod.fst ((p, job) :: done) ↔ q ∈ done.map Prod.fst := by simp [hq]
    simp only [if_neg hq, hmem]

/-- The loop over distinct positions: every job before the first refusal is edited, and nothing
else is.  The jobs are judged by the properties they have in the original manifest. -/
theorem editJobs_spec {path : Path} (vivify : Bool) {act : Action Unit}
    (hact : Value.Restrained act) (hpositions : positions.Nodup) (manifest : Manifest) :
    ∃ done rest, manifest.jobsAt positions = done ++ rest ∧
      (∀ e ∈ done, (e.2.properties.visit path vivify act).outcome = .ok ()) ∧
      (editJobs path vivify act positions manifest).value.2 =
        manifest.editedAt (·.visit path vivify act) done ∧
      match rest with
      | [] => (editJobs path vivify act positions manifest).value.1 = none
      | e :: _ => ∃ failure, (e.2.properties.visit path vivify act).outcome = .error failure ∧
          (editJobs path vivify act positions manifest).value.1 = some failure := by
  induction positions generalizing manifest with
  | nil => exact ⟨[], [], rfl, by simp, (editedAt_nil _ _).symm, rfl⟩
  | cons p positions ih =>
    obtain ⟨hp, hpositions⟩ := List.nodup_cons.1 hpositions
    cases hjob : manifest.job? p with
    | none => simpa [jobsAt_cons_none hjob, editJobs, hjob] using ih hpositions manifest
    | some job =>
      rw [jobsAt_cons_some hjob]
      cases houtcome : (job.properties.visit path vivify act).outcome with
      | error failure =>
        -- the loop writes the failing job back, but as it was
        have hnode := Value.visit_node_of_error hact houtcome
        refine ⟨[], (p, job) :: manifest.jobsAt positions, rfl, by simp, ?_, failure, houtcome, ?_⟩
        · simp [editJobs, hjob, houtcome, hnode, setJob_job? hjob, editedAt_nil]
        · simp [editJobs, hjob, houtcome]
      | ok _ =>
        obtain ⟨done, rest, hsplit, hdone, hmanifest, hrest⟩ := ih hpositions
          (manifest.setJob p { job with properties := (job.properties.visit path vivify act).node })
        rw [jobsAt_setJob hp] at hsplit
        have hmem : p ∉ done.map Prod.fst := by
          intro h
          obtain ⟨e, he, rfl⟩ := List.mem_map.1 h
          exact hp (mem_of_mem_jobsAt (hsplit ▸ List.mem_append_left rest he)).1
        refine ⟨(p, job) :: done, rest, by rw [hsplit]; rfl, ?_, ?_, ?_⟩
        · simpa [houtcome] using hdone
        · rw [← editedAt_cons hjob hmem, ← hmanifest]
          simp [editJobs, hjob, houtcome]
        · simpa [editJobs, hjob, houtcome] using hrest

end Manifest

namespace Selector

/-- What an edit of the selected jobs makes of a selector, in terms of the operation `edit` on the
properties of a single job. -/
structure FansOut (s : Selector) (pathText : String) (edit : Path → Value → Visit α)
    (s' : Selector) : Prop where
  /-- The selection is kept. -/
  selection : s'.positions = s.positions
  /-- Without a path, nothing is changed. -/
  pathless : pathText = "" → s'.manifest = s.manifest ∧ s'.failure = some .emptyPath
  /-- With nothing selected, nothing is changed. -/
  unselected : pathText ≠ "" → s.positions = [] →
    s'.manifest = s.manifest ∧ s'.failure = some .nothingSelected
  /-- The jobs before the first refusal are edited, in the order of the selection.  All other jobs
  are as they were, among them the one that refuses, whose failure is the failure of the chain. -/
  edited : pathText ≠ "" → s.positions ≠ [] → ∃ path, Path.ofText? pathText = some path ∧
    ∃ done rest, s.manifest.jobsAt s.positions = done ++ rest ∧
      (∀ e ∈ done, ∃ a, (edit path e.2.properties).outcome = .ok a) ∧
      s'.manifest = s.manifest.editedAt (edit path) done ∧
      match rest with
      | [] => s'.failure = none
      | e :: _ => s'.manifest.job? e.1 = some e.2 ∧
          ∃ failure, (edit path e.2.properties).outcome = .error failure ∧
            s'.failure = some failure

variable {s : Selector}

/-- An edit whose actions are restrained fans out, as any operation on single jobs that has the same
effect and refuses in the same way as the walk with the action. -/
lemma fansOut_edit (hs : s.Reachable) (hok : s.failure = none) (pathText : String) {vivify : Bool}
    {act : Path → Action Unit} {edit : Path → Value → Visit α}
    (hact : ∀ path, Value.Restrained (act path))
    (hedit : ∀ path root, (root.visit path vivify (act path)).outcome =
        (edit path root).outcome.map (fun _ => ()) ∧
      (root.visit path vivify (act path)).node = (edit path root).node) :
    s.FansOut pathText edit (s.edit pathText vivify act).value where
  selection := positions_edit s pathText vivify act
  pathless h := by
    rw [h, edit_pathless hok]
    exact ⟨rfl, rfl⟩
  unselected hpath h := by
    obtain ⟨path, hpath⟩ := Path.exists_of_ne_empty hpath
    rw [edit_unselected hok hpath h]
    exact ⟨rfl, rfl⟩
  edited hpath h := by
    obtain ⟨path, hpath⟩ := Path.exists_of_ne_empty hpath
    obtain ⟨done, rest, hsplit, hdone, hmanifest, hrest⟩ :=
      Manifest.editJobs_spec vivify (hact path) hs.nodup s.manifest
    have hsame : s.manifest.editedAt (·.visit path vivify (act path)) done =
        s.manifest.editedAt (edit path) done := by
      simp only [Manifest.editedAt, (hedit path _).2]
    rw [edit_selected hok hpath h, hmanifest, hsame]
    refine ⟨path, hpath, done, rest, hsplit, fun e he => ?_, rfl, ?_⟩
    · have hok := hdone e he
      rw [(hedit path _).1] at hok
      exact Value.exists_of_map_eq_ok hok
    · cases rest with
      | nil => exact hrest
      | cons e rest =>
        obtain ⟨failure, houtcome, hfailure⟩ := hrest
        refine ⟨?_, failure, ?_, hfailure⟩
        -- the failing job is none of those before it, since no position is recorded twice
        · have hmem : e ∈ s.manifest.jobsAt s.positions := by simp [hsplit]
          have hnodup := hs.nodup.sublist (Manifest.jobsAt_sublist s.manifest s.positions)
          rw [hsplit, List.map_append, List.nodup_append] at hnodup
          rw [Manifest.job?_editedAt fun hin => hnodup.2.2 e.1 hin e.1 (by simp) rfl]
          exact (Manifest.mem_of_mem_jobsAt hmem).2
        · rw [(hedit path _).1] at houtcome
          exact Value.eq_error_of_map_eq_error houtcome

/-- Setting and removing a property fan out: the jobs that are there are taken in the order of the
selection up to the first that refuses, and all others are as they were. -/
theorem fansOut_edits (hs : s.Reachable) (hok : s.failure = none) (pathText : String)
    (value : Value) :
    s.FansOut pathText (fun path root => root.setAt path true value)
        (s.addProperty pathText value).value ∧
      s.FansOut pathText (fun path root => root.removeAt path false)
        (s.removeProperty pathText).value := by
  constructor
  · rw [addProperty, perform_of_none hok]
    refine fansOut_edit hs hok pathText (fun path => Value.restrained_set _ _ _) ?_
    intro path root
    refine ⟨?_, rfl⟩
    rw [Value.setAt]
    cases (root.visit path true (Value.set path.last path.text value)).outcome <;> rfl
  · rw [removeProperty, perform_of_none hok]
    exact fansOut_edit hs hok pathText
      (fun path => (Value.restrained_remove path.last path.text).forgetful)
      fun path root => Value.visit_forgetful (Value.remove path.last path.text) root path false

/-- Three jobs of a name were located, and then the last of them was dropped: a tree to make, a
scalar in the way, and a position that designates nothing. -/
def staleSelector : Selector :=
  let group : InstanceGroup :=
    { InstanceGroup.new "g" with
      jobs := [Job.new "a" "r", { Job.new "a" "r" with properties := .int 1 }, Job.new "a" "r"] }
  let dropLast : InstanceGroup → Unit → InstanceGroup × Unit :=
    fun group _ => ({ group with jobs := group.jobs.dropLast }, ())
  (Operation.run [.locate "a", .forEachGroup dropLast]
    (new ((Manifest.new "m").withGroup group) .quiet) ()).value.2.1

/-- The fan-out over a stale selection in which the second job refuses. -/
theorem fansOut_edits_stale :
    staleSelector.Reachable ∧ staleSelector.failure = none ∧
      staleSelector.FansOut "x/y" (fun path root => root.setAt path true (.int 7))
        (staleSelector.addProperty "x/y" (.int 7)).value ∧
      staleSelector.FansOut "x/y" (fun path root => root.removeAt path false)
        (staleSelector.removeProperty "x/y").value := by
  have hreachable : staleSelector.Reachable := (Reachable.new _ _).run _ _
  have hok : staleSelector.failure = none := by decide +kernel
  exact ⟨hreachable, hok, fansOut_edits hreachable hok "x/y" (.int 7)⟩

example : (staleSelector.addProperty "x/y" (.int 7)).value.failure =
    some (.unsupportedContainer "x/y" "x" "1" .int) := by decide +kernel

end Selector

end PropertyTree
