import PropertyTree.Proofs.FanOut
import PropertyTree.Proofs.RoundTrip

/-!
# Setting again

A chain that locates jobs and sets a property can be run a second time without harm: it ends as it
did the first time, with the same failure if it failed, and leaves the manifest as the first run
left it.  This is equality and not only agreement, so nothing is moved about either.

On a single tree the argument is that the walk of the first set arrives again, at the container with
the value already in it, and storing a value where it is already is storing nothing
(`Value.setAt_again`).  The exception is a set that replaces the string by which its own path found
the item; `Path.Retargets` recognizes it from the path and the value alone.

The loop over the jobs adds two things.  The jobs before the first refusal are set again one by one,
and the one that refuses was left as it was, so it refuses again (`Manifest.editJobs_again`).  And
the search before the loop finds the same positions, because edits of properties rename nothing
(`Manifest.findJobs_editJobs`).
-/

namespace PropertyTree

/-- The last parent of the path is a query for the key that is set, and the value is not the string
that the query asks for. -/
def Path.Retargets (path : Path) (value : Value) : Prop :=
  ∃ parents segment x, path.parents = parents ++ [segment] ∧
    SegmentClass.ofText segment = .query path.last x ∧ value ≠ .text x

/-! ## One tree -/

namespace Value

variable {root value : Value} {path : Path}

lemma Renames.retargets (h : Renames root path value) : path.Retargets value := by
  obtain ⟨parents, segment, x, _, _, hparents, form, -, hvalue⟩ := h
  exact ⟨parents, segment, x, hparents, form, hvalue⟩

/-- Setting a value that was set changes nothing. -/
lemma setAt_of_setAt (h : (root.setAt path true value).outcome = .ok ())
    (hkeeps : ¬ Renames root path value) :
    let first := (root.setAt path true value).node
    (first.setAt path true value).outcome = .ok () ∧
      (first.setAt path true value).node = first := by
  intro first
  obtain ⟨address, container, hwalks, mapping, hnode⟩ := setAt_eq_put h
  have hfirst : first = (walkRoot true root).put address (container.setChild path.last value) := by
    rw [hwalks.put_append, put_name, put_nil] at hnode
    exact hnode
  have mapping' : (container.setChild path.last value).isMapping = true := by
    rw [isMapping_setChild, mapping]
  have isOpen := isContainer_of_isMapping mapping'
  -- the walk arrives again, and it makes nothing this time
  have hread : Walks false first path.parents address (container.setChild path.last value) := by
    rw [hfirst]
    exact hwalks.reread isOpen fun parents segment key x B items hparents form hseq hanswers =>
      answers_setChild_of_not_renames hkeeps mapping hparents form hseq hanswers
  have hroot : walkRoot true first = first := by
    have hnull : first.isNull = false := by
      rw [hfirst]
      exact isNull_of_isContainer (hwalks.isContainer_put isOpen)
    rw [walkRoot, hnull]
    rfl
  have hagain := setAt_of_walks (hroot.symm ▸ hread.vivifying) mapping' value
  have hsame : (container.setChild path.last value).setChild path.last value =
      container.setChild path.last value := by
    refine setChild_child? ?_
    rw [child?_setChild mapping, if_pos rfl]
  rw [hroot, hread.vivifying.put_append, put_name, put_nil, hsame, hread.of_read.2] at hagain
  exact hagain

/-- A set is repeated with the outcome it had and without effect. -/
theorem setAt_again (hkeeps : ¬ path.Retargets value) (root : Value) :
    let first := root.setAt path true value
    (first.node.setAt path true value).outcome = first.outcome ∧
      (first.node.setAt path true value).node = first.node := by
  intro first
  cases houtcome : first.outcome with
  | ok _ => exact setAt_of_setAt houtcome fun h => hkeeps h.retargets
  | error failure =>
    have hnode : first.node = root := visit_node_of_error (restrained_set _ _ _) houtcome
    rw [hnode]
    exact ⟨houtcome, hnode⟩

end Value

/-! ## All jobs -/

namespace Manifest

variable {manifest : Manifest} {p : Position} {positions : List Position} {path : Path}
  {vivify : Bool} {act : Action Unit}

/-- The loop leaves the jobs at other positions alone. -/
lemma job?_editJobs (hact : Value.Restrained act) (hpositions : positions.Nodup)
    (hp : p ∉ positions) (manifest : Manifest) :
    (editJobs path vivify act positions manifest).value.2.job? p = manifest.job? p := by
  obtain ⟨done, rest, hsplit, -, hmanifest, -⟩ :=
    @editJobs_spec positions path vivify act hact hpositions manifest
  rw [hmanifest]
  refine job?_editedAt fun hmem => ?_
  obtain ⟨e, he, rfl⟩ := List.mem_map.1 hmem
  exact hp (mem_of_mem_jobsAt (hsplit ▸ List.mem_append_left rest he)).1

/-- A job that can be edited is edited, and the loop goes on. -/
lemma editJobs_cons_of_ok {job : Job} (hjob : manifest.job? p = some job)
    (houtcome : (job.properties.visit path vivify act).outcome = .ok ()) :
    (editJobs path vivify act (p :: positions) manifest).value =
      (editJobs path vivify act positions (manifest.setJob p
        { job with properties := (job.properties.visit path vivify act).node })).value := by
  simp [editJobs, hjob, houtcome]

/-- If an action on a tree can be repeated without effect, so can the loop. -/
theorem editJobs_again (hact : Value.Restrained act) (hpositions : positions.Nodup)
    (hagain : ∀ root : Value,
      ((root.visit path vivify act).node.visit path vivify act).outcome =
          (root.visit path vivify act).outcome ∧
        ((root.visit path vivify act).node.visit path vivify act).node =
          (root.visit path vivify act).node)
    (manifest : Manifest) :
    let first := editJobs path vivify act positions manifest
    (editJobs path vivify act positions first.value.2).value = first.value := by
  induction positions generalizing manifest with
  | nil => rfl
  | cons p rest ih =>
    obtain ⟨hp, hrest⟩ := List.nodup_cons.1 hpositions
    cases hjob : manifest.job? p with
    | none =>
      have hjob' : (editJobs path vivify act rest manifest).value.2.job? p = none := by
        rw [job?_editJobs hact hrest hp, hjob]
      simpa [editJobs, hjob, hjob'] using ih hrest manifest
    | some job =>
      obtain ⟨houtcome', hnode'⟩ := hagain job.properties
      cases houtcome : (job.properties.visit path vivify act).outcome with
      | error failure =>
        have hnode := Value.visit_node_of_error hact houtcome
        simp [editJobs, hjob, houtcome, hnode, setJob_job? hjob]
      | ok _ =>
        let job' := { job with properties := (job.properties.visit path vivify act).node }
        let others := editJobs path vivify act rest (manifest.setJob p job')
        -- the rest of the loop does not come back to this job, so it is found edited
        have hjob' : others.value.2.job? p = some job' := by
          rw [job?_editJobs hact hrest hp, job?_setJob, hjob, Option.map_some, if_pos rfl]
        have hsame : others.value.2.setJob p
            { job' with properties := (job'.properties.visit path vivify act).node } =
              others.value.2 := by
          rw [hnode']
          exact setJob_job? hjob'
        intro first
        have hfirst : first.value = others.value := editJobs_cons_of_ok hjob houtcome
        rw [hfirst, editJobs_cons_of_ok hjob' (houtcome'.trans houtcome), hsame]
        exact ih hrest (manifest.setJob p job')

/-- The loop renames no job, so a search after it finds what it would have found before. -/
lemma findJobs_editJobs (hact : Value.Restrained act) (hpositions : positions.Nodup)
    (manifest : Manifest) (group? : Option String) (name : String) :
    (editJobs path vivify act positions manifest).value.2.findJobs group? name =
      manifest.findJobs group? name := by
  obtain ⟨done, -, -, -, hmanifest, -⟩ :=
    @editJobs_spec positions path vivify act hact hpositions manifest
  rw [hmanifest, editedAt]
  refine findJobs_mapJobs (fun p job => ?_) manifest group? name
  split <;> rfl

end Manifest

/-! ## The chain -/

namespace Selector

/-- The state after locating jobs of a manifest and setting a property of them. -/
def afterSet (group? : Option String) (name pathText : String) (value : Value)
    (manifest : Manifest) (options : SelectorOptions) : Selector :=
  (Operation.run [.search group? name, .addProperty pathText value]
    (new manifest options) ()).value.2.1

variable {group? : Option String} {name pathText : String} {value : Value} {manifest : Manifest}
  {options : SelectorOptions}

/-- Without a job of the name, the chain fails at the search. -/
lemma afterSet_of_missing (h : manifest.findJobs group? name = []) :
    afterSet group? name pathText value manifest options =
      { new manifest options with failure := some (.entityNotFound name) } := by
  simp only [afterSet, Operation.run, Logged.andThen, Logged.map,
    search_value (s := new manifest options) rfl]
  simp [h, select, new, fail, Operation.apply, addProperty, perform, Logged.map, Logged.quiet]

/-- With jobs of the name, the chain is an edit of these jobs. -/
lemma afterSet_of_found (h : manifest.findJobs group? name ≠ []) :
    afterSet group? name pathText value manifest options =
      (edit ⟨manifest, manifest.findJobs group? name, none, options⟩ pathText true
        fun path => Value.set path.last path.text value).value := by
  have hfound : (manifest.findJobs group? name).isEmpty = false := by simpa using h
  simp only [afterSet, Operation.run, Logged.andThen, Logged.map,
    search_value (s := new manifest options) rfl]
  simp [hfound, select, new, Operation.apply, addProperty, perform, Logged.map, Logged.quiet]

/-- Locating jobs and setting a property is done again with the same outcome and without effect,
whatever the first run came to. -/
theorem afterSet_again (group? : Option String) (name pathText : String) (value : Value)
    (hkeeps : ∀ path, Path.ofText? pathText = some path → ¬ path.Retargets value)
    (manifest : Manifest) (options options' : SelectorOptions) :
    let first := afterSet group? name pathText value manifest options
    let second := afterSet group? name pathText value first.manifest options'
    second.result = first.result ∧ second.manifest = first.manifest := by
  intro first second
  by_cases hfound : manifest.findJobs group? name = []
  case pos =>
    have hfirst : first = _ := afterSet_of_missing hfound
    have hsecond : second = _ := afterSet_of_missing (by rw [hfirst]; exact hfound)
    rw [hsecond, hfirst]
    exact ⟨rfl, rfl⟩
  case neg =>
    have hfirst : first = _ := afterSet_of_found hfound
    cases hpath : Path.ofText? pathText with
    | none =>
      obtain rfl : pathText = "" := by
        by_contra hne
        obtain ⟨path, hsome⟩ := Path.exists_of_ne_empty hne
        cases hpath.symm.trans hsome
      rw [edit_pathless rfl] at hfirst
      have hsecond : second = _ := afterSet_of_found (by rw [hfirst]; exact hfound)
      rw [edit_pathless rfl] at hsecond
      rw [hsecond, hfirst]
      exact ⟨rfl, rfl⟩
    | some path =>
      have hrestrained := Value.restrained_set path.last path.text value
      have hnodup := (manifest.inOrder_findJobs group? name).nodup
      let edited := (Manifest.editJobs path true (Value.set path.last path.text value)
        (manifest.findJobs group? name) manifest).value
      have hsearch : edited.2.findJobs group? name = manifest.findJobs group? name :=
        Manifest.findJobs_editJobs hrestrained hnodup manifest group? name
      have hagain := Manifest.editJobs_again hrestrained hnodup
        (Value.setAt_again (hkeeps path hpath)) manifest
      rw [edit_selected rfl hpath hfound] at hfirst
      have hmanifest : first.manifest = edited.2 := congrArg Selector.manifest hfirst
      have hsecond : second = _ := afterSet_of_found (by rw [hmanifest, hsearch]; exact hfound)
      rw [hmanifest, hsearch, edit_selected rfl hpath hfound, hagain] at hsecond
      rw [hsecond, hfirst]
      exact ⟨rfl, rfl⟩

/-- Two jobs of a name: one with properties of all kinds, and one with a scalar in their place. -/
def halfSettable : Manifest :=
  let first := { Job.new "a" "r" with properties := Value.mixedTree }
  let second := { Job.new "a" "r" with properties := .int 1 }
  (Manifest.new "m").withGroup { InstanceGroup.new "g" with jobs := [first, second] }

/-- The fan-out sets the first job and fails at the second, both times. -/
theorem afterSet_again_halfSettable :
    let first := afterSet (some "g") "a" "routes/name=x/tls/on" (.bool true) halfSettable .quiet
    let second :=
      afterSet (some "g") "a" "routes/name=x/tls/on" (.bool true) first.manifest ⟨true, true⟩
    (first.result = .error (.unsupportedContainer "routes/name=x/tls/on" "routes" "1" .int) ∧
      first.manifest ≠ halfSettable) ∧
      second.result = first.result ∧ second.manifest = first.manifest := by
  intro first second
  have hfirst : first.result =
        .error (.unsupportedContainer "routes/name=x/tls/on" "routes" "1" .int) ∧
      first.manifest ≠ halfSettable := by decide +kernel
  have hkeeps : ∀ path, Path.ofText? "routes/name=x/tls/on" = some path →
      ¬ path.Retargets (.bool true) := by
    rintro path hpath ⟨parents, segment, x, hparents, form, -⟩
    have htext : Path.ofText? "routes/name=x/tls/on" =
        some ⟨["routes", "name=x"] ++ ["tls"], "on"⟩ := by decide +kernel
    obtain rfl := Option.some.inj (htext.symm.trans hpath)
    obtain ⟨-, hsegment⟩ := List.append_inj' hparents rfl
    obtain rfl := (List.singleton_inj.1 hsegment).symm
    have hkey : SegmentClass.ofText "tls" = .key "tls" := by decide +kernel
    cases hkey.symm.trans form
  exact ⟨hfirst, afterSet_again _ _ _ _ hkeeps _ _ _⟩

/-- A set that retargets its path is not repeated: the query of the second run finds nothing. -/
example :
    let first := afterSet none "a" "routes/name=x/name" (.text "z") halfSettable .quiet
    (afterSet none "a" "routes/name=x/name" (.text "z") first.manifest .quiet).result ≠
      first.result := by
  decide +kernel

end Selector

end PropertyTree
