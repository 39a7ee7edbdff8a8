import PropertyTree.Proofs.JobEdits
import PropertyTree.Proofs.Searches

/-!
# What a chain leaves alone

A chain without functions can change a manifest in two respects only: it gives other properties to
jobs, and it adds variables at the end.  `Operation.run_frame` says this in one equation, with the
jobs whose properties may differ and the variables that may be added.

The invariant behind it is `Selector.StemsFrom`.  It keeps the frame of the manifest together with
where the selected jobs come from: every recorded position held, in the manifest that the chain
began with, a job whose name was located on the way.  An edit reaches jobs at recorded positions, so
it reaches no other names; and since no edit renames a job, a later search still sees the names of
the beginning.
-/

namespace PropertyTree

variable {σ : Type}

/-! ## Manifests with other properties -/

namespace Manifest

/-- The manifest with other properties of its jobs. -/
def putProperties (properties : Position → Value) (manifest : Manifest) : Manifest :=
  manifest.mapJobs fun p job => { job with properties := properties p }

/-- The properties of the job at a position, and null where there is no job. -/
def propertiesAt (manifest : Manifest) (p : Position) : Value :=
  ((manifest.job? p).map Job.properties).getD .null

/-- The manifest with other variables. -/
def withVariables (vs : List Variable) (manifest : Manifest) : Manifest :=
  { manifest with «variables» := vs }

/-- The second manifest is the first but for properties of jobs and for the variables. -/
def SameFrame (m n : Manifest) : Prop :=
  n = (m.putProperties n.propertiesAt).withVariables n.variables

variable {m n o : Manifest} {p : Position} {job : Job}

lemma propertiesAt_of_job? (h : m.job? p = some job) : m.propertiesAt p = job.properties := by
  rw [propertiesAt, h]
  rfl

lemma putProperties_putProperties (first second : Position → Value) (m : Manifest) :
    (m.putProperties first).putProperties second = m.putProperties second :=
  mapJobs_mapJobs _ _ m

lemma SameFrame.refl (m : Manifest) : m.SameFrame m := by
  have hput : m.putProperties m.propertiesAt = m := by
    refine (mapJobs_congr fun p job hjob => ?_).trans (mapJobs_id m)
    rw [propertiesAt_of_job? hjob]
  rw [SameFrame, hput]
  rfl

lemma sameFrame_withVariables (m : Manifest) (vs : List Variable) :
    m.SameFrame (m.withVariables vs) :=
  congrArg (withVariables vs) (SameFrame.refl m)

lemma SameFrame.trans (h : m.SameFrame n) (h' : n.SameFrame o) : m.SameFrame o := by
  have hput : n.putProperties o.propertiesAt =
      (m.putProperties o.propertiesAt).withVariables n.variables := by
    calc n.putProperties o.propertiesAt
        = ((m.putProperties n.propertiesAt).withVariables n.variables).putProperties
            o.propertiesAt := congrArg (putProperties o.propertiesAt) h
      _ = ((m.putProperties n.propertiesAt).putProperties
            o.propertiesAt).withVariables n.variables := rfl
      _ = (m.putProperties o.propertiesAt).withVariables n.variables := by
          rw [putProperties_putProperties]
  calc o = (n.putProperties o.propertiesAt).withVariables o.variables := h'
    _ = (m.putProperties o.propertiesAt).withVariables o.variables := by rw [hput]; rfl

/-- Rewriting nothing of jobs but their properties keeps the frame. -/
lemma Rewritten.sameFrame {change : Position → Job → Job → Prop} (h : m.Rewritten change n)
    (hchange : ∀ p old new, change p old new → new = { old with properties := new.properties }) :
    m.SameFrame n := by
  obtain ⟨f, rfl, hf⟩ := h
  have hput : m.mapJobs f = m.putProperties (m.mapJobs f).propertiesAt := by
    refine mapJobs_congr fun p job hjob => ?_
    have hmapped : (m.mapJobs f).job? p = some (f p job) := by
      rw [job?_mapJobs, hjob, Option.map_some]
    rw [propertiesAt_of_job? hmapped]
    rcases hf p job hjob with hsame | hp
    · rw [hsame]
    · exact hchange p job _ hp
  exact congrArg (withVariables m.variables) hput

/-- Positions hold jobs of the same names, in groups of the same names. -/
lemma SameFrame.holds_iff (h : m.SameFrame n) {group? : Option String} {name : String} :
    n.Holds group? name p ↔ m.Holds group? name p := by
  let put : Position → Job → Job := fun p job => { job with properties := n.propertiesAt p }
  have hnames : ∀ p job, (put p job).name = job.name := fun _ _ => rfl
  have hput : (m.mapJobs put).findJobs group? name = m.findJobs group? name :=
    findJobs_mapJobs hnames m group? name
  have hfound : n.findJobs group? name = m.findJobs group? name :=
    (congrArg (findJobs · group? name) h).trans hput
  rw [← mem_findJobs_iff, ← mem_findJobs_iff, hfound]

end Manifest

/-! ## What operations say -/

namespace Operation

/-- Operations without a function. -/
def isPlain : Operation σ → Bool
  | forEachSelected _ | forEachGroup _ => false
  | locate _ | locateInGroup .. | addProperty .. | removeProperty _ | addVariable _ | getTyped ..
  | getValue _ | get .. => true

/-- The name that an operation locates, if it is a search. -/
def located? : Operation σ → Option String
  | locate name | locateInGroup _ name => some name
  | addProperty .. | removeProperty _ | addVariable _ | getTyped .. | getValue _ | get ..
  | forEachSelected _ | forEachGroup _ => none

/-- The variable that an operation declares, if it declares one. -/
def declared? : Operation σ → Option Variable
  | addVariable v => some v
  | locate _ | locateInGroup .. | addProperty .. | removeProperty _ | getTyped .. | getValue _
  | get .. | forEachSelected _ | forEachGroup _ => none

lemma located?_search (group? : Option String) (name : String) :
    (search group? name : Operation σ).located? = some name := by
  cases group? <;> rfl

/-- A plain operation changes nothing of a job but its properties. -/
lemma Patches.properties {operation : Operation σ} {old new : Job} (h : operation.Patches old new)
    (hplain : operation.isPlain = true) : new = { old with properties := new.properties } := by
  cases operation with
  | addProperty pathText value | removeProperty pathText =>
    obtain ⟨path, -, rfl⟩ := h
    rfl
  | forEachSelected f => cases hplain
  | locate _ | locateInGroup _ _ | addVariable _ | getTyped _ _ | getValue _ | get _ _
  | forEachGroup _ => cases h

/-- The operations of a chain that are carried out: all of them up to the first failure, together
with the one that fails. -/
def executed : List (Operation σ) → Selector → σ → List (Operation σ)
  | [], _, _ => []
  | operation :: rest, s, state =>
    match s.failure with
    | some _ => []
    | none =>
      operation ::
        executed rest (operation.apply s state).value.2.1 (operation.apply s state).value.2.2

lemma executed_of_failure {s : Selector} {failure : Failure} (h : s.failure = some failure)
    (operations : List (Operation σ)) (state : σ) : executed operations s state = [] := by
  cases operations with
  | nil => rfl
  | cons operation rest => simp [executed, h]

end Operation

/-! ## The invariant -/

namespace Selector

/-- What a chain of plain operations can have made of a manifest: the names that it located are
among `names`, and the variables that it added are `added`. -/
structure StemsFrom (start : Manifest) (names : List String) (added : List Variable)
    (s : Selector) : Prop where
  frame : start.SameFrame s.manifest
  /-- Only properties of jobs with these names differ. -/
  properties : ∀ p old new, start.job? p = some old → s.manifest.job? p = some new →
    new.properties ≠ old.properties → old.name ∈ names
  /-- The selected jobs have these names. -/
  positions : ∀ p ∈ s.positions, ∀ job, start.job? p = some job → job.name ∈ names
  declared : s.manifest.variables = start.variables ++ added
  distinct : (added.map Variable.name).Nodup
  new : ∀ v ∈ added, ∀ w ∈ start.variables, v.name ≠ w.name

variable {s : Selector} {start : Manifest} {names : List String} {added : List Variable}

/-- A selector stems from its own manifest, with the names of the selected jobs. -/
lemma stemsFrom_self (s : Selector) : s.StemsFrom s.manifest (s.matched.map Job.name) [] where
  frame := .refl s.manifest
  properties p old new hold hnew hne := by
    obtain rfl : old = new := Option.some.inj (hold.symm.trans hnew)
    exact absurd rfl hne
  positions p hp job hjob := List.mem_map_of_mem (List.mem_filterMap.2 ⟨p, hp, hjob⟩)
  declared := (List.append_nil _).symm
  distinct := List.nodup_nil
  new v hv := by cases hv

/-- Operations on jobs keep the invariant, with the name they locate. -/
lemma StemsFrom.apply (h : StemsFrom start names added s) (hpositions : s.positions.Nodup)
    {operation : Operation σ} (hplain : operation.isPlain = true)
    (hjobs : operation.worksOnJobs = true) (state : σ) :
    StemsFrom start (names ++ operation.located?.toList) added
      (operation.apply s state).value.2.1 := by
  have hrewritten := Operation.apply_rewritten hpositions hjobs state
  refine ⟨h.frame.trans (hrewritten.sameFrame fun _ _ _ hp => hp.2.properties hplain), ?_, ?_, ?_,
    h.distinct, h.new⟩
  · intro p old new hold hnew hne
    refine List.mem_append_left _ ?_
    rcases hrewritten.job? p with hsame | ⟨_, _, -, -, hp, -⟩
    · exact h.properties p old new hold (hsame.symm.trans hnew) hne
    · exact h.positions p hp old hold
  · intro p hp job hjob
    rcases positions_apply operation s state with hsame | ⟨group?, name, rfl, hfound⟩
    · rw [hsame] at hp
      exact List.mem_append_left _ (h.positions p hp job hjob)
    · rw [hfound, Manifest.mem_findJobs_iff, h.frame.holds_iff] at hp
      obtain ⟨job', hjob', hname⟩ := hp.job?
      obtain rfl : job' = job := Option.some.inj (hjob'.symm.trans hjob)
      rw [Operation.located?_search]
      exact List.mem_append_right _ (List.mem_singleton.2 hname)
  · obtain ⟨f, hf, -⟩ := hrewritten
    rw [hf]
    exact h.declared

/-- A variable of a new name is added. -/
lemma StemsFrom.addVariable (h : StemsFrom start names added s) {v : Variable}
    (hs : s.failure = none) (hv : ∀ w ∈ s.manifest.variables, w.name ≠ v.name) :
    StemsFrom start names (added ++ [v]) (s.addVariable v).value := by
  have hall : ∀ w ∈ start.variables ++ added, w.name ≠ v.name := h.declared ▸ hv
  rw [addVariable_of_new hs hv]
  refine ⟨?_, h.properties, h.positions, ?_, ?_, ?_⟩
  · exact h.frame.trans (Manifest.sameFrame_withVariables _ _)
  · simp only [h.declared, List.append_assoc]
  · rw [List.map_append, List.map_singleton]
    refine List.nodup_append.2 ⟨h.distinct, by simp, ?_⟩
    rintro a ha b hb rfl
    obtain ⟨w, hw, hname⟩ := List.mem_map.1 ha
    exact hall w (List.mem_append_right _ hw) (hname.trans (List.mem_singleton.1 hb))
  · intro w hw u hu
    rcases List.mem_append.1 hw with hw | hw
    · exact h.new w hw u hu
    · rw [List.mem_singleton.1 hw]
      exact (hall u (List.mem_append_left _ hu)).symm

lemma StemsFrom.withFailure (h : StemsFrom start names added s) (failure : Option Failure) :
    StemsFrom start names added { s with failure } :=
  ⟨h.frame, h.properties, h.positions, h.declared, h.distinct, h.new⟩

/-- An operation keeps the invariant, with the name it locates and the variable it adds, unless the
name of this variable is taken. -/
lemma StemsFrom.step (h : StemsFrom start names added s) (hs : s.failure = none)
    (hpositions : s.positions.Nodup) {operation : Operation σ} (hplain : operation.isPlain = true)
    (hnew : ∀ v, operation = .addVariable v → ∀ w ∈ s.manifest.variables, w.name ≠ v.name)
    (state : σ) :
    StemsFrom start (names ++ operation.located?.toList) (added ++ operation.declared?.toList)
      (operation.apply s state).value.2.1 := by
  cases operation with
  | addVariable v =>
    have hadded := h.addVariable hs (hnew v rfl)
    simpa [Operation.located?, Operation.declared?, Operation.apply, Logged.map] using hadded
  | locate _ | locateInGroup _ _ | addProperty _ _ | removeProperty _ | getTyped _ _ | getValue _
  | get _ _ =>
    have hkept := h.apply hpositions hplain rfl state
    simpa [Operation.declared?] using hkept
  | forEachSelected f | forEachGroup f => cases hplain

end Selector

/-! ## Chains -/

namespace Operation

/-- What becomes of the variables that the executed operations of a chain declare: all of them are
added; or the last operation declares one whose name is taken, and then all but this one are added,
and the duplicate is the failure of the chain. -/
def Declares (calls : List (Operation σ)) (added : List Variable) (final : Selector) : Prop :=
  calls.filterMap declared? = added ∨
    ∃ before v, calls = before ++ [.addVariable v] ∧ before.filterMap declared? = added ∧
      (∃ w ∈ final.manifest.variables, w.name = v.name) ∧
      final.failure = some (.duplicateVariable v.name)

variable {s : Selector} {start : Manifest} {names : List String} {added : List Variable}

lemma filterMap_cons_toList {α β : Type} (f : α → Option β) (a : α) (rest : List α) :
    (a :: rest).filterMap f = (f a).toList ++ rest.filterMap f := by
  cases h : f a <;> simp [h]

lemma Declares.cons {calls : List (Operation σ)} {final : Selector} (h : Declares calls added final)
    (operation : Operation σ) :
    Declares (operation :: calls) (operation.declared?.toList ++ added) final := by
  rcases h with hall | ⟨before, v, rfl, hbefore, htaken, hfailure⟩
  · exact .inl (by rw [filterMap_cons_toList, hall])
  · exact .inr ⟨operation :: before, v, rfl, by rw [filterMap_cons_toList, hbefore], htaken,
      hfailure⟩

/-- A chain of plain operations keeps the invariant, with the names it locates and the variables it
adds. -/
lemma stemsFrom_run (h : s.StemsFrom start names added) (hs : s.Reachable)
    {operations : List (Operation σ)}
    (hplain : ∀ operation ∈ operations, operation.isPlain = true) (state : σ) :
    ∃ more, (run operations s state).value.2.1.StemsFrom start
        (names ++ (executed operations s state).filterMap located?) (added ++ more) ∧
      Declares (executed operations s state) more (run operations s state).value.2.1 := by
  induction operations generalizing s names added state with
  | nil => exact ⟨[], by simpa [executed, run, Logged.quiet] using h, .inl rfl⟩
  | cons operation rest ih =>
    cases hfailure : s.failure with
    | some failure =>
      rw [executed_of_failure hfailure, run_of_failure hfailure]
      exact ⟨[], by simpa using h, .inl rfl⟩
    | none =>
      obtain ⟨hfirst, hrest⟩ := List.forall_mem_cons.1 hplain
      have hreachable : (operation.apply s state).value.2.1.Reachable := .step operation state hs
      have hexecuted : executed (operation :: rest) s state = operation ::
          executed rest (operation.apply s state).value.2.1
            (operation.apply s state).value.2.2 := by
        rw [executed, hfailure]
      rw [hexecuted, run_cons_value]
      by_cases htaken : ∃ v, operation = .addVariable v ∧
          ∃ w ∈ s.manifest.variables, w.name = v.name
      case pos =>
        -- the chain is over, and the selector is as before but for its failure
        obtain ⟨v, rfl, hv⟩ := htaken
        have happly : ((addVariable v).apply s state).value.2.1 =
            { s with failure := some (.duplicateVariable v.name) } :=
          Selector.addVariable_of_taken hfailure hv
        have hreached : ((addVariable v).apply s state).value.2.1.failure =
            some (.duplicateVariable v.name) := by rw [happly]
        rw [executed_of_failure hreached, run_of_failure hreached, happly]
        refine ⟨[], ?_, .inr ⟨[], v, rfl, rfl, hv, rfl⟩⟩
        rw [filterMap_cons_toList, List.append_nil]
        simpa [located?] using h.withFailure _
      case neg =>
        have hnew : ∀ v, operation = .addVariable v →
            ∀ w ∈ s.manifest.variables, w.name ≠ v.name :=
          fun v hv w hw hname => htaken ⟨v, hv, w, hw, hname⟩
        obtain ⟨more, hstems, hdeclares⟩ :=
          ih (h.step hfailure hs.nodup hfirst hnew state) hreachable hrest _
        refine ⟨operation.declared?.toList ++ more, ?_, hdeclares.cons operation⟩
        rw [filterMap_cons_toList, ← List.append_assoc, ← List.append_assoc]
        exact hstems

/-- A chain of plain operations keeps the frame of the manifest. -/
lemma sameFrame_run (hs : s.Reachable) {operations : List (Operation σ)}
    (hplain : ∀ operation ∈ operations, operation.isPlain = true) (state : σ) :
    s.manifest.SameFrame (run operations s state).value.2.1.manifest := by
  obtain ⟨_, hstems, -⟩ := stemsFrom_run s.stemsFrom_self hs hplain state
  exact hstems.frame

/-- What a chain leaves of the manifest that it began with, in terms of the operations that were
carried out. -/
structure KeepsFrame (manifest : Manifest) (calls : List (Operation σ)) (added : List Variable)
    (final : Selector) : Prop where
  /-- Nothing but properties of jobs differs, and variables are added at the end. -/
  frame : final.manifest = (manifest.putProperties final.manifest.propertiesAt).withVariables
    (manifest.variables ++ added)
  /-- Properties differ only of jobs with a name that was located. -/
  properties : ∀ p old new, manifest.job? p = some old → final.manifest.job? p = some new →
    new.properties ≠ old.properties → old.name ∈ calls.filterMap located?
  /-- The added variables are those that were declared, in this order, up to the first duplicate. -/
  declares : Declares calls added final
  /-- They have names of their own. -/
  distinct : (added.map Variable.name).Nodup
  new : ∀ v ∈ added, ∀ w ∈ manifest.variables, v.name ≠ w.name
  /-- So names that are distinct stay distinct. -/
  nodup : (manifest.variables.map Variable.name).Nodup →
    (final.manifest.variables.map Variable.name).Nodup

/-- A chain without functions, of any length and failing or not, keeps the frame of its manifest. -/
theorem run_frame {operations : List (Operation σ)}
    (hplain : ∀ operation ∈ operations, operation.isPlain = true) (manifest : Manifest)
    (options : SelectorOptions) (state : σ) :
    let start := Selector.new manifest options
    ∃ added, KeepsFrame manifest (executed operations start state) added
      (run operations start state).value.2.1 := by
  intro start
  obtain ⟨added, hstems, hdeclares⟩ := stemsFrom_run (Selector.new manifest options).stemsFrom_self
    (.new manifest options) hplain state
  have hvariables : (run operations start state).value.2.1.manifest.variables =
      manifest.variables ++ added := hstems.declared
  refine ⟨added, ?_, hstems.properties, hdeclares, hstems.distinct, hstems.new, fun hnodup => ?_⟩
  · rw [← hvariables]
    exact hstems.frame
  · rw [hvariables, List.map_append]
    refine List.nodup_append.2 ⟨hnodup, hstems.distinct, ?_⟩
    rintro a ha b hb rfl
    obtain ⟨w, hw, hname⟩ := List.mem_map.1 ha
    obtain ⟨v, hv, hname'⟩ := List.mem_map.1 hb
    exact hstems.new v hv w hw (hname'.trans hname.symm)

/-- A manifest with two jobs in a group and with a variable. -/
def declaring : Manifest :=
  let group := ((InstanceGroup.new "g").withJob (Job.new "a" "r")).withJob (Job.new "b" "r")
  ((Manifest.new "m").withGroup group).withVariables [Variable.new "ca" "certificate"]

/-- A chain that edits a job, adds a variable, declares the variable that is there, and then would
go on. -/
def declaringChain : List (Operation Unit) :=
  [.locate "a", .addProperty "x/y" (.int 1), .addVariable (Variable.new "password" "password"),
    .getTyped .int "x/y", .addVariable (Variable.new "ca" "password"), .locate "b",
    .addProperty "x" .null]

/-- The chain stops at the duplicate, so the second job is not located. -/
theorem run_frame_declaring :
    (∀ operation ∈ declaringChain, operation.isPlain = true) ∧
      let start := Selector.new declaring .quiet
      let final := (run declaringChain start ()).value.2.1
      final.failure = some (.duplicateVariable "ca") ∧
        (executed declaringChain start ()).filterMap located? = ["a"] ∧
        ∃ added, KeepsFrame declaring (executed declaringChain start ()) added final := by
  have hplain : ∀ operation ∈ declaringChain, operation.isPlain = true := by
    simp [declaringChain, isPlain]
  exact ⟨hplain, by decide +kernel, by decide +kernel, run_frame hplain declaring .quiet ()⟩

end Operation

end PropertyTree
