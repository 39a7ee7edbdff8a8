import PropertyTree.Proofs.JobMap
import PropertyTree.Proofs.SelectorSteps
import PropertyTree.Proofs.SimilarWalks

/-!
# Runs on similar manifests

Two manifests are similar if they differ only by similar property trees.  A chain of operations
cannot tell them apart: it selects the same jobs, succeeds and fails at the same calls, reads the
same scalars and similar values, and leaves similar manifests.

The runs are compared step by step.  `Selector.InStep` is what two selectors have in common as they
go along, `apply_inStep` says that one operation keeps it, and `similar_runs_agree` follows by
induction on the chain.  The two operations that pass jobs or groups through a function are left
out, since a function can look at anything.
-/

namespace PropertyTree

open Value (Blind)

/-! ## Similar manifests -/

/-- Jobs that differ only by similar properties. -/
structure Job.Similar (a b : Job) : Prop where
  name : a.name = b.name
  release : a.release = b.release
  properties : Value.Similar a.properties b.properties
  extra : a.extra = b.extra

lemma Job.Similar.withProperties {a b : Job} {x y : Value} (h : a.Similar b)
    (hxy : Value.Similar x y) : Job.Similar { a with properties := x } { b with properties := y } :=
  ⟨h.name, h.release, hxy, h.extra⟩

/-- Groups that differ only by similar properties of their jobs. -/
structure InstanceGroup.Similar (a b : InstanceGroup) : Prop where
  name : a.name = b.name
  instances : a.instances = b.instances
  jobs : List.Forall₂ Job.Similar a.jobs b.jobs
  extra : a.extra = b.extra

/-- Manifests that differ only by similar properties of their jobs. -/
structure Manifest.Similar (m n : Manifest) : Prop where
  name : m.name = n.name
  groups : List.Forall₂ InstanceGroup.Similar m.groups n.groups
  declared : m.variables = n.variables
  extra : m.extra = n.extra

namespace Manifest

/-- The properties of every job are well-formed. -/
def WellFormed (manifest : Manifest) : Prop :=
  ∀ job ∈ manifest.jobs, job.properties.WellFormed

variable {m n : Manifest} {p : Position} {job a b : Job}

lemma WellFormed.of_job? (h : m.WellFormed) (hjob : m.job? p = some job) :
    job.properties.WellFormed :=
  h job (mem_jobs_iff.2 ⟨p, hjob⟩)

lemma WellFormed.setJob (h : m.WellFormed) (hjob : job.properties.WellFormed) (p : Position) :
    (m.setJob p job).WellFormed := by
  intro job' hjob'
  obtain ⟨q, hq⟩ := mem_jobs_iff.1 hjob'
  rw [job?_setJob] at hq
  obtain ⟨old, hold, rfl⟩ := Option.map_eq_some_iff.1 hq
  split
  case isTrue => exact hjob
  case isFalse => exact h.of_job? hold

lemma Similar.job? (h : m.Similar n) (p : Position) :
    Option.Rel Job.Similar (m.job? p) (n.job? p) := by
  unfold Manifest.job?
  rcases optionRel_cases (forall₂_getElem? h.groups p.group) with ⟨hm, hn⟩ | ⟨g, g', hm, hn, hg⟩
  · rw [hm, hn]
    exact .none
  · rw [hm, hn]
    exact forall₂_getElem? hg.jobs p.job

lemma Similar.setJob (h : m.Similar n) (hab : a.Similar b) (p : Position) :
    (m.setJob p a).Similar (n.setJob p b) := by
  refine ⟨h.name, forall₂_modify h.groups (fun g g' hg => ?_) p.group, h.declared, h.extra⟩
  exact ⟨hg.name, hg.instances, forall₂_set hg.jobs hab p.job, hg.extra⟩

/-! ## Searching -/

lemma jobIndices_similar {as bs : List Job} (h : List.Forall₂ Job.Similar as bs) (name : String)
    (start : Nat) : jobIndices name start as = jobIndices name start bs := by
  induction h generalizing start with
  | nil => rfl
  | cons hab _ ih => rw [jobIndices, jobIndices, hab.name, ih]

lemma findIn_similar {test : InstanceGroup → Bool} {as bs : List InstanceGroup}
    (h : List.Forall₂ InstanceGroup.Similar as bs)
    (htest : ∀ a b, InstanceGroup.Similar a b → test a = test b) (name : String) (start : Nat) :
    findIn test name start as = findIn test name start bs := by
  induction h generalizing start with
  | nil => rfl
  | cons hab _ ih => rw [findIn, findIn, htest _ _ hab, jobIndices_similar hab.jobs, ih]

/-- A search finds the same positions. -/
theorem Similar.findJobs_eq (h : m.Similar n) (group? : Option String) (name : String) :
    m.findJobs group? name = n.findJobs group? name := by
  refine findIn_similar h.groups (fun a b hab => ?_) name 0
  cases group? with
  | none => rfl
  | some wanted => simp only [hab.name]

/-! ## Editing several jobs -/

/-- The loop over positions stops at the same job on both sides, for the same reason. -/
theorem editJobs_similar {R : Unit → Unit → Prop} {act : Action Unit} (hact : Blind R act)
    (path : Path) (vivify : Bool) (positions : List Position) (h : m.Similar n)
    (hm : m.WellFormed) (hn : n.WellFormed) :
    let first := (editJobs path vivify act positions m).value
    let second := (editJobs path vivify act positions n).value
    first.1.map Failure.bare = second.1.map Failure.bare ∧ first.2.Similar second.2 ∧
      first.2.WellFormed ∧ second.2.WellFormed := by
  induction positions generalizing m n with
  | nil => exact ⟨rfl, h, hm, hn⟩
  | cons p rest ih =>
    rcases optionRel_cases (h.job? p) with ⟨ha, hb⟩ | ⟨a, b, ha, hb, hab⟩
    · simp only [editJobs, ha, hb]
      exact ih h hm hn
    · have hawf := hm.of_job? ha
      have hbwf := hn.of_job? hb
      have hvisit := Value.visit_similar hact path vivify hab.properties hawf hbwf
      have hset :
          (m.setJob p { a with properties := (a.properties.visit path vivify act).node }).Similar
            (n.setJob p { b with properties := (b.properties.visit path vivify act).node }) :=
        h.setJob (hab.withProperties hvisit.node) p
      have hm' : (m.setJob p
          { a with properties := (a.properties.visit path vivify act).node }).WellFormed :=
        hm.setJob (hawf.visit hact.keeps path vivify) p
      have hn' : (n.setJob p
          { b with properties := (b.properties.visit path vivify act).node }).WellFormed :=
        hn.setJob (hbwf.visit hact.keeps path vivify) p
      rcases hvisit.outcome.exists_of with ⟨_, _, hx, hy, -⟩ | ⟨f, g, hx, hy, hfg⟩
      · simp only [editJobs, ha, hb, hx, hy]
        exact ih hset hm' hn'
      · simp only [editJobs, ha, hb, hx, hy]
        exact ⟨by rw [Option.map_some, Option.map_some, hfg], hset, hm', hn'⟩

end Manifest

/-! ## Selectors in step -/

namespace Selector

/-- Two selectors with the same selection, with failures that agree, and with similar manifests. -/
structure InStep (s t : Selector) : Prop where
  positions : s.positions = t.positions
  failure : s.failure.map Failure.bare = t.failure.map Failure.bare
  manifest : s.manifest.Similar t.manifest
  left : s.manifest.WellFormed
  right : t.manifest.WellFormed

variable {s t : Selector} {α : Type} {R : α → α → Prop}

lemma InStep.failure_cases (h : s.InStep t) :
    (s.failure = none ∧ t.failure = none) ∨
      ∃ f g, s.failure = some f ∧ t.failure = some g ∧ f.bare = g.bare := by
  have hfailure := h.failure
  cases hs : s.failure with
  | none =>
    rw [hs, Option.map_none, eq_comm, Option.map_eq_none_iff] at hfailure
    exact .inl ⟨rfl, hfailure⟩
  | some f =>
    rw [hs, Option.map_some, eq_comm] at hfailure
    obtain ⟨g, hg, hbare⟩ := Option.map_eq_some_iff.1 hfailure
    exact .inr ⟨f, g, rfl, hg, hbare.symm⟩

lemma InStep.fail (h : s.InStep t) {f g : Failure} (hfg : f.bare = g.bare) :
    (s.fail f).value.InStep (t.fail g).value := by
  rcases h.failure_cases with ⟨hs, ht⟩ | ⟨f', g', hs, ht, -⟩
  · rw [fail_value hs, fail_value ht]
    refine ⟨h.positions, ?_, h.manifest, h.left, h.right⟩
    rw [Option.map_some, Option.map_some, hfg]
  · rw [Selector.fail, Selector.fail, hs, ht]
    exact h

lemma InStep.perform {operation operation' : Selector → Logged Selector} (h : s.InStep t)
    (call : Call) (hoperation : s.failure = none → t.failure = none →
      (operation s).value.InStep (operation' t).value) :
    (s.perform call operation).value.InStep (t.perform call operation').value := by
  rcases h.failure_cases with ⟨hs, ht⟩ | ⟨f, g, hs, ht, -⟩
  · rw [perform_of_none hs, perform_of_none ht]
    exact hoperation hs ht
  · rw [Selector.perform, Selector.perform, hs, ht]
    exact h

lemma InStep.select (h : s.InStep t) (name : String) (positions : List Position) :
    (s.select name positions).value.InStep (t.select name positions).value := by
  have hselected : InStep { s with positions } { t with positions } :=
    ⟨rfl, h.failure, h.manifest, h.left, h.right⟩
  unfold Selector.select
  split
  case isTrue => exact hselected.fail rfl
  case isFalse => exact hselected

lemma InStep.edit {act : Path → Action Unit} {R : Unit → Unit → Prop} (h : s.InStep t)
    (hs : s.failure = none) (ht : t.failure = none) (hact : ∀ path, Blind R (act path))
    (pathText : String) (vivify : Bool) :
    (s.edit pathText vivify act).value.InStep (t.edit pathText vivify act).value := by
  by_cases hpath : pathText = ""
  case pos =>
    rw [hpath, edit_pathless hs, edit_pathless ht]
    exact ⟨h.positions, rfl, h.manifest, h.left, h.right⟩
  case neg =>
    obtain ⟨path, hpath⟩ := Path.exists_of_ne_empty hpath
    by_cases hselected : s.positions = []
    case pos =>
      have hselected' : t.positions = [] := by rw [← h.positions, hselected]
      rw [edit_unselected hs hpath hselected, edit_unselected ht hpath hselected']
      exact ⟨h.positions, rfl, h.manifest, h.left, h.right⟩
    case neg =>
      have hselected' : t.positions ≠ [] := by rwa [← h.positions]
      obtain ⟨hfailure, hmanifest, hleft, hright⟩ :=
        Manifest.editJobs_similar (hact path) path vivify s.positions h.manifest h.left h.right
      rw [edit_selected hs hpath hselected, edit_selected ht hpath hselected', ← h.positions]
      exact ⟨rfl, hfailure, hmanifest, hleft, hright⟩

lemma InStep.addVariable (h : s.InStep t) (v : Variable) :
    (s.addVariable v).value.InStep (t.addVariable v).value := by
  refine h.perform _ fun hs ht => ?_
  have hnamed : s.manifest.variableNamed? v.name = t.manifest.variableNamed? v.name := by
    unfold Manifest.variableNamed?
    rw [h.manifest.declared]
  by_cases hfound : (s.manifest.variableNamed? v.name).isSome = true
  case pos =>
    have hfound' : (t.manifest.variableNamed? v.name).isSome = true := by rwa [← hnamed]
    simp only [Manifest.addVariable, hfound, hfound', if_true, Logged.quiet]
    exact h.fail rfl
  case neg =>
    have hfound' : ¬ (t.manifest.variableNamed? v.name).isSome = true := by rwa [← hnamed]
    simp only [Manifest.addVariable, hfound, hfound']
    have hdeclared : s.manifest.variables ++ [v] = t.manifest.variables ++ [v] := by
      rw [h.manifest.declared]
    exact ⟨h.positions, h.failure, ⟨h.manifest.name, h.manifest.groups, hdeclared,
      h.manifest.extra⟩, h.left, h.right⟩

/-! ## Reading -/

lemma InStep.readJob {extract : Path → Value → Except Failure α} (h : s.InStep t)
    (hextract : ∀ path, Blind R fun container => (extract path container, container)) (call : Call)
    (pathText : String) :
    Agree R (s.readJob call pathText extract).value.1 (t.readJob call pathText extract).value.1 ∧
      (s.readJob call pathText extract).value.2.InStep
        (t.readJob call pathText extract).value.2 := by
  have hpositions := h.positions
  unfold Selector.readJob
  match hs : s.positions with
  | [] =>
    rw [← hpositions, hs]
    exact ⟨.error rfl, h⟩
  | p :: q :: rest =>
    rw [← hpositions, hs]
    exact ⟨.error rfl, h⟩
  | [p] =>
    rw [← hpositions, hs]
    cases Path.ofText? pathText with
    | none => exact ⟨.error rfl, h⟩
    | some path =>
      rcases optionRel_cases (h.manifest.job? p) with ⟨ha, hb⟩ | ⟨a, b, ha, hb, hab⟩
      · simp only [ha, hb]
        exact ⟨.error rfl, h⟩
      · have hawf := h.left.of_job? ha
        have hbwf := h.right.of_job? hb
        have hvisit := Value.visit_similar (hextract path) path false hab.properties hawf hbwf
        have hleft := hawf.visit (hextract path).keeps path false
        have hright := hbwf.visit (hextract path).keeps path false
        simp only [ha, hb]
        exact ⟨hvisit.outcome, rfl, h.failure,
          h.manifest.setJob (hab.withProperties hvisit.node) p, h.left.setJob hleft p,
          h.right.setJob hright p⟩

/-- Reads that are blind agree, and so does what becomes of the selectors. -/
lemma InStep.read {extract : Path → Value → Except Failure α} (h : s.InStep t)
    (hextract : ∀ path, Blind R fun container => (extract path container, container)) (call : Call)
    (pathText : String) :
    Agree R (s.read call pathText extract).value.1 (t.read call pathText extract).value.1 ∧
      (s.read call pathText extract).value.2.InStep (t.read call pathText extract).value.2 := by
  unfold Selector.read
  rcases h.failure_cases with ⟨hs, ht⟩ | ⟨f, g, hs, ht, hfg⟩
  case inr =>
    rw [hs, ht]
    exact ⟨.error hfg, h⟩
  case inl =>
    rw [hs, ht]
    obtain ⟨hanswer, hstep⟩ := h.readJob hextract call pathText
    -- from here on only what the two readings came to matters
    generalize (s.readJob call pathText extract) = reading at hanswer hstep
    generalize (t.readJob call pathText extract) = reading' at hanswer hstep
    obtain ⟨⟨outcome, s'⟩, events⟩ := reading
    obtain ⟨⟨outcome', t'⟩, events'⟩ := reading'
    rcases hanswer.exists_of with ⟨x, y, hx, hy, hxy⟩ | ⟨f, g, hf, hg, hfg⟩
    · obtain rfl : outcome = .ok x := hx
      obtain rfl : outcome' = .ok y := hy
      exact ⟨.ok hxy, hstep⟩
    · obtain rfl : outcome = .error f := hf
      obtain rfl : outcome' = .error g := hg
      exact ⟨.error hfg, hstep.fail hfg⟩

lemma InStep.getValue (h : s.InStep t) (path : String) :
    Agree Value.Similar (s.getValue path).value.1 (t.getValue path).value.1 ∧
      (s.getValue path).value.2.InStep (t.getValue path).value.2 :=
  h.read (fun path => Value.blind_read fun _ _ hcd hc hd =>
    Value.lookup_similar hcd hc hd path.last path.text) .getValue path

lemma InStep.getScalar (h : s.InStep t) (call : Call) (type : PropertyType) (path : String) :
    Agree Eq (s.getScalar call type path).value.1 (t.getScalar call type path).value.1 ∧
      (s.getScalar call type path).value.2.InStep (t.getScalar call type path).value.2 :=
  h.read (fun path => Value.blind_read fun _ _ hcd hc hd =>
    Value.getScalar_similar type hcd hc hd path.last path.text) call path

end Selector

/-! ## Chains of operations -/

/-- Answers that agree: the same scalar, or similar values. -/
inductive Answer.Agree : Answer → Answer → Prop
  | done : Answer.Agree .done .done
  | scalar {x y : Except Failure Scalar} (agree : PropertyTree.Agree Eq x y) :
      Answer.Agree (.scalar x) (.scalar y)
  | value {x y : Except Failure Value} (agree : PropertyTree.Agree Value.Similar x y) :
      Answer.Agree (.value x) (.value y)

namespace Operation

/-- Operations without a function, and with a well-formed value if they take one. -/
def Admitted {σ : Type} : Operation σ → Prop
  | addProperty _ value => value.WellFormed
  | forEachSelected _ | forEachGroup _ => False
  | locate _ | locateInGroup .. | removeProperty _ | addVariable _ | getTyped .. | getValue _
  | get .. => True

variable {σ : Type} {s t : Selector}

/-- One operation answers alike on both sides and keeps the selectors in step. -/
theorem apply_inStep {operation : Operation σ} (hoperation : operation.Admitted) (h : s.InStep t)
    (state : σ) :
    (operation.apply s state).value.1.Agree (operation.apply t state).value.1 ∧
      (operation.apply s state).value.2.1.InStep (operation.apply t state).value.2.1 ∧
      (operation.apply s state).value.2.2 = (operation.apply t state).value.2.2 := by
  cases operation with
  | locate name =>
    refine ⟨.done, h.perform _ fun _ _ => ?_, rfl⟩
    rw [h.manifest.findJobs_eq none name]
    exact h.select name _
  | locateInGroup group name =>
    refine ⟨.done, h.perform _ fun _ _ => ?_, rfl⟩
    rw [h.manifest.findJobs_eq (some group) name]
    exact h.select name _
  | addProperty path value =>
    refine ⟨.done, h.perform _ fun hs ht => ?_, rfl⟩
    exact h.edit hs ht (fun path => Value.blind_set path.last path.text hoperation) path true
  | removeProperty path =>
    refine ⟨.done, h.perform _ fun hs ht => ?_, rfl⟩
    exact h.edit hs ht (fun path => (Value.blind_remove path.last path.text).forgetful) path false
  | addVariable v => exact ⟨.done, h.addVariable v, rfl⟩
  | getTyped type path =>
    obtain ⟨hanswer, hstep⟩ := h.getScalar (callOf type) type path
    exact ⟨.scalar hanswer, hstep, rfl⟩
  | getValue path =>
    obtain ⟨hanswer, hstep⟩ := h.getValue path
    exact ⟨.value hanswer, hstep, rfl⟩
  | get type path =>
    obtain ⟨hanswer, hstep⟩ := h.getScalar .get type path
    exact ⟨.scalar hanswer, hstep, rfl⟩
  | forEachSelected f => cases hoperation
  | forEachGroup f => cases hoperation

/-- A chain answers alike on both sides, call by call. -/
theorem run_inStep {operations : List (Operation σ)}
    (hoperations : ∀ operation ∈ operations, operation.Admitted) (h : s.InStep t) (state : σ) :
    List.Forall₂ Answer.Agree (run operations s state).value.1 (run operations t state).value.1 ∧
      (run operations s state).value.2.1.InStep (run operations t state).value.2.1 := by
  -- the state that functions would carry is the same on both sides, since no function is called
  induction operations generalizing s t state with
  | nil => exact ⟨.nil, h⟩
  | cons operation rest ih =>
    obtain ⟨hfirst, hrest⟩ := List.forall_mem_cons.1 hoperations
    obtain ⟨hanswer, hstep, hstate⟩ := apply_inStep hfirst h state
    obtain ⟨hanswers, hend⟩ := ih hrest hstep (operation.apply s state).value.2.2
    have hrun : ∀ s : Selector, (run (operation :: rest) s state).value =
        ((operation.apply s state).value.1 ::
          (run rest (operation.apply s state).value.2.1
            (operation.apply s state).value.2.2).value.1,
        (run rest (operation.apply s state).value.2.1
          (operation.apply s state).value.2.2).value.2) := fun s => rfl
    rw [hrun s, hrun t, ← hstate]
    exact ⟨.cons hanswer hanswers, hend⟩

end Operation

namespace Manifest

/-- A chain of operations cannot tell similar manifests apart.  After each of its calls, both runs
have the same selection, have given answers that agree, have failed alike or not at all, and have
manifests that are similar still. -/
theorem similar_runs_agree {m n : Manifest} (h : m.Similar n) (hm : m.WellFormed)
    (hn : n.WellFormed) (options : SelectorOptions) {σ : Type} {operations : List (Operation σ)}
    (hoperations : ∀ operation ∈ operations, operation.Admitted) (state : σ)
    {done : List (Operation σ)} (hdone : done <+: operations) :
    let first := (Operation.run done (Selector.new m options) state).value
    let second := (Operation.run done (Selector.new n options) state).value
    List.Forall₂ Answer.Agree first.1 second.1 ∧
      first.2.1.positions = second.2.1.positions ∧
      first.2.1.failure.map Failure.bare = second.2.1.failure.map Failure.bare ∧
      first.2.1.manifest.Similar second.2.1.manifest := by
  intro first second
  have hadmitted : ∀ operation ∈ done, operation.Admitted :=
    fun operation hoperation => hoperations operation (hdone.subset hoperation)
  have hstart : (Selector.new m options).InStep (Selector.new n options) := ⟨rfl, rfl, h, hm, hn⟩
  obtain ⟨hanswers, hend⟩ := Operation.run_inStep hadmitted hstart state
  exact ⟨hanswers, hend.positions, hend.failure, hend.manifest⟩

/-- A manifest with one job. -/
def withProperties (properties : Value) : Manifest :=
  (Manifest.new "m").withGroup
    ((InstanceGroup.new "g").withJob { Job.new "a" "r" with properties })

lemma wellFormed_withProperties {properties : Value} (h : properties.WellFormed) :
    (withProperties properties).WellFormed := by
  intro job hjob
  obtain rfl : job = { Job.new "a" "r" with properties } := by
    simpa [withProperties, jobs, Manifest.withGroup, Manifest.new, InstanceGroup.withJob,
      InstanceGroup.new] using hjob
  exact h

/-- Servers as they are read from a text. -/
def readServers : Value :=
  .strMap [("on", .bool true),
    ("servers", .seq [.strMap [("name", .text "x"), ("port", .int 1)]])]

/-- The same servers as they come from edits. -/
def madeServers : Value :=
  .anyMap [(.text "servers", .seq [.anyMap [(.text "port", .int 1), (.text "name", .text "x")]]),
    (.text "on", .bool true)]

/-- Edits and reads of the servers; the last read asks for a wrong type. -/
def serverChain : List (Operation Unit) :=
  [.locate "a", .addProperty "servers/name=x/host/ip" (.text "h"), .removeProperty "on",
    .getTyped .int "servers/name=x/port", .getValue "servers/0", .getTyped .text "servers"]

/-- The chain on a tree that was read and on a similar one that was made. -/
theorem similar_runs_agree_servers :
    (withProperties readServers).Similar (withProperties madeServers) ∧
      (withProperties readServers).WellFormed ∧ (withProperties madeServers).WellFormed ∧
      (∀ operation ∈ serverChain, operation.Admitted) ∧
      let first := (Operation.run serverChain
        (Selector.new (withProperties readServers) .quiet) ()).value
      let second := (Operation.run serverChain
        (Selector.new (withProperties madeServers) .quiet) ()).value
      List.Forall₂ Answer.Agree first.1 second.1 ∧
        first.2.1.positions = second.2.1.positions ∧
        first.2.1.failure.map Failure.bare = second.2.1.failure.map Failure.bare ∧
        first.2.1.manifest.Similar second.2.1.manifest := by
  have hserver : Value.Similar (.strMap [("name", .text "x"), ("port", .int 1)])
      (.anyMap [(.text "port", .int 1), (.text "name", .text "x")]) :=
    .mapping rfl rfl (.swap _ _ _)
      (.cons (.mk (.inl rfl) (.scalar _)) (.cons (.mk (.inl rfl) (.scalar _)) .nil))
  have hservers : readServers.Similar madeServers :=
    .mapping rfl rfl (.swap _ _ _)
      (.cons (.mk (.inl rfl) (.scalar _))
        (.cons (.mk (.inl rfl) (.seq (.cons hserver .nil))) .nil))
  have h : (withProperties readServers).Similar (withProperties madeServers) :=
    ⟨rfl, .cons ⟨rfl, rfl, .cons ⟨rfl, rfl, hservers, rfl⟩ .nil, rfl⟩ .nil, rfl, rfl⟩
  have hread := wellFormed_withProperties (by decide +kernel : readServers.WellFormed)
  have hmade := wellFormed_withProperties (by decide +kernel : madeServers.WellFormed)
  have hchain : ∀ operation ∈ serverChain, operation.Admitted := by
    simp [serverChain, Operation.Admitted, Value.WellFormed.scalar]
  exact ⟨h, hread, hmade, hchain,
    similar_runs_agree h hread hmade .quiet hchain () List.prefix_rfl⟩

end Manifest

end PropertyTree
