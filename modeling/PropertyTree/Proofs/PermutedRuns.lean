import PropertyTree.Manifest.Text
import PropertyTree.Proofs.PermutedManifests
import PropertyTree.Proofs.SelectorSteps

/-!
# Runs on permuted manifests

A chain of operations never shows in which order the fields of its trees come.  Doing a call on what
insertion makes of a selector comes to what insertion makes of the call (`Operation.apply_built`),
with the same events and the same failure, and by induction this holds of a chain
(`Operation.run_built`).

Two runs that differ in the order of fields only, in the manifest or in what they store, are one run
after insertion.  So they show the same (`Operation.run_permuted`).

## Main statement

* `Value.iteration_order_hidden`: texts, documents and runs do not depend on the order of iteration.
-/

namespace PropertyTree

/-! ## Calls on a selector -/

namespace Selector

/-- The selector with the trees that insertion makes. -/
def built (s : Selector) : Selector := { s with manifest := s.manifest.built }

variable {s : Selector} {call : Call} {α β : Type} {g : α → β}

@[simp] lemma manifest_built (s : Selector) : s.built.manifest = s.manifest.built := rfl

@[simp] lemma positions_built (s : Selector) : s.built.positions = s.positions := rfl

@[simp] lemma failure_built (s : Selector) : s.built.failure = s.failure := rfl

@[simp] lemma options_built (s : Selector) : s.built.options = s.options := rfl

lemma fail_built (s : Selector) (failure : Failure) :
    s.built.fail failure = (s.fail failure).map built := by
  rw [fail, fail, failure_built]
  cases s.failure <;> rfl

/-- Failing after going on with another manifest. -/
lemma fail_withManifest_built (s : Selector) (manifest : Manifest) (failure : Failure) :
    { s with manifest := manifest.built }.fail failure =
      ({ s with manifest }.fail failure).map built :=
  fail_built { s with manifest } failure

lemma perform_built {operation operation' : Selector → Logged Selector}
    (hs : s.manifest.DistinctKeys)
    (hoperation : operation' s.built = (operation s).map built ∧
      (operation s).value.manifest.DistinctKeys) :
    s.built.perform call operation' = (s.perform call operation).map built ∧
      (s.perform call operation).value.manifest.DistinctKeys := by
  rw [perform, perform, failure_built]
  cases s.failure with
  | some failure => exact ⟨rfl, hs⟩
  | none => exact hoperation

lemma select_built (hs : s.manifest.DistinctKeys) (name : String) (positions : List Position) :
    s.built.select name positions = (s.select name positions).map built ∧
      (s.select name positions).value.manifest.DistinctKeys := by
  refine ⟨?_, by rw [manifest_select]; exact hs⟩
  unfold select
  split
  case isTrue => exact fail_built { s with positions } (.entityNotFound name)
  case isFalse => rfl

lemma edit_built {act act' : Path → Action Unit} (hs : s.manifest.DistinctKeys)
    (hact : ∀ path, Value.OrderBlind id (act path) (act' path)) (pathText : String)
    (vivify : Bool) :
    s.built.edit pathText vivify act' = (s.edit pathText vivify act).map built ∧
      (s.edit pathText vivify act).value.manifest.DistinctKeys := by
  unfold edit
  cases Path.ofText? pathText with
  | none => exact ⟨fail_built s .emptyPath, by rw [manifest_fail]; exact hs⟩
  | some path =>
    by_cases hselected : s.positions.isEmpty = true
    case pos =>
      simp only [positions_built, hselected, if_true]
      exact ⟨fail_built s .nothingSelected, by rw [manifest_fail]; exact hs⟩
    case neg =>
      obtain ⟨hedited, hkeys⟩ := Manifest.editJobs_built (hact path) path vivify s.positions hs
      simp only [positions_built, manifest_built, failure_built, options_built, hselected, hedited,
        Logged.map, Bool.false_eq_true, if_false]
      cases (Manifest.editJobs path vivify (act path) s.positions s.manifest).value.1 with
      | none => exact ⟨rfl, hkeys⟩
      | some failure =>
        simp only [fail_withManifest_built, manifest_fail]
        exact ⟨rfl, hkeys⟩

lemma addProperty_built {value : Value} (hs : s.manifest.DistinctKeys) (path : String)
    (hvalue : value.DistinctKeys) :
    s.built.addProperty path value.built = (s.addProperty path value).map built ∧
      (s.addProperty path value).value.manifest.DistinctKeys :=
  perform_built hs
    (edit_built hs (fun path => Value.orderBlind_set path.last path.text hvalue) path true)

lemma removeProperty_built (hs : s.manifest.DistinctKeys) (path : String) :
    s.built.removeProperty path = (s.removeProperty path).map built ∧
      (s.removeProperty path).value.manifest.DistinctKeys :=
  perform_built hs
    (edit_built hs (fun path => Value.orderBlind_remove path.last path.text) path false)

/-- A search selects the same positions. -/
lemma search_built (hs : s.manifest.DistinctKeys) (group? : Option String) (name : String) :
    s.built.select name (s.built.manifest.findJobs group? name) =
        (s.select name (s.manifest.findJobs group? name)).map built ∧
      (s.select name (s.manifest.findJobs group? name)).value.manifest.DistinctKeys := by
  rw [manifest_built, Manifest.findJobs_built]
  exact select_built hs name _

lemma locate_built (hs : s.manifest.DistinctKeys) (name : String) :
    s.built.locate name = (s.locate name).map built ∧
      (s.locate name).value.manifest.DistinctKeys :=
  perform_built hs (search_built hs none name)

lemma locateInGroup_built (hs : s.manifest.DistinctKeys) (group name : String) :
    s.built.locateInGroup group name = (s.locateInGroup group name).map built ∧
      (s.locateInGroup group name).value.manifest.DistinctKeys :=
  perform_built hs (search_built hs (some group) name)

lemma addVariable_built {v : Variable} (hs : s.manifest.DistinctKeys)
    (hv : v.options.DistinctKeys) :
    s.built.addVariable v.built = (s.addVariable v).map built ∧
      (s.addVariable v).value.manifest.DistinctKeys := by
  refine perform_built hs ?_
  have hnamed : (s.manifest.built.variableNamed? v.built.name).isSome =
      (s.manifest.variableNamed? v.name).isSome := by
    simp [Manifest.variableNamed?, Manifest.built, Variable.built, List.find?_map,
      Function.comp_def]
  by_cases hfound : (s.manifest.variableNamed? v.name).isSome = true
  case pos =>
    have hfail := fail_built s (.duplicateVariable v.name)
    simp only [Manifest.addVariable, manifest_built, hnamed, hfound, if_true, Logged.quiet]
    simp only [Variable.built, hfail, manifest_fail]
    exact ⟨rfl, hs⟩
  case neg =>
    have hdeclared : s.manifest.built.variables ++ [v.built] =
        (s.manifest.variables ++ [v]).map Variable.built := by
      rw [List.map_append]
      rfl
    simp only [Manifest.addVariable, manifest_built, hnamed, hfound, Bool.false_eq_true, if_false,
      hdeclared]
    refine ⟨rfl, hs.groups, fun w hw => ?_⟩
    rcases List.mem_append.1 hw with hw | hw
    · exact hs.options w hw
    · rwa [List.mem_singleton.1 hw]

/-! ## Reading -/

section Reading

variable {extract : Path → Value → Except Failure α} {extract' : Path → Value → Except Failure β}

lemma readJob_built (hs : s.manifest.DistinctKeys)
    (hextract : ∀ path c, c.DistinctKeys → extract' path c.built = (extract path c).map g)
    (call : Call) (pathText : String) :
    s.built.readJob call pathText extract' =
        (s.readJob call pathText extract).map (fun read => (read.1.map g, read.2.built)) ∧
      (s.readJob call pathText extract).value.2.manifest.DistinctKeys := by
  unfold readJob
  rw [positions_built]
  match s.positions with
  | [] | _ :: _ :: _ => exact ⟨rfl, hs⟩
  | [p] =>
    cases Path.ofText? pathText with
    | none => exact ⟨rfl, hs⟩
    | some path =>
      cases hjob : s.manifest.job? p with
      | none =>
        simp only [manifest_built, hjob, Manifest.job?_built_of_missing hjob]
        exact ⟨rfl, hs⟩
      | some job =>
        have hread := Value.orderBlind_read (hextract path)
        obtain ⟨hvisit, hkeys⟩ := Value.visit_built hread path false (hs.of_job? hjob)
        have hvisit : (job.built.properties.visit path false fun c => (extract' path c, c)) =
            (job.properties.visit path false fun c => (extract path c, c)).built g := hvisit
        simp only [manifest_built, hjob, Manifest.job?_built_of_found hjob, hvisit, Visit.built,
          Manifest.setJob_properties_built]
        exact ⟨rfl, hs.setProperties hkeys p job⟩

/-- A read gives what insertion makes of the answer, and a failing read is the same failure. -/
theorem read_built (hs : s.manifest.DistinctKeys)
    (hextract : ∀ path c, c.DistinctKeys → extract' path c.built = (extract path c).map g)
    (call : Call) (pathText : String) :
    s.built.read call pathText extract' =
        (s.read call pathText extract).map (fun read => (read.1.map g, read.2.built)) ∧
      (s.read call pathText extract).value.2.manifest.DistinctKeys := by
  rw [read, read, failure_built]
  cases s.failure with
  | some failure => exact ⟨rfl, hs⟩
  | none =>
    obtain ⟨hread, hkeys⟩ := readJob_built hs hextract call pathText
    simp only [hread]
    generalize s.readJob call pathText extract = reading at hkeys
    obtain ⟨⟨outcome, t⟩, events⟩ := reading
    cases outcome with
    | ok answer => exact ⟨rfl, hkeys⟩
    | error failure =>
      simp only [Logged.map, Except.map, fail_built, manifest_fail, true_and]
      exact hkeys

end Reading

lemma getValue_built (hs : s.manifest.DistinctKeys) (path : String) :
    s.built.getValue path =
        (s.getValue path).map (fun read => (read.1.map Value.built, read.2.built)) ∧
      (s.getValue path).value.2.manifest.DistinctKeys :=
  read_built hs (fun path _ hc => Value.lookup_built hc path.last path.text) .getValue path

lemma getScalar_built (hs : s.manifest.DistinctKeys) (call : Call) (type : PropertyType)
    (path : String) :
    s.built.getScalar call type path =
        (s.getScalar call type path).map (fun read => (read.1, read.2.built)) ∧
      (s.getScalar call type path).value.2.manifest.DistinctKeys := by
  have hextract : ∀ (path : Path) (c : Value), c.DistinctKeys →
      c.built.getScalar type path.last path.text =
        (c.getScalar type path.last path.text).map id := by
    intro path c hc
    rw [Value.getScalar_built type hc, Except.map_id, id]
  have hread : s.built.getScalar call type path =
      (s.getScalar call type path).map (fun read => (read.1.map id, read.2.built)) ∧
        (s.getScalar call type path).value.2.manifest.DistinctKeys :=
    read_built hs hextract call path
  rwa [Except.map_id] at hread

/-! ## Functions -/

section Functions

variable {σ : Type}

lemma forEachSelected_built {f : Job → σ → Job × σ} (hf : Job.orders.Blind f)
    (hs : s.manifest.DistinctKeys) (state : σ) :
    s.built.forEachSelected (Job.orders.builtFunction f) state =
        (s.forEachSelected f state).map (fun result => (result.1.built, result.2)) ∧
      (s.forEachSelected f state).value.1.manifest.DistinctKeys := by
  rw [forEachSelected, forEachSelected, failure_built]
  cases s.failure with
  | some failure => exact ⟨rfl, hs⟩
  | none =>
    obtain ⟨hvisited, hkeys⟩ := Manifest.visitJobs_built hf s.positions hs state
    simp only [positions_built, manifest_built, hvisited]
    exact ⟨rfl, hkeys⟩

lemma forEachGroup_built {f : InstanceGroup → σ → InstanceGroup × σ}
    (hf : InstanceGroup.orders.Blind f) (hs : s.manifest.DistinctKeys) (state : σ) :
    s.built.forEachGroup (InstanceGroup.orders.builtFunction f) state =
        (s.forEachGroup f state).map (fun result => (result.1.built, result.2)) ∧
      (s.forEachGroup f state).value.1.manifest.DistinctKeys := by
  rw [forEachGroup, forEachGroup, failure_built]
  cases s.failure with
  | some failure => exact ⟨rfl, hs⟩
  | none =>
    obtain ⟨hvisited, hkeys⟩ := Manifest.visitGroups_built hf hs.groups state
    have hgroups : s.built.manifest.groups = s.manifest.groups.map InstanceGroup.built := rfl
    simp only [hgroups, hvisited]
    exact ⟨rfl, hkeys, hs.options⟩

end Functions

end Selector

/-! ## Chains -/

/-- The answer that insertion makes. -/
def Answer.built : Answer → Answer
  | done => done
  | scalar outcome => scalar outcome
  | value outcome => value (outcome.map Value.built)

namespace Operation

variable {σ : Type} {s : Selector}

/-- The operation with the trees that insertion makes. -/
def built : Operation σ → Operation σ
  | locate name => locate name
  | locateInGroup group name => locateInGroup group name
  | addProperty path value => addProperty path value.built
  | removeProperty path => removeProperty path
  | addVariable v => addVariable v.built
  | getTyped type path => getTyped type path
  | getValue path => getValue path
  | get type path => get type path
  | forEachSelected f => forEachSelected (Job.orders.builtFunction f)
  | forEachGroup f => forEachGroup (InstanceGroup.orders.builtFunction f)

/-- The keys in the trees of an operation are distinct, and the order of fields is hidden from its
function. -/
def OrderBlind : Operation σ → Prop
  | addProperty _ value => value.DistinctKeys
  | addVariable v => v.options.DistinctKeys
  | forEachSelected f => Job.orders.Blind f
  | forEachGroup f => InstanceGroup.orders.Blind f
  | locate _ | locateInGroup .. | removeProperty _ | getTyped .. | getValue _ | get .. => True

/-- The result that insertion makes. -/
def settled (result : Answer × Selector × σ) : Answer × Selector × σ :=
  (result.1.built, result.2.1.built, result.2.2)

/-- A call without an answer, as an operation. -/
lemma settled_call {call call' : Logged Selector}
    (h : call' = call.map Selector.built ∧ call.value.manifest.DistinctKeys) (state : σ) :
    call'.map (Answer.done, ·, state) = (call.map (Answer.done, ·, state)).map settled ∧
      call.value.manifest.DistinctKeys := by
  rw [h.1]
  exact ⟨rfl, h.2⟩

/-- A call that reads a scalar, as an operation. -/
lemma settled_scalar {call call' : Logged (Except Failure Scalar × Selector)}
    (h : call' = call.map (fun read => (read.1, read.2.built)) ∧
      call.value.2.manifest.DistinctKeys) (state : σ) :
    call'.map (fun (outcome, s) => (Answer.scalar outcome, s, state)) =
        (call.map fun (outcome, s) => (Answer.scalar outcome, s, state)).map settled ∧
      call.value.2.manifest.DistinctKeys := by
  rw [h.1]
  exact ⟨rfl, h.2⟩

/-- A call with a function, as an operation. -/
lemma settled_function {call call' : Logged (Selector × σ)}
    (h : call' = call.map (fun result => (result.1.built, result.2)) ∧
      call.value.1.manifest.DistinctKeys) :
    call'.map (Answer.done, ·) = (call.map (Answer.done, ·)).map settled ∧
      call.value.1.manifest.DistinctKeys := by
  rw [h.1]
  exact ⟨rfl, h.2⟩

/-- One operation on what insertion makes comes to what insertion makes of the operation. -/
theorem apply_built {operation : Operation σ} (h : operation.OrderBlind)
    (hs : s.manifest.DistinctKeys) (state : σ) :
    operation.built.apply s.built state = (operation.apply s state).map settled ∧
      (operation.apply s state).value.2.1.manifest.DistinctKeys := by
  cases operation with
  | locate name => exact settled_call (Selector.locate_built hs name) state
  | locateInGroup group name =>
    exact settled_call (Selector.locateInGroup_built hs group name) state
  | addProperty path value => exact settled_call (Selector.addProperty_built hs path h) state
  | removeProperty path => exact settled_call (Selector.removeProperty_built hs path) state
  | addVariable v => exact settled_call (Selector.addVariable_built hs h) state
  | getTyped type path =>
    exact settled_scalar (Selector.getScalar_built hs (callOf type) type path) state
  | getValue path =>
    obtain ⟨hcall, hkeys⟩ := Selector.getValue_built hs path
    rw [built, apply, apply, hcall]
    exact ⟨rfl, hkeys⟩
  | get type path => exact settled_scalar (Selector.getScalar_built hs .get type path) state
  | forEachSelected f => exact settled_function (Selector.forEachSelected_built h hs state)
  | forEachGroup f => exact settled_function (Selector.forEachGroup_built h hs state)

/-- The result of a chain that insertion makes. -/
def settledRun (result : List Answer × Selector × σ) : List Answer × Selector × σ :=
  (result.1.map Answer.built, result.2.1.built, result.2.2)

/-- A chain on what insertion makes comes to what insertion makes of the chain.  The events are the
same. -/
theorem run_built {operations : List (Operation σ)}
    (h : ∀ operation ∈ operations, operation.OrderBlind) (hs : s.manifest.DistinctKeys)
    (state : σ) :
    run (operations.map built) s.built state = (run operations s state).map settledRun := by
  induction operations generalizing s state with
  | nil => rfl
  | cons operation rest ih =>
    obtain ⟨hfirst, hrest⟩ := List.forall_mem_cons.1 h
    obtain ⟨hcall, hkeys⟩ := apply_built hfirst hs state
    rw [List.map_cons, run, run, hcall]
    simp only [Logged.andThen, Logged.map, settled, ih hrest hkeys]
    rfl

/-- Operations that differ in the order of fields only.  Functions are interchangeable. -/
inductive Permuted : Operation σ → Operation σ → Prop
  | locate (name : String) : Permuted (locate name) (locate name)
  | locateInGroup (group name : String) :
      Permuted (locateInGroup group name) (locateInGroup group name)
  | addProperty (path : String) {v w : Value} (distinct : v.DistinctKeys) (order : v.Permuted w) :
      Permuted (addProperty path v) (addProperty path w)
  | removeProperty (path : String) : Permuted (removeProperty path) (removeProperty path)
  | addVariable {v w : Variable} (distinct : v.options.DistinctKeys) (order : v.Permuted w) :
      Permuted (addVariable v) (addVariable w)
  | getTyped (type : PropertyType) (path : String) :
      Permuted (getTyped type path) (getTyped type path)
  | getValue (path : String) : Permuted (getValue path) (getValue path)
  | get (type : PropertyType) (path : String) : Permuted (get type path) (get type path)
  | forEachSelected {f g : Job → σ → Job × σ} (functions : Job.orders.Interchangeable f g) :
      Permuted (forEachSelected f) (forEachSelected g)
  | forEachGroup {f g : InstanceGroup → σ → InstanceGroup × σ}
      (functions : InstanceGroup.orders.Interchangeable f g) :
      Permuted (forEachGroup f) (forEachGroup g)

lemma Permuted.orderBlind {first second : Operation σ} (h : first.Permuted second) :
    first.OrderBlind ∧ second.OrderBlind := by
  cases h with
  | locate | locateInGroup | removeProperty | getTyped | getValue | get =>
    exact ⟨trivial, trivial⟩
  | addProperty path distinct order => exact ⟨distinct, Value.Permuted.distinctKeys distinct order⟩
  | addVariable distinct order =>
    exact ⟨distinct, Value.Permuted.distinctKeys distinct order.options⟩
  | forEachSelected functions => exact ⟨functions.left, functions.right⟩
  | forEachGroup functions => exact ⟨functions.left, functions.right⟩

lemma Permuted.built_eq {first second : Operation σ} (h : first.Permuted second) :
    first.built = second.built := by
  cases h with
  | locate | locateInGroup | removeProperty | getTyped | getValue | get => rfl
  | addProperty path distinct order => rw [built, built, Value.Permuted.built_eq distinct order]
  | addVariable distinct order => rw [built, built, order.built_eq distinct]
  | forEachSelected functions => rw [built, built, functions.builtFunction_eq]
  | forEachGroup functions => rw [built, built, functions.builtFunction_eq]

/-- Two runs that differ in the order of fields only come to the same, the order of fields aside. -/
theorem run_permuted {first second : List (Operation σ)}
    (hoperations : List.Forall₂ Permuted first second) {m n : Manifest} (hm : m.DistinctKeys)
    (hn : m.Permuted n) (options : SelectorOptions) (state : σ) :
    (run first (Selector.new m options) state).map settledRun =
      (run second (Selector.new n options) state).map settledRun := by
  have hfirst : ∀ operation ∈ first, operation.OrderBlind :=
    forall_mem_of_forall₂ hoperations.flip fun _ _ _ order => order.orderBlind.1
  have hsecond : ∀ operation ∈ second, operation.OrderBlind :=
    forall_mem_of_forall₂ hoperations fun _ _ _ order => order.orderBlind.2
  have hbuilt : first.map built = second.map built :=
    map_eq_map_of_forall₂ hoperations fun _ _ _ order => order.built_eq
  have hstart : (Selector.new m options).built = (Selector.new n options).built := by
    rw [Selector.built, Selector.built, Selector.new, Selector.new, hn.built_eq hm]
  rw [← run_built (s := Selector.new m options) hfirst hm state,
    ← run_built (s := Selector.new n options) hsecond (hn.distinctKeys hm) state, hbuilt, hstart]

end Operation

/-! ## Main statement -/

namespace Value

/-- What a run of operations on a manifest shows: the lines that it logs, the message of its
failure, if it fails, and the documents that the manifest is saved as. -/
def shown {σ : Type} (operations : List (Operation σ)) (manifest : Manifest)
    (options : SelectorOptions) (state : σ) :
    List String × Option String × String × Except Json.WriteError String :=
  let run := Operation.run operations (Selector.new manifest options) state
  let final := run.value.2.1
  (run.events.map Event.message, final.failure.map Failure.message,
    final.manifest.toYaml, final.manifest.toJson)

/-- What is shown of a run does not show the order of fields. -/
lemma shown_permuted {σ : Type} {first second : List (Operation σ)}
    (hoperations : List.Forall₂ Operation.Permuted first second) {m n : Manifest}
    (hm : m.DistinctKeys) (hn : m.Permuted n) (options : SelectorOptions) (state : σ) :
    shown first m options state = shown second n options state := by
  have hrun := Operation.run_permuted hoperations hm hn options state
  have hevents := congrArg Logged.events hrun
  have hfinal := congrArg (fun run => run.value.2.1) hrun
  have hfailure := congrArg Selector.failure hfinal
  have hdocument := congrArg (fun s : Selector => s.manifest.toDocument) hfinal
  simp only [Logged.map, Operation.settledRun, Selector.failure_built, Selector.manifest_built,
    Manifest.toDocument_built] at hevents hfailure hdocument
  simp only [shown, Manifest.toYaml, Manifest.toJson, hevents, hfailure, hdocument]

/-- Two trees of hash tables that differ only in the orders of iteration, at any depth, have the
same text and are handed to a writer by the same calls, which are the text and the calls that this
library makes.  In the text and in the calls of every mapping each field has its place, and the keys
increase strictly by their bytes.  Inserting the fields of the two trees makes one tree.  Runs that
differ in these orders only, in the manifest that they start from, in the trees that they are given
and in what their functions make, log the same lines, fail with the same message and save the same
documents. -/
theorem iteration_order_hidden {a b : Value} (distinct : a.DistinctKeys) (order : a.Permuted b) :
    (a.sortedDisplay = b.sortedDisplay ∧ a.sortedCalls = b.sortedCalls) ∧
    (b.sortedDisplay = a.display ∧ b.sortedCalls = a.toDocument.calls) ∧
    (∀ fields : List (String × Value), (fields.map Prod.fst).Nodup →
      ∃ sorted : List (String × Value), sorted.Perm fields ∧
        (sorted.map fun f => utf8Bytes f.1).Pairwise (· < ·) ∧
        (strMap fields).sortedDisplay =
          bracket "\x7b" "\x7d" (sorted.map fun f => f.1 ++ ": " ++ f.2.sortedDisplay) ∧
        (strMap fields).sortedCalls = .openMap fields.length ::
          sorted.flatMap (fun f => .entry :: .atom (.text f.1) :: f.2.sortedCalls) ++ [.close]) ∧
    (a.built = b.built ∧ (a.WellFormed → a.built = a)) ∧
    ∀ {σ : Type} {first second : List (Operation σ)} {m n : Manifest},
      List.Forall₂ Operation.Permuted first second → m.DistinctKeys → m.Permuted n →
      ∀ (options : SelectorOptions) (state : σ),
        shown first m options state = shown second n options state := by
  have hbuilt : b.built = a.built := (Permuted.built_eq distinct order).symm
  have hdisplay : b.sortedDisplay = a.display := by
    rw [sortedDisplay_eq (Permuted.distinctKeys distinct order), ← display_built, hbuilt,
      display_built]
  have hcalls : b.sortedCalls = a.toDocument.calls := by
    rw [sortedCalls_eq (Permuted.distinctKeys distinct order), ← toDocument_built, hbuilt,
      toDocument_built]
  refine ⟨⟨?_, ?_⟩, ⟨hdisplay, hcalls⟩, exists_sorted, ⟨hbuilt.symm, WellFormed.built_eq⟩, ?_⟩
  · rw [sortedDisplay_eq distinct, hdisplay]
  · rw [sortedCalls_eq distinct, hcalls]
  · intro σ first second m n hoperations hm hn options state
    exact shown_permuted hoperations hm hn options state

/-- A mapping with one entry, whose key is a mapping as well.  In UTF-16 the two keys of its value
would stand the other way round. -/
def oneOrder : Value :=
  anyMap [(strMap [("a", bool true), ("b", null)], strMap [("ｚ", text "x"), ("𝑧", null)])]

/-- The same mapping, with the fields of the key and those of the value in another order. -/
def otherOrder : Value :=
  anyMap [(strMap [("b", null), ("a", bool true)], strMap [("𝑧", null), ("ｚ", text "x")])]

lemma wellFormed_oneOrder : oneOrder.WellFormed := by
  decide +kernel

lemma permuted_oneOrder : oneOrder.Permuted otherOrder := by
  have hswap : ∀ (s t : String) (x y : Scalar),
      Permuted (strMap [(s, scalar x), (t, scalar y)]) (strMap [(t, scalar y), (s, scalar x)]) :=
    fun s t x y => .strMap rfl (.cons (.scalar x) (.cons (.scalar y) .nil)) (.swap ..)
  exact .anyMap (.cons (hswap ..) .nil) (.cons (hswap ..) .nil)

/-- Properties with a tree among them. -/
def oneProperties : Value := strMap [("at", null), ("on", oneOrder)]

/-- The same properties in another order. -/
def otherProperties : Value := strMap [("on", otherOrder), ("at", null)]

lemma permuted_oneProperties : oneProperties.Permuted otherProperties := by
  refine .strMap ?_ ?_ (.swap ("on", otherOrder) ("at", null) [])
  · rfl
  · exact .cons (.scalar _) (.cons permuted_oneOrder .nil)

/-- A manifest with one job. -/
def hosting (properties : Value) : Manifest :=
  (Manifest.new "m").withGroup
    ((InstanceGroup.new "g").withJob { Job.new "a" "r" with properties })

lemma distinctKeys_hosting {properties : Value} (h : properties.DistinctKeys) :
    (hosting properties).DistinctKeys where
  groups := List.forall_mem_singleton.2 (List.forall_mem_singleton.2 h)
  options := List.forall_mem_nil _

lemma permuted_hosting {a b : Value} (h : a.Permuted b) : (hosting a).Permuted (hosting b) :=
  ⟨rfl, .cons ⟨rfl, rfl, .cons ⟨rfl, rfl, h, rfl⟩ .nil, rfl⟩ .nil, .nil, rfl⟩

/-- Stores a tree, has a function look at the text of all properties, and asks for the tree as an
integer. -/
def showing (tree : Value) : List (Operation Nat) :=
  [.locate "a", .addProperty "kept" tree,
    .forEachSelected fun job count => ({ job with release := job.properties.display }, count + 1),
    .getTyped .int "kept"]

lemma permuted_showing {a b : Value} (distinct : a.DistinctKeys) (order : a.Permuted b) :
    List.Forall₂ Operation.Permuted (showing a) (showing b) := by
  have hfunctions : Job.orders.Interchangeable
      (fun job count => ({ job with release := job.properties.display }, count + 1))
      (fun job count => ({ job with release := job.properties.display }, (count : Nat) + 1)) := by
    intro job job' count hkeys horder
    have hshown : job.properties.display = job'.properties.display := by
      rw [← display_built, Permuted.built_eq hkeys horder.properties, display_built]
    exact ⟨hkeys, ⟨horder.name, hshown, horder.properties, horder.extra⟩, rfl⟩
  exact .cons (.locate "a") (.cons (.addProperty "kept" distinct order)
    (.cons (.forEachSelected hfunctions) (.cons (.getTyped .int "kept") .nil)))

/-- Two runs on two orders of the properties.  The failing read shows the tree, sorted. -/
theorem iteration_order_hidden_in_keys :
    oneOrder.DistinctKeys ∧ oneOrder.Permuted otherOrder ∧
      otherOrder.sortedDisplay = "\x7b\x7ba: true, b: null\x7d: \x7bｚ: x, 𝑧: null\x7d\x7d" ∧
      oneOrder.sortedCalls = otherOrder.sortedCalls ∧
      (hosting oneProperties).DistinctKeys ∧
      (hosting oneProperties).Permuted (hosting otherProperties) ∧
      List.Forall₂ Operation.Permuted (showing oneOrder) (showing otherOrder) ∧
      shown (showing oneOrder) (hosting oneProperties) .quiet 0 =
        shown (showing otherOrder) (hosting otherProperties) .quiet 0 ∧
      (shown (showing otherOrder) (hosting otherProperties) .quiet 0).2.1 =
        some ("expected a int at `kept`, found " ++
          "`\x7b\x7ba: true, b: null\x7d: \x7bｚ: x, 𝑧: null\x7d\x7d` of type `map[any]`") := by
  have distinct := wellFormed_oneOrder.distinctKeys
  have hproperties : oneProperties.DistinctKeys := by
    refine .strMap (by decide) (List.forall_mem_cons.2 ⟨.scalar _, ?_⟩)
    exact List.forall_mem_singleton.2 distinct
  have hmanifest := distinctKeys_hosting hproperties
  have hmanifests := permuted_hosting permuted_oneProperties
  have hoperations := permuted_showing distinct permuted_oneOrder
  obtain ⟨⟨-, hcalls⟩, ⟨hwritten, -⟩, -, -, hruns⟩ :=
    iteration_order_hidden distinct permuted_oneOrder
  refine ⟨distinct, permuted_oneOrder, ?_, hcalls, hmanifest, hmanifests, hoperations,
    hruns hoperations hmanifest hmanifests .quiet 0, ?_⟩
  · rw [hwritten]
    decide +kernel
  · decide +kernel

end Value

end PropertyTree
