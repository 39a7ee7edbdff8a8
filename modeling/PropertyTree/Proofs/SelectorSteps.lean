import PropertyTree.Proofs.PathTexts
import PropertyTree.Selector.Operation

/-!
# The steps of a selector

Equations for the operations of a selector, one for each way an operation can go.  Later modules
reason with these and leave the operations folded: a failure is recorded once (`fail_value`), a
selector without a failure performs what it is told (`perform_of_none`), an edit is empty-handed
without a path or a selection and is one loop over the selection otherwise (`edit_selected`).
-/

namespace PropertyTree

/-- The search for the jobs of a name, in the groups of a name if there is one. -/
def Operation.search {σ : Type} (group? : Option String) (name : String) : Operation σ :=
  match group? with
  | none => .locate name
  | some group => .locateInGroup group name

namespace Selector

variable {s : Selector}

/-! ## Failing and skipping -/

@[simp] lemma positions_fail (s : Selector) (failure : Failure) :
    (s.fail failure).value.positions = s.positions := by
  unfold fail
  split <;> rfl

lemma manifest_fail (s : Selector) (failure : Failure) :
    (s.fail failure).value.manifest = s.manifest := by
  unfold fail
  split <;> rfl

/-- The first failure is recorded. -/
lemma fail_value (h : s.failure = none) (failure : Failure) :
    (s.fail failure).value = { s with failure := some failure } := by
  rw [fail, h]

lemma perform_of_none (h : s.failure = none) (call : Call)
    (operation : Selector → Logged Selector) : s.perform call operation = operation s := by
  rw [perform, h]

lemma perform_value (s : Selector) (call : Call) (operation : Selector → Logged Selector) :
    (s.perform call operation).value = s ∨
      (s.perform call operation).value = (operation s).value := by
  unfold perform
  split
  · exact .inl rfl
  · exact .inr rfl

/-! ## Searching -/

lemma manifest_select (s : Selector) (name : String) (positions : List Position) :
    (s.select name positions).value.manifest = s.manifest := by
  unfold select
  split
  · rw [manifest_fail]
  · rfl

/-- Positions become the selection, and it is a failure if there are none. -/
lemma select_value (h : s.failure = none) (name : String) (positions : List Position) :
    (s.select name positions).value =
      { s with
        positions
        failure := if positions.isEmpty then some (.entityNotFound name) else none } := by
  unfold select
  split
  · exact fail_value (by exact h) _
  · simp only [← h]

lemma search_value {σ : Type} (h : s.failure = none) (group? : Option String) (name : String)
    (state : σ) :
    ((Operation.search group? name).apply s state).value.2.1 =
      (s.select name (s.manifest.findJobs group? name)).value := by
  cases group? with
  | none => exact congrArg Logged.value (perform_of_none h _ _)
  | some group => exact congrArg Logged.value (perform_of_none h _ _)

/-! ## Editing -/

section Edit

variable {pathText : String} {vivify : Bool} {act : Path → Action Unit}

lemma edit_pathless (h : s.failure = none) :
    (s.edit "" vivify act).value = { s with failure := some .emptyPath } := by
  rw [edit, Path.ofText?_empty]
  exact fail_value h _

lemma edit_unselected {path : Path} (h : s.failure = none)
    (hpath : Path.ofText? pathText = some path) (hs : s.positions = []) :
    (s.edit pathText vivify act).value = { s with failure := some .nothingSelected } := by
  simp only [edit, hpath, hs, List.isEmpty_nil, if_true, fail_value h]

/-- With a path and a selection, an edit is one loop over the selected jobs. -/
lemma edit_selected {path : Path} (h : s.failure = none) (hpath : Path.ofText? pathText = some path)
    (hs : s.positions ≠ []) :
    let edited := Manifest.editJobs path vivify (act path) s.positions s.manifest
    (s.edit pathText vivify act).value =
      { s with manifest := edited.value.2, failure := edited.value.1 } := by
  have hselected : s.positions.isEmpty = false := by simpa using hs
  simp only [edit, hpath, hselected, Bool.false_eq_true, if_false]
  split
  case h_1 hnone => simp [hnone, h]
  case h_2 failure hsome => rw [hsome, fail_value (by exact h)]

/-- With one selected job that is there, an edit is the operation on that job. -/
lemma edit_single {path : Path} {p : Position} {job : Job} (h : s.failure = none)
    (hpath : Path.ofText? pathText = some path) (hs : s.positions = [p])
    (hjob : s.manifest.job? p = some job) :
    let visit := job.properties.visit path vivify (act path)
    (s.edit pathText vivify act).value =
      { s with
        manifest := s.manifest.setJob p { job with properties := visit.node }
        failure := match visit.outcome with
          | .ok _ => none
          | .error failure => some failure } := by
  intro visit
  rw [edit_selected h hpath (by simp [hs]), hs]
  cases hvisit : visit.outcome <;> simp [Manifest.editJobs, hjob, visit, hvisit, Logged.quiet]

end Edit

/-! ## Declaring -/

lemma addVariable_of_taken {v : Variable} (h : s.failure = none)
    (hv : ∃ w ∈ s.manifest.variables, w.name = v.name) :
    (s.addVariable v).value = { s with failure := some (.duplicateVariable v.name) } := by
  have hnamed : (s.manifest.variableNamed? v.name).isSome = true := by
    simpa [Manifest.variableNamed?] using hv
  rw [addVariable, perform_of_none h]
  simp [Manifest.addVariable, hnamed, Logged.quiet, fail_value h]

lemma addVariable_of_new {v : Variable} (h : s.failure = none)
    (hv : ∀ w ∈ s.manifest.variables, w.name ≠ v.name) :
    (s.addVariable v).value =
      { s with manifest := { s.manifest with «variables» := s.manifest.variables ++ [v] } } := by
  have hnamed : ¬ (s.manifest.variableNamed? v.name).isSome = true := by
    simpa [Manifest.variableNamed?] using hv
  rw [addVariable, perform_of_none h]
  simp [Manifest.addVariable, hnamed]

/-! ## Reading -/

/-- With one selected job that is there, a read is the walk over its properties. -/
lemma read_single {α : Type} {pathText : String} {path : Path} {p : Position} {job : Job}
    (h : s.failure = none) (hpath : Path.ofText? pathText = some path) (hs : s.positions = [p])
    (hjob : s.manifest.job? p = some job) (call : Call)
    (extract : Path → Value → Except Failure α) :
    (s.read call pathText extract).value.1 =
      (job.properties.visit path false fun container =>
        (extract path container, container)).outcome := by
  have hread : (s.readJob call pathText extract).value.1 =
      (job.properties.visit path false fun container =>
        (extract path container, container)).outcome := by
    simp [readJob, hs, hpath, hjob]
  rw [read, h, ← hread]
  simp only
  split
  case h_1 answer s' hanswer => rw [hanswer]
  case h_2 failure s' hfailure => rw [hfailure]

end Selector

end PropertyTree
