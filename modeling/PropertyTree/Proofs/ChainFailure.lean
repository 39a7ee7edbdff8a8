import PropertyTree.Proofs.FanOut

/-!
# The failure of a chain

A chain of operations has one failure, that of its first operation that failed.  To say this, one
has to say of an operation on its own when it fails and why, without the failure that a selector
keeps: `Operation.refusal` reads it off the manifest and the selected positions.

A step then keeps the books: on a selector without a failure an operation records its refusal, if it
has one (`failure_apply`), and on a selector with a failure it does nothing and answers with that
failure (`apply_of_failure`).  By induction on the chain, everything after the first refusal is as
if it had not been called (`run_stops_at_first_failure`).

Operations that only read hand the tree back to where they took it, and a walk that makes nothing
leaves it as it was, so they change neither the manifest nor the selection (`apply_of_isRead`).
-/

namespace PropertyTree

variable {α σ : Type}

/-- The failure of an outcome, if it is one. -/
def Failure.ofOutcome? : Except Failure α → Option Failure
  | .ok _ => none
  | .error failure => some failure

namespace Manifest

/-! ## Refusals -/

/-- Why an edit of the jobs at some positions cannot be carried out: there is no path, nothing is
selected, or some job refuses, of which the first counts. -/
def editRefusal (manifest : Manifest) (positions : List Position) (pathText : String)
    (refusal : Path → Value → Option Failure) : Option Failure :=
  match Path.ofText? pathText with
  | none => some .emptyPath
  | some path =>
    if positions.isEmpty then some .nothingSelected
    else (manifest.jobsAt positions).findSome? fun e => refusal path e.2.properties

/-- Why a read of the job at some positions cannot be carried out: there is not exactly one
position, there is no path, the position designates no job, or the job refuses. -/
def readRefusal (manifest : Manifest) (positions : List Position) (call : Call) (pathText : String)
    (refusal : Path → Value → Option Failure) : Option Failure :=
  match positions with
  | [] => some .nothingSelected
  | [p] =>
    match Path.ofText? pathText with
    | none => some .emptyPath
    | some path =>
      match manifest.job? p with
      | none => some .nothingSelected
      | some job => refusal path job.properties
  | _ => some (.severalSelected call positions.length)

/-- Why a search is a failure: it finds nothing. -/
def searchRefusal (manifest : Manifest) (group? : Option String) (name : String) : Option Failure :=
  if (manifest.findJobs group? name).isEmpty then some (.entityNotFound name) else none

end Manifest

namespace Operation

open Failure (ofOutcome?)

/-- Why an operation cannot be carried out on a manifest with jobs selected, if it cannot. -/
def refusal (manifest : Manifest) (positions : List Position) : Operation σ → Option Failure
  | locate name => manifest.searchRefusal none name
  | locateInGroup group name => manifest.searchRefusal (some group) name
  | addProperty pathText value =>
    manifest.editRefusal positions pathText fun path root =>
      ofOutcome? (root.setAt path true value).outcome
  | removeProperty pathText =>
    manifest.editRefusal positions pathText fun path root =>
      ofOutcome? (root.removeAt path false).outcome
  | addVariable v =>
    if (manifest.variableNamed? v.name).isSome then some (.duplicateVariable v.name) else none
  | getTyped type pathText =>
    manifest.readRefusal positions (callOf type) pathText fun path root =>
      ofOutcome? (Value.getScalarAt type root path false).outcome
  | getValue pathText =>
    manifest.readRefusal positions .getValue pathText fun path root =>
      ofOutcome? (root.lookupAt path false).outcome
  | get type pathText =>
    manifest.readRefusal positions .get pathText fun path root =>
      ofOutcome? (Value.getScalarAt type root path false).outcome
  | forEachSelected _ | forEachGroup _ => none

/-- What an operation answers when it fails or is skipped: a read returns the failure. -/
def refused (failure : Failure) : Operation σ → Answer
  | getTyped .. | get .. => .scalar (.error failure)
  | getValue _ => .value (.error failure)
  | locate _ | locateInGroup .. | addProperty .. | removeProperty _ | addVariable _
  | forEachSelected _ | forEachGroup _ => .done

/-- Operations that read. -/
def isRead : Operation σ → Bool
  | getTyped .. | getValue _ | get .. => true
  | locate _ | locateInGroup .. | addProperty .. | removeProperty _ | addVariable _
  | forEachSelected _ | forEachGroup _ => false

end Operation

namespace Selector

open Failure (ofOutcome?)

variable {s : Selector}

/-! ## Operations on a selector without a failure -/

lemma ofOutcome?_map {β : Type} (f : α → β) (outcome : Except Failure α) :
    ofOutcome? (outcome.map f) = ofOutcome? outcome := by
  cases outcome <;> rfl

/-- An edit fails with the failure of the first job that refuses. -/
lemma failure_edit (h : s.failure = none) (hpositions : s.positions.Nodup) (pathText : String)
    (vivify : Bool) {act : Path → Action Unit} (hact : ∀ path, Value.Restrained (act path)) :
    (s.edit pathText vivify act).value.failure =
      s.manifest.editRefusal s.positions pathText fun path root =>
        ofOutcome? (root.visit path vivify (act path)).outcome := by
  by_cases hempty : pathText = ""
  · rw [hempty, edit_pathless h]
    rfl
  obtain ⟨path, hpath⟩ := Path.exists_of_ne_empty hempty
  by_cases hselected : s.positions = []
  · rw [edit_unselected h hpath hselected]
    simp [Manifest.editRefusal, hpath, hselected]
  obtain ⟨done, rest, hsplit, hdone, -, hrest⟩ :=
    Manifest.editJobs_spec vivify (hact path) hpositions s.manifest
  have hnone : done.findSome? (fun e =>
      ofOutcome? (e.2.properties.visit path vivify (act path)).outcome) = none := by
    rw [List.findSome?_eq_none_iff]
    intro e he
    rw [hdone e he]
    rfl
  rw [edit_selected h hpath hselected]
  simp only [Manifest.editRefusal, hpath, List.isEmpty_iff, hselected, if_false, hsplit,
    List.findSome?_append, hnone, Option.none_or]
  cases rest with
  | nil => exact hrest
  | cons e rest =>
    obtain ⟨failure, houtcome, hfailure⟩ := hrest
    simp [hfailure, houtcome, ofOutcome?]

lemma failure_addVariable (h : s.failure = none) (v : Variable) :
    (s.addVariable v).value.failure =
      if (s.manifest.variableNamed? v.name).isSome then some (.duplicateVariable v.name)
      else none := by
  rw [addVariable, perform_of_none h, Manifest.addVariable]
  split
  · simp [Logged.quiet, fail_value h]
  · exact h

end Selector

/-! ## Reading leaves everything in place -/

namespace Selector

open Failure (ofOutcome?)

variable {s : Selector}

lemma readJob_selector (s : Selector) (call : Call) (pathText : String)
    (extract : Path → Value → Except Failure α) :
    (s.readJob call pathText extract).value.2 = s := by
  unfold readJob
  split
  case h_1 => rfl
  case h_3 => rfl
  case h_2 p hp =>
    split
    case h_1 => rfl
    case h_2 path hpath =>
      split
      case h_1 => rfl
      case h_2 job hjob =>
        simp only [Value.visit_node_of_look]
        rw [Manifest.setJob_job? hjob]

lemma ofOutcome?_readJob (s : Selector) (call : Call) (pathText : String)
    (extract : Path → Value → Except Failure α) :
    ofOutcome? (s.readJob call pathText extract).value.1 =
      s.manifest.readRefusal s.positions call pathText fun path root =>
        ofOutcome? (root.visit path false fun container =>
          (extract path container, container)).outcome := by
  unfold readJob Manifest.readRefusal
  rcases s.positions with _ | ⟨p, _ | ⟨q, rest⟩⟩
  · rfl
  · simp only
    cases Path.ofText? pathText with
    | none => rfl
    | some path =>
      simp only
      cases s.manifest.job? p <;> rfl
  · rfl

/-- A read returns what it reads, and records it if it is a failure; nothing else changes. -/
lemma read_value (h : s.failure = none) (call : Call) (pathText : String)
    (extract : Path → Value → Except Failure α) :
    (s.read call pathText extract).value =
      ((s.readJob call pathText extract).value.1,
        { s with failure := ofOutcome? (s.readJob call pathText extract).value.1 }) := by
  have hselector := readJob_selector s call pathText extract
  rw [read, h]
  simp only
  split
  case h_1 answer s' hanswer =>
    rw [hanswer] at hselector ⊢
    obtain rfl : s' = s := hselector
    simp [ofOutcome?, ← h]
  case h_2 failure s' hfailure =>
    rw [hfailure] at hselector ⊢
    obtain rfl : s' = s := hselector
    rw [fail_value h]
    rfl

lemma read_of_failure {failure : Failure} (h : s.failure = some failure) (call : Call)
    (pathText : String) (extract : Path → Value → Except Failure α) :
    (s.read call pathText extract).value = (.error failure, s) := by
  rw [read, h]

lemma perform_of_failure {failure : Failure} (h : s.failure = some failure) (call : Call)
    (operation : Selector → Logged Selector) : (s.perform call operation).value = s := by
  rw [perform, h]

end Selector

namespace Operation

open Failure (ofOutcome?)

variable {s : Selector}

/-! ## One operation -/

/-- A read changes nothing but the failure. -/
theorem apply_of_isRead {operation : Operation σ} (h : operation.isRead = true) (s : Selector)
    (state : σ) :
    (operation.apply s state).value.2.1.manifest = s.manifest ∧
      (operation.apply s state).value.2.1.positions = s.positions ∧
      (operation.apply s state).value.2.2 = state := by
  have hread : ∀ {β : Type} (call : Call) (pathText : String)
      (extract : Path → Value → Except Failure β),
      (s.read call pathText extract).value.2.manifest = s.manifest ∧
        (s.read call pathText extract).value.2.positions = s.positions := by
    intro β call pathText extract
    cases hs : s.failure with
    | some failure =>
      rw [Selector.read_of_failure hs]
      exact ⟨rfl, rfl⟩
    | none =>
      rw [Selector.read_value hs]
      exact ⟨rfl, rfl⟩
  cases operation with
  | getTyped type pathText => exact ⟨(hread _ _ _).1, (hread _ _ _).2, rfl⟩
  | getValue pathText => exact ⟨(hread _ _ _).1, (hread _ _ _).2, rfl⟩
  | get type pathText => exact ⟨(hread _ _ _).1, (hread _ _ _).2, rfl⟩
  | locate _ | locateInGroup _ _ | addProperty _ _ | removeProperty _ | addVariable _
  | forEachSelected _ | forEachGroup _ => cases h

/-- On a selector with a failure, an operation does nothing: the selector stays as it is, and so
does the state that its function would change. -/
theorem apply_of_failure {failure : Failure} (h : s.failure = some failure)
    (operation : Operation σ) (state : σ) :
    (operation.apply s state).value = (operation.refused failure, s, state) := by
  cases operation with
  | locate name => simp [apply, Logged.map, Selector.locate, Selector.perform_of_failure h, refused]
  | locateInGroup group name =>
    simp [apply, Logged.map, Selector.locateInGroup, Selector.perform_of_failure h, refused]
  | addProperty pathText value =>
    simp [apply, Logged.map, Selector.addProperty, Selector.perform_of_failure h, refused]
  | removeProperty pathText =>
    simp [apply, Logged.map, Selector.removeProperty, Selector.perform_of_failure h, refused]
  | addVariable v =>
    simp [apply, Logged.map, Selector.addVariable, Selector.perform_of_failure h, refused]
  | getTyped type pathText =>
    simp [apply, Logged.map, Selector.getScalar, Selector.read_of_failure h, refused]
  | getValue pathText =>
    simp [apply, Logged.map, Selector.getValue, Selector.read_of_failure h, refused]
  | get type pathText =>
    simp [apply, Logged.map, Selector.getScalar, Selector.read_of_failure h, refused]
  | forEachSelected f => simp [apply, Logged.map, Selector.forEachSelected, h, refused]
  | forEachGroup f => simp [apply, Logged.map, Selector.forEachGroup, h, refused]

/-- On a selector without a failure, an operation records its refusal. -/
theorem failure_apply (h : s.failure = none) (hpositions : s.positions.Nodup)
    (operation : Operation σ) (state : σ) :
    (operation.apply s state).value.2.1.failure = operation.refusal s.manifest s.positions := by
  cases operation with
  | locate name =>
    simp only [apply, Logged.map, Selector.locate, Selector.perform_of_none h]
    exact congrArg Selector.failure (Selector.select_value h name _)
  | locateInGroup group name =>
    simp only [apply, Logged.map, Selector.locateInGroup, Selector.perform_of_none h]
    exact congrArg Selector.failure (Selector.select_value h name _)
  | addProperty pathText value =>
    simp only [apply, Logged.map, Selector.addProperty, Selector.perform_of_none h]
    exact Selector.failure_edit h hpositions pathText true fun _ => Value.restrained_set _ _ _
  | removeProperty pathText =>
    simp only [apply, Logged.map, Selector.removeProperty, Selector.perform_of_none h]
    refine (Selector.failure_edit h hpositions pathText false fun path =>
      (Value.restrained_remove path.last path.text).forgetful).trans ?_
    simp only [(Value.visit_forgetful _ _ _ _).1, Selector.ofOutcome?_map]
    rfl
  | addVariable v =>
    exact Selector.failure_addVariable h v
  | getTyped type pathText =>
    simp only [apply, Logged.map, Selector.getScalar, Selector.read_value h]
    exact Selector.ofOutcome?_readJob s _ _ _
  | getValue pathText =>
    simp only [apply, Logged.map, Selector.getValue, Selector.read_value h]
    exact Selector.ofOutcome?_readJob s _ _ _
  | get type pathText =>
    simp only [apply, Logged.map, Selector.getScalar, Selector.read_value h]
    exact Selector.ofOutcome?_readJob s _ _ _
  | forEachSelected f =>
    simp only [apply, Logged.map, Selector.forEachSelected, h]
    rfl
  | forEachGroup f =>
    simp only [apply, Logged.map, Selector.forEachGroup, h]
    rfl

/-- An operation that fails answers with its failure, if it answers at all. -/
theorem answer_of_refusal (h : s.failure = none) {operation : Operation σ} {failure : Failure}
    (hrefusal : operation.refusal s.manifest s.positions = some failure) (state : σ) :
    (operation.apply s state).value.1 = operation.refused failure := by
  have herror : ∀ {β : Type} {outcome : Except Failure β}, ofOutcome? outcome = some failure →
      outcome = .error failure := by
    intro β outcome houtcome
    cases outcome with
    | ok _ => cases houtcome
    | error _ => rw [Option.some.inj houtcome]
  cases operation with
  | getTyped type pathText =>
    have hread := (Selector.ofOutcome?_readJob s (callOf type) pathText _).trans hrefusal
    simp [apply, Logged.map, Selector.getScalar, Selector.read_value h, herror hread, refused]
  | getValue pathText =>
    have hread := (Selector.ofOutcome?_readJob s .getValue pathText _).trans hrefusal
    simp [apply, Logged.map, Selector.getValue, Selector.read_value h, herror hread, refused]
  | get type pathText =>
    have hread := (Selector.ofOutcome?_readJob s .get pathText _).trans hrefusal
    simp [apply, Logged.map, Selector.getScalar, Selector.read_value h, herror hread, refused]
  | locate _ | locateInGroup _ _ | addProperty _ _ | removeProperty _ | addVariable _
  | forEachSelected _ | forEachGroup _ => rfl

/-! ## Chains -/

lemma run_cons_value (operation : Operation σ) (rest : List (Operation σ)) (s : Selector)
    (state : σ) :
    (run (operation :: rest) s state).value =
      ((operation.apply s state).value.1 ::
          (run rest (operation.apply s state).value.2.1
            (operation.apply s state).value.2.2).value.1,
        (run rest (operation.apply s state).value.2.1
          (operation.apply s state).value.2.2).value.2) :=
  rfl

lemma run_append_value (before after : List (Operation σ)) (s : Selector) (state : σ) :
    (run (before ++ after) s state).value =
      ((run before s state).value.1 ++
          (run after (run before s state).value.2.1 (run before s state).value.2.2).value.1,
        (run after (run before s state).value.2.1 (run before s state).value.2.2).value.2) := by
  induction before generalizing s state with
  | nil => rfl
  | cons operation rest ih => rw [List.cons_append, run_cons_value, ih, run_cons_value]; rfl

/-- After a failure a whole chain does nothing. -/
lemma run_of_failure {failure : Failure} (h : s.failure = some failure)
    (operations : List (Operation σ)) (state : σ) :
    (run operations s state).value = (operations.map (refused failure), s, state) := by
  induction operations with
  | nil => rfl
  | cons operation rest ih => rw [run_cons_value, apply_of_failure h, ih]; rfl

/-- Every operation of a chain can be carried out in the state that it meets. -/
def Succeeds : List (Operation σ) → Selector → σ → Prop
  | [], _, _ => True
  | operation :: rest, s, state =>
    operation.refusal s.manifest s.positions = none ∧
      Succeeds rest (operation.apply s state).value.2.1 (operation.apply s state).value.2.2

/-- A chain that succeeds leaves no failure. -/
lemma failure_run_of_succeeds (hs : s.Reachable) (h : s.failure = none)
    {operations : List (Operation σ)} {state : σ} (hsucceeds : Succeeds operations s state) :
    (run operations s state).value.2.1.failure = none := by
  induction operations generalizing s state with
  | nil => exact h
  | cons operation rest ih =>
    obtain ⟨hrefusal, hrest⟩ := hsucceeds
    have hstep := (failure_apply h hs.nodup operation state).trans hrefusal
    exact ih (.step operation state hs) hstep hrest

/-- A chain succeeds, or one of its operations is the first that cannot be carried out. -/
lemma succeeds_or_refuses (operations : List (Operation σ)) (s : Selector) (state : σ) :
    Succeeds operations s state ∨
      ∃ before operation after failure, operations = before ++ operation :: after ∧
        Succeeds before s state ∧
        operation.refusal (run before s state).value.2.1.manifest
          (run before s state).value.2.1.positions = some failure := by
  induction operations generalizing s state with
  | nil => exact .inl trivial
  | cons operation rest ih =>
    cases hrefusal : operation.refusal s.manifest s.positions with
    | some failure => exact .inr ⟨[], operation, rest, failure, rfl, trivial, hrefusal⟩
    | none =>
      rcases ih (operation.apply s state).value.2.1 (operation.apply s state).value.2.2 with
        hrest | ⟨before, refusing, after, failure, rfl, hbefore, hrefuses⟩
      · exact .inl ⟨hrefusal, hrest⟩
      · exact .inr ⟨operation :: before, refusing, after, failure, rfl, ⟨hrefusal, hbefore⟩,
          hrefuses⟩

/-- A chain stops at an operation: those before it succeed, it fails, and whatever comes after it is
as if it had not been called. -/
structure StopsAt (start : Selector) (state : σ) (before : List (Operation σ))
    (operation : Operation σ) (failure : Failure) : Prop where
  succeeds : Succeeds before start state
  /-- The operation cannot be carried out in the state that it meets. -/
  refuses : operation.refusal (run before start state).value.2.1.manifest
    (run before start state).value.2.1.positions = some failure
  /-- Why not is the failure of the chain. -/
  fails : (run (before ++ [operation]) start state).value.2.1.failure = some failure
  /-- The selector and the state of the functions stay as the operation left them, so no function is
  called; a read returns the failure, the first one included. -/
  stays : ∀ after : List (Operation σ), (run (before ++ operation :: after) start state).value =
    ((run before start state).value.1 ++ (operation :: after).map (refused failure),
      (run (before ++ [operation]) start state).value.2)

lemma stopsAt_of_refusal {start : Selector} (hs : start.Reachable) (hok : start.failure = none)
    {before : List (Operation σ)} {operation : Operation σ} {state : σ} {failure : Failure}
    (hbefore : Succeeds before start state)
    (hrefuses : operation.refusal (run before start state).value.2.1.manifest
      (run before start state).value.2.1.positions = some failure) :
    StopsAt start state before operation failure := by
  have hreached := failure_run_of_succeeds hs hok hbefore
  have hnodup := (hs.run before state).nodup
  have hfailure := (failure_apply hreached hnodup operation
    (run before start state).value.2.2).trans hrefuses
  have hanswer := answer_of_refusal hreached hrefuses (run before start state).value.2.2
  refine ⟨hbefore, hrefuses, ?_, fun after => ?_⟩
  · rw [run_append_value, run_cons_value]
    exact hfailure
  · rw [run_append_value, run_cons_value, run_of_failure hfailure, run_append_value, run_cons_value,
      hanswer, List.map_cons]
    rfl

/-- A chain on a new selector succeeds throughout and ends without a failure, or stops at the first
operation that fails and ends with its failure.  Reads change neither the manifest nor the
selection, whether they succeed or not. -/
theorem run_stops_at_first_failure (manifest : Manifest) (options : SelectorOptions)
    (operations : List (Operation σ)) (state : σ) :
    let start := Selector.new manifest options
    let final := (run operations start state).value.2.1
    ((Succeeds operations start state ∧ final.failure = none ∧ final.result = .ok ()) ∨
      ∃ before operation after failure, operations = before ++ operation :: after ∧
        StopsAt start state before operation failure ∧
        final.failure = some failure ∧ final.result = .error failure ∧
        final.manifest = (run (before ++ [operation]) start state).value.2.1.manifest) ∧
    ∀ (s : Selector) (read : Operation σ), read.isRead = true →
      (read.apply s state).value.2.1.manifest = s.manifest ∧
        (read.apply s state).value.2.1.positions = s.positions := by
  intro start final
  have hstart : start.Reachable := .new manifest options
  refine ⟨?_, fun s read hread => ?_⟩
  · rcases succeeds_or_refuses operations start state with
      hsucceeds | ⟨before, operation, after, failure, hsplit, hbefore, hrefuses⟩
    · have hfailure : final.failure = none := failure_run_of_succeeds hstart rfl hsucceeds
      exact .inl ⟨hsucceeds, hfailure, by rw [Selector.result, hfailure]⟩
    · have hstops := stopsAt_of_refusal hstart rfl hbefore hrefuses
      have hfinal : final = (run (before ++ [operation]) start state).value.2.1 := by
        have hstays := congrArg (fun outcome => outcome.2.1) (hstops.stays after)
        rw [← hsplit] at hstays
        exact hstays
      have hfailure : final.failure = some failure := by rw [hfinal, hstops.fails]
      exact .inr ⟨before, operation, after, failure, hsplit, hstops, hfailure,
        by rw [Selector.result, hfailure], by rw [hfinal]⟩
  · obtain ⟨hmanifest, hpositions, -⟩ := apply_of_isRead hread s state
    exact ⟨hmanifest, hpositions⟩

/-- The second call fails; the third counts the groups it is given, and is given none. -/
example :
    let chain : List (Operation Nat) :=
      [.locate "a", .getTyped .int "x", .forEachGroup fun group n => (group, n + 1)]
    let final := (run chain (Selector.new ((Manifest.new "m").withGroup
      ((InstanceGroup.new "g").withJob (Job.new "a" "r"))) .quiet) 0).value.2
    (final.1.failure, final.2) = (some (.unsupportedAccess .read "x" .null), 0) := by
  decide +kernel

end Operation

end PropertyTree
