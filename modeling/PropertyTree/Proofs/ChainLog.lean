import Mathlib.Data.List.Basic
import PropertyTree.Proofs.ChainFailure
import PropertyTree.Proofs.Diagnostics

/-!
# The log of a chain

What a selector reports of its chain: what was located, that the chain failed, and which calls were
skipped since.  This module says when each of these events comes, and where.

A call on a selector without a failure reports its failure last, if it has one, and nothing about
failing or skipping besides (`Records`, `records_apply`).  A call on a selector with a failure
reports at most that it is skipped (`events_apply_of_failure`).  So a log is cut by one event:
before it are the reports of the calls that were carried out, after it those of the skipped calls,
and `Operation.run_log` reads this off for any chain on a new selector.

## Main statements

* `records_apply`, `events_apply_of_failure`: one call.
* `events_run_of_failure`, `untroubled_run_of_succeeds`: chains after a failure and before one.
* `Operation.run_log`: the log of a chain.
-/

namespace PropertyTree

variable {σ : Type}

/-! ## Events about failing -/

namespace Event

/-- The event that a chain failed. -/
def isChainFailed : Event → Bool
  | chainFailed _ => true
  | manifestLoaded .. | variableAdded .. | located .. | matchesFound .. | callSkipped ..
  | vivified _ | queryMatched .. | patchFailed .. | patchesApplied _ => false

/-- The event that a call was skipped. -/
def isCallSkipped : Event → Bool
  | callSkipped .. => true
  | manifestLoaded .. | variableAdded .. | located .. | matchesFound .. | chainFailed _ | vivified _
  | queryMatched .. | patchFailed .. | patchesApplied _ => false

/-- Events in which a selector says that its chain failed. -/
def tellsFailure (event : Event) : Bool :=
  event.isChainFailed || event.isCallSkipped

/-- A text begins with a phrase only if one of its heading and the phrase begins the other. -/
lemma not_starts_message {phrase : String} {event : Event}
    (h : ¬ (Starts phrase event.heading ∨ Starts event.heading phrase)) :
    ¬ Starts phrase event.message :=
  fun hstarts => h (hstarts.comparable event.starts_heading)

/-- That a chain failed is told by the beginning of the text. -/
lemma isChainFailed_iff_message (event : Event) :
    event.isChainFailed = true ↔ Starts "Selector chain failed: " event.message := by
  cases event with
  | chainFailed failure => exact iff_of_true rfl (chainFailed failure).starts_heading
  | manifestLoaded _ _ | variableAdded _ _ | located _ _ | matchesFound _ _ | callSkipped _ _
  | vivified _ | queryMatched _ _ _ | patchFailed _ _ _ _ | patchesApplied _ =>
    refine iff_of_false Bool.false_ne_true (not_starts_message ?_)
    simp only [heading]
    decide +kernel

/-- That a call was skipped is told by the beginning of the text. -/
lemma isCallSkipped_iff_message (event : Event) :
    event.isCallSkipped = true ↔ Starts "Skipping " event.message := by
  cases event with
  | callSkipped call failure => exact iff_of_true rfl (callSkipped call failure).starts_heading
  | manifestLoaded _ _ | variableAdded _ _ | located _ _ | matchesFound _ _ | chainFailed _
  | vivified _ | queryMatched _ _ _ | patchFailed _ _ _ _ | patchesApplied _ =>
    refine iff_of_false Bool.false_ne_true (not_starts_message ?_)
    simp only [heading]
    decide +kernel

end Event

/-- Events of which none tells that a chain failed. -/
def Untroubled (events : List Event) : Prop :=
  ∀ event ∈ events, event.tellsFailure = false

namespace Untroubled

variable {events later : List Event} {event : Event}

lemma nil : Untroubled [] := fun _ h => nomatch h

lemma cons (h : event.tellsFailure = false) (hlater : Untroubled later) :
    Untroubled (event :: later) :=
  List.forall_mem_cons.2 ⟨h, hlater⟩

lemma append (h : Untroubled events) (hlater : Untroubled later) : Untroubled (events ++ later) :=
  List.forall_mem_append.2 ⟨h, hlater⟩

lemma isChainFailed (h : Untroubled events) (hmem : event ∈ events) : event.isChainFailed = false :=
  (Bool.or_eq_false_iff.1 (h event hmem)).1

lemma isCallSkipped (h : Untroubled events) (hmem : event ∈ events) : event.isCallSkipped = false :=
  (Bool.or_eq_false_iff.1 (h event hmem)).2

end Untroubled

/-- Events that tell a failure, if there is one, by their last, and in no other way. -/
def Records (failure : Option Failure) (events : List Event) : Prop :=
  ∃ before, Untroubled before ∧ events = before ++ (failure.map Event.chainFailed).toList

/-! ## Walks and edits tell nothing of a chain -/

lemma Value.untroubled_follow {α : Type} (path : String) (vivify : Bool) (act : Action α)
    (segments : List String) (node : Value) :
    Untroubled (follow path vivify act segments node).events := by
  induction segments generalizing node with
  | nil => exact .nil
  | cons segment rest ih =>
    cases node with
    | scalar s => exact .nil
    | seq items =>
      simp only [follow]
      split
      · exact .nil
      · exact .cons rfl (ih _)
    | strMap _ | anyMap _ =>
      simp only [follow]
      split
      · exact .cons rfl (ih _)
      · split
        · exact ih _
        · exact .nil

lemma Manifest.untroubled_editJobs (path : Path) (vivify : Bool) (act : Action Unit)
    (positions : List Position) (manifest : Manifest) :
    Untroubled (editJobs path vivify act positions manifest).events := by
  induction positions generalizing manifest with
  | nil => exact .nil
  | cons p rest ih =>
    rw [editJobs]
    split
    case h_1 => exact ih manifest
    case h_2 job _ =>
      simp only
      split
      · exact Value.untroubled_follow _ _ _ _ _
      · exact (Value.untroubled_follow _ _ _ _ _).append (ih _)

namespace Selector

variable {s : Selector}

/-! ## One call on a selector without a failure -/

lemma fail_eq (h : s.failure = none) (failure : Failure) :
    s.fail failure = ⟨{ s with failure := some failure }, [.chainFailed failure]⟩ := by
  rw [fail, h]

lemma records_fail (h : s.failure = none) {before : List Event} (hbefore : Untroubled before)
    (failure : Failure) :
    Records (s.fail failure).value.failure (before ++ (s.fail failure).events) :=
  ⟨before, hbefore, by rw [fail_eq h]; rfl⟩

lemma records_of_none (h : s.failure = none) {events : List Event} (hevents : Untroubled events) :
    Records s.failure events :=
  ⟨events, hevents, by rw [h]; exact (List.append_nil _).symm⟩

lemma events_select_of_found {found : List Position} (h : found ≠ []) (name : String) :
    (s.select name found).events =
      .located found.length name ::
        if s.options.logMatches then [.matchesFound name found] else [] := by
  have hfound : found.isEmpty = false := by simpa using h
  simp [select, hfound]

lemma records_select (h : s.failure = none) (name : String) (found : List Position) :
    Records (s.select name found).value.failure (s.select name found).events := by
  unfold select
  split
  · exact records_fail (s := { s with positions := found }) h .nil _
  · refine records_of_none (s := { s with positions := found }) h (.cons rfl ?_)
    split
    · exact .cons rfl .nil
    · exact .nil

lemma records_edit (h : s.failure = none) (pathText : String) (vivify : Bool)
    (act : Path → Action Unit) :
    Records (s.edit pathText vivify act).value.failure (s.edit pathText vivify act).events := by
  unfold edit
  split
  case h_1 => exact records_fail h .nil _
  case h_2 path _ =>
    have hloop := Manifest.untroubled_editJobs path vivify (act path) s.positions s.manifest
    split
    case isTrue => exact records_fail h .nil _
    case isFalse =>
      simp only
      split
      · exact records_of_none h hloop
      · exact records_fail (by exact h) hloop _

lemma records_addVariable (h : s.failure = none) (v : Variable) :
    Records (s.addVariable v).value.failure (s.addVariable v).events := by
  rw [addVariable, perform_of_none h, Manifest.addVariable]
  split
  · exact records_fail h .nil _
  · exact records_of_none h (.cons rfl .nil)

lemma untroubled_readJob {α : Type} (s : Selector) (call : Call) (pathText : String)
    (extract : Path → Value → Except Failure α) :
    Untroubled (s.readJob call pathText extract).events := by
  unfold readJob
  split
  case h_1 | h_3 => exact .nil
  case h_2 =>
    split
    case h_1 => exact .nil
    case h_2 =>
      split
      case h_1 => exact .nil
      case h_2 => exact Value.untroubled_follow _ _ _ _ _

lemma records_read {α : Type} (h : s.failure = none) (call : Call) (pathText : String)
    (extract : Path → Value → Except Failure α) :
    Records (s.read call pathText extract).value.2.failure
      (s.read call pathText extract).events := by
  have hreading := untroubled_readJob s call pathText extract
  have hselector := readJob_selector s call pathText extract
  rw [read, h]
  simp only
  split
  case h_1 answer s' hanswer =>
    obtain rfl : s' = s := by rw [hanswer] at hselector; exact hselector
    exact records_of_none h hreading
  case h_2 failure s' hfailure =>
    obtain rfl : s' = s := by rw [hfailure] at hselector; exact hselector
    exact records_fail h hreading _

end Selector

namespace Operation

variable {s : Selector}

/-- A call on a selector without a failure reports its failure last, if it fails, and nothing about
failing besides. -/
theorem records_apply (h : s.failure = none) (operation : Operation σ) (state : σ) :
    Records (operation.apply s state).value.2.1.failure (operation.apply s state).events := by
  cases operation with
  | locate name =>
    simp only [apply, Logged.map, Selector.locate, Selector.perform_of_none h]
    exact Selector.records_select h name _
  | locateInGroup group name =>
    simp only [apply, Logged.map, Selector.locateInGroup, Selector.perform_of_none h]
    exact Selector.records_select h name _
  | addProperty pathText value =>
    simp only [apply, Logged.map, Selector.addProperty, Selector.perform_of_none h]
    exact Selector.records_edit h pathText true _
  | removeProperty pathText =>
    simp only [apply, Logged.map, Selector.removeProperty, Selector.perform_of_none h]
    exact Selector.records_edit h pathText false _
  | addVariable v => exact Selector.records_addVariable h v
  | getTyped type pathText | getValue pathText | get type pathText =>
    exact Selector.records_read h _ pathText _
  | forEachSelected f =>
    simp only [apply, Logged.map, Selector.forEachSelected, h]
    exact ⟨[], .nil, rfl⟩
  | forEachGroup f =>
    simp only [apply, Logged.map, Selector.forEachGroup, h]
    exact ⟨[], .nil, rfl⟩

/-- A call on a selector with a failure reports that it is skipped, if that is asked for. -/
theorem events_apply_of_failure {failure : Failure} (h : s.failure = some failure)
    (operation : Operation σ) (state : σ) :
    (operation.apply s state).events = s.skipEvents operation.call failure := by
  cases operation <;>
    simp [apply, call, Logged.map, h, Selector.locate, Selector.locateInGroup, Selector.addProperty,
      Selector.removeProperty, Selector.addVariable, Selector.getScalar, Selector.getValue,
      Selector.perform, Selector.read, Selector.forEachSelected, Selector.forEachGroup]

/-! ## Chains -/

lemma events_run_append (before after : List (Operation σ)) (s : Selector) (state : σ) :
    (run (before ++ after) s state).events = (run before s state).events ++
      (run after (run before s state).value.2.1 (run before s state).value.2.2).events := by
  induction before generalizing s state with
  | nil => rfl
  | cons operation rest ih =>
    have hrest := ih (operation.apply s state).value.2.1 (operation.apply s state).value.2.2
    rw [List.cons_append]
    simp only [run, Logged.andThen, Logged.map] at hrest ⊢
    rw [hrest, List.append_assoc]

lemma events_run_singleton (operation : Operation σ) (s : Selector) (state : σ) :
    (run [operation] s state).events = (operation.apply s state).events :=
  List.append_nil _

/-- A chain leaves the options as they are. -/
lemma options_run (operations : List (Operation σ)) (s : Selector) (state : σ) :
    (run operations s state).value.2.1.options = s.options :=
  congrArg (fun x => x.value.2.1.options) (run_withOptions s.options operations s state)

/-- After a failure, the log of a chain lists its calls as skipped, if that is asked for. -/
theorem events_run_of_failure {failure : Failure} (h : s.failure = some failure)
    (operations : List (Operation σ)) (state : σ) :
    (run operations s state).events =
      if s.options.logSkippedCalls then
        operations.map fun skipped => .callSkipped skipped.call failure
      else [] := by
  induction operations with
  | nil => exact (ite_self []).symm
  | cons operation rest ih =>
    have hcons := events_run_append [operation] rest s state
    rw [events_run_singleton, events_apply_of_failure h, run_of_failure h, ih] at hcons
    rw [← List.singleton_append, hcons, Selector.skipEvents]
    split <;> rfl

/-- Before a failure, the log of a chain tells nothing of one. -/
theorem untroubled_run_of_succeeds (hs : s.Reachable) (h : s.failure = none)
    {operations : List (Operation σ)} {state : σ} (hsucceeds : Succeeds operations s state) :
    Untroubled (run operations s state).events := by
  induction operations generalizing s state with
  | nil => exact .nil
  | cons operation rest ih =>
    obtain ⟨hrefusal, hrest⟩ := hsucceeds
    have hstep := (failure_apply h hs.nodup operation state).trans hrefusal
    obtain ⟨before, hbefore, hevents⟩ := records_apply h operation state
    rw [hstep] at hevents
    have hhere : Untroubled (operation.apply s state).events := by
      rw [hevents]
      exact hbefore.append .nil
    exact hhere.append (ih (.step operation state hs) hstep hrest)

/-- A search that ends without a failure found something, and reports it. -/
lemma events_search {group? : Option String} {name : String} {state : σ}
    (h : ((search group? name).apply s state).value.2.1.failure = none) :
    ((search group? name).apply s state).events =
      .located (s.manifest.findJobs group? name).length name ::
        if s.options.logMatches then [.matchesFound name (s.manifest.findJobs group? name)]
        else [] := by
  have hok : s.failure = none := by
    cases hs : s.failure with
    | none => rfl
    | some failure =>
      rw [apply_of_failure hs, hs] at h
      cases h
  have hfound : s.manifest.findJobs group? name ≠ [] := by
    rintro hnone
    rw [Selector.search_value hok, Selector.select_value hok, hnone] at h
    cases h
  rw [← Selector.events_select_of_found hfound name]
  cases group? with
  | none => exact congrArg Logged.events (Selector.perform_of_none hok _ _)
  | some group => exact congrArg Logged.events (Selector.perform_of_none hok _ _)

/-- The log of a chain that stops: the report of the failure is the last of the call that failed,
and cuts the log. -/
lemma events_run_of_refusal {start : Selector} (hs : start.Reachable) (hok : start.failure = none)
    {before : List (Operation σ)} {operation : Operation σ} {state : σ} {failure : Failure}
    (hbefore : Succeeds before start state)
    (hrefuses : operation.refusal (run before start state).value.2.1.manifest
      (run before start state).value.2.1.positions = some failure) :
    ∃ earlier, Untroubled earlier ∧
      (run (before ++ [operation]) start state).events = earlier ++ [.chainFailed failure] ∧
      ∀ after : List (Operation σ), (run (before ++ operation :: after) start state).events =
        earlier ++ .chainFailed failure ::
          if start.options.logSkippedCalls then
            after.map fun skipped => .callSkipped skipped.call failure
          else [] := by
  have hstops := stopsAt_of_refusal hs hok hbefore hrefuses
  have hreached := failure_run_of_succeeds hs hok hbefore
  obtain ⟨walks, hwalks, hevents⟩ :=
    records_apply hreached operation (run before start state).value.2.2
  have hfails : (operation.apply (run before start state).value.2.1
      (run before start state).value.2.2).value.2.1.failure = some failure := by
    rw [← hstops.fails, run_append_value]
    rfl
  rw [hfails] at hevents
  have hstopped : (run (before ++ [operation]) start state).events =
      (run before start state).events ++ walks ++ [.chainFailed failure] := by
    rw [events_run_append, events_run_singleton, hevents, List.append_assoc]
    rfl
  refine ⟨(run before start state).events ++ walks,
    (untroubled_run_of_succeeds hs hok hbefore).append hwalks, hstopped, fun after => ?_⟩
  have hsplit := events_run_append (before ++ [operation]) after start state
  rw [events_run_of_failure hstops.fails, options_run, hstopped, List.append_assoc before] at hsplit
  rw [← List.singleton_append, hsplit, List.append_assoc _ [_]]
  rfl

/-- What the log of a chain tells. -/
structure Logs (start : Selector) (operations : List (Operation σ)) (state : σ) : Prop where
  /-- It tells once that the chain failed, and why, if the chain ends with a failure, and otherwise
  never. -/
  failed : (run operations start state).events.filter Event.isChainFailed =
    ((run operations start state).value.2.1.failure.map Event.chainFailed).toList
  /-- Before that it tells of no skipped call.  It is the last report of the call at which the chain
  stops; what follows are reports that the later calls are skipped, with the same failure, one for
  each in their order if they are asked for, and nothing else. -/
  cut : ∀ earlier failure later,
    (run operations start state).events = earlier ++ .chainFailed failure :: later →
      (∀ event ∈ earlier, event.isCallSkipped = false) ∧
        ∃ before operation after, operations = before ++ operation :: after ∧
          StopsAt start state before operation failure ∧
          (run (before ++ [operation]) start state).events = earlier ++ [.chainFailed failure] ∧
          later = if start.options.logSkippedCalls then
            after.map fun skipped => .callSkipped skipped.call failure else []
  /-- Without a failure it tells of no skipped call either. -/
  uncut : (run operations start state).value.2.1.failure = none →
    ∀ event ∈ (run operations start state).events, event.isCallSkipped = false
  /-- A search that leaves no failure contributes one report of what it found, followed by one of
  the positions if they are asked for, and nothing else. -/
  searches : ∀ before group? name after, operations = before ++ search group? name :: after →
    let reached := (run before start state).value.2
    let next := ((search group? name).apply reached.1 reached.2).value.2
    let found := reached.1.manifest.findJobs group? name
    next.1.failure = none →
      (run operations start state).events =
        (run before start state).events ++
          (.located found.length name ::
            if start.options.logMatches then [.matchesFound name found] else []) ++
          (run after next.1 next.2).events

lemma logs_searches {start : Selector} {state : σ} {before after : List (Operation σ)}
    {group? : Option String} {name : String} :
    let reached := (run before start state).value.2
    let next := ((search group? name).apply reached.1 reached.2).value.2
    let found := reached.1.manifest.findJobs group? name
    next.1.failure = none →
      (run (before ++ search group? name :: after) start state).events =
        (run before start state).events ++
          (.located found.length name ::
            if start.options.logMatches then [.matchesFound name found] else []) ++
          (run after next.1 next.2).events := by
  intro reached next found hnext
  have hsearch := events_search hnext
  rw [options_run before start state] at hsearch
  rw [List.append_assoc, ← hsearch]
  exact events_run_append before (search group? name :: after) start state

lemma logs_of_succeeds {start : Selector} (hs : start.Reachable) (hok : start.failure = none)
    {operations : List (Operation σ)} {state : σ} (hsucceeds : Succeeds operations start state) :
    Logs start operations state where
  failed := by
    have hlog := untroubled_run_of_succeeds hs hok hsucceeds
    rw [failure_run_of_succeeds hs hok hsucceeds]
    exact List.filter_eq_nil_iff.2 fun event h => by simp [hlog.isChainFailed h]
  cut := by
    intro earlier failure later hevents
    have hlog := untroubled_run_of_succeeds hs hok hsucceeds
    rw [hevents] at hlog
    cases hlog (.chainFailed failure) (by simp)
  uncut _ _ h := (untroubled_run_of_succeeds hs hok hsucceeds).isCallSkipped h
  searches := by
    rintro before group? name after rfl
    exact logs_searches

lemma logs_of_refusal {start : Selector} (hs : start.Reachable) (hok : start.failure = none)
    {before after : List (Operation σ)} {operation : Operation σ} {state : σ} {failure : Failure}
    (hbefore : Succeeds before start state)
    (hrefuses : operation.refusal (run before start state).value.2.1.manifest
      (run before start state).value.2.1.positions = some failure) :
    Logs start (before ++ operation :: after) state := by
  obtain ⟨earlier, hearlier, hstopped, hlog⟩ := events_run_of_refusal hs hok hbefore hrefuses
  have hstops := stopsAt_of_refusal hs hok hbefore hrefuses
  have hfailure : (run (before ++ operation :: after) start state).value.2.1.failure =
      some failure := by
    rw [hstops.stays after]
    exact hstops.fails
  specialize hlog after
  generalize hskips : (if start.options.logSkippedCalls then
    after.map fun skipped => Event.callSkipped skipped.call failure else []) = skips at hlog
  have hskipped : ∀ event ∈ skips, event.isChainFailed = false := by
    rw [← hskips]
    split
    · simp [Event.isChainFailed]
    · simp
  refine ⟨?failed, ?cut, ?uncut, ?searches⟩
  case failed =>
    rw [hlog, hfailure, List.filter_append, List.filter_cons_of_pos rfl,
      List.filter_eq_nil_iff.2 fun event h => by simp [hearlier.isChainFailed h],
      List.filter_eq_nil_iff.2 fun event h => by simp [hskipped event h]]
    rfl
  case cut =>
    intro earlier' failure' later hevents
    -- the report of the failure occurs once, so every cut of the log at such a report is this one
    have hbefore_cut : Event.chainFailed failure' ∉ earlier := fun h => by
      cases hearlier.isChainFailed h
    have hafter_cut : Event.chainFailed failure' ∉ skips := fun h => by
      cases hskipped _ h
    obtain ⟨rfl, hsame, rfl⟩ :=
      (List.append_cons_inj_of_notMem hbefore_cut hafter_cut).1 (hlog.symm.trans hevents)
    obtain rfl : failure = failure' := Event.chainFailed.inj hsame
    exact ⟨fun event h => hearlier.isCallSkipped h, before, operation, after, rfl, hstops, hstopped,
      hskips.symm⟩
  case uncut =>
    intro hnone
    cases hfailure.symm.trans hnone
  case searches =>
    rintro before' group? name after' hsplit
    rw [hsplit]
    exact logs_searches

/-- Whatever calls are made on a new selector, the log tells that the chain failed if it did, and
then lists the skipped calls if that is asked for; each search that succeeds is in it with what it
found.  Failing and skipping are told by the beginnings of the texts. -/
theorem run_log (manifest : Manifest) (options : SelectorOptions) (operations : List (Operation σ))
    (state : σ) :
    Logs (Selector.new manifest options) operations state ∧
      ∀ event : Event,
        (event.isChainFailed = true ↔ Starts "Selector chain failed: " event.message) ∧
          (event.isCallSkipped = true ↔ Starts "Skipping " event.message) := by
  have hstart : (Selector.new manifest options).Reachable := .new manifest options
  refine ⟨?_, fun event => ⟨event.isChainFailed_iff_message, event.isCallSkipped_iff_message⟩⟩
  rcases succeeds_or_refuses operations (Selector.new manifest options) state with
    hsucceeds | ⟨before, operation, after, failure, rfl, hbefore, hrefuses⟩
  · exact logs_of_succeeds hstart rfl hsucceeds
  · exact logs_of_refusal hstart rfl hbefore hrefuses

/-- The read fails after the walk reported on its query; the calls after it are skipped, the search
among them. -/
example :
    let routes := Value.seq [.strMap [("name", .text "x")]]
    let job := { Job.new "a" "r" with properties := .strMap [("routes", routes)] }
    let manifest := (Manifest.new "m").withGroup ((InstanceGroup.new "g").withJob job)
    let path := "routes/name=x/name"
    let failure : Failure := .typeMismatch path .int "x" .text
    let operations : List (Operation Unit) :=
      [.locate "a", .getTyped .int path, .locate "a", .forEachGroup (·, ·)]
    (run operations (Selector.new manifest ⟨true, true⟩) ()).events =
      [.located 1 "a", .matchesFound "a" [⟨0, 0⟩], .queryMatched "name=x" path 0,
        .chainFailed failure, .callSkipped .locate failure,
        .callSkipped .forEachGroup failure] := by
  decide +kernel

end Operation

end PropertyTree
