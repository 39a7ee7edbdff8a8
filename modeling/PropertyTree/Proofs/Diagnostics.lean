import Mathlib.Tactic.Lemma
import PropertyTree.PatchSet.Basic
import PropertyTree.Selector.Operation

/-!
# Options and diagnostics

The options of a selector are consulted where a call is skipped and where a search has found
something, next to decisions about what the call does.  They ask for two kinds of events, which are
told from all others by their texts (`Event.isOptional_iff_message`), and for nothing else: whatever
the options, runs come to the same, and their logs are the same but for these events
(`SelectorOptions.affect_only_diagnostics`).

The proof keeps two runs in step.  It compares results together with their required events
(`Logged.required`), so that results and logs need not be followed separately; agreement passes
through `Logged.map` and `Logged.andThen`.  Each operation on a selector with other options is then
the operation on the selector as it was, with the options exchanged afterwards.
-/

namespace PropertyTree

/-! ## Optional events -/

/-- A text begins with another. -/
def Starts (start text : String) : Prop :=
  start.toList <+: text.toList

instance (start text : String) : Decidable (Starts start text) :=
  inferInstanceAs (Decidable (start.toList <+: text.toList))

namespace Starts

lemma refl (text : String) : Starts text text := List.prefix_refl _

lemma trans {first second text : String} (h : Starts first second) (h' : Starts second text) :
    Starts first text :=
  List.IsPrefix.trans h h'

lemma append {start text : String} (h : Starts start text) (rest : String) :
    Starts start (text ++ rest) := by
  rw [Starts, String.toList_append]
  exact List.IsPrefix.trans h (List.prefix_append _ _)

/-- Of two beginnings of a text one begins the other. -/
lemma comparable {first second text : String} (h : Starts first text) (h' : Starts second text) :
    Starts first second ∨ Starts second first :=
  List.prefix_or_prefix_of_prefix h h'

end Starts

namespace Event

/-- Events that are reported only if the options ask for them. -/
def isOptional : Event → Bool
  | callSkipped .. | matchesFound .. => true
  | manifestLoaded .. | variableAdded .. | located .. | chainFailed _ | vivified _
  | queryMatched .. | patchFailed .. | patchesApplied _ => false

/-- What the text of an event begins with, whatever its data. -/
def heading : Event → String
  | manifestLoaded .. => "Loaded manifest '"
  | variableAdded .. => "Adding variable '"
  | located .. => "Located "
  | matchesFound .. => "Matches for '"
  | chainFailed _ => "Selector chain failed: "
  | callSkipped .. => "Skipping "
  | vivified _ => "Auto-vivifying mapping at `"
  | queryMatched .. => "Query `"
  | patchFailed .. => "Patch "
  | patchesApplied _ => "Applied "

lemma starts_heading (event : Event) : Starts event.heading event.message := by
  -- the texts are exposed by `delta`, since their equations take long to make
  cases event <;> delta heading message <;> dsimp only
  all_goals repeat first | with_reducible exact .refl _ | with_reducible apply Starts.append

/-- The texts of optional events begin as no others do. -/
lemma isOptional_iff_message (event : Event) :
    event.isOptional = true ↔
      Starts "Skipping " event.message ∨ Starts "Matches for " event.message := by
  have hheading := event.starts_heading
  cases event with
  | callSkipped call failure => exact iff_of_true rfl (.inl hheading)
  | matchesFound name positions =>
    have hquote : Starts "Matches for " "Matches for '" := by decide +kernel
    exact iff_of_true rfl (.inr (hquote.trans hheading))
  | manifestLoaded _ _ | variableAdded _ _ | located _ _ | chainFailed _ | vivified _
  | queryMatched _ _ _ | patchFailed _ _ _ _ | patchesApplied _ =>
    refine iff_of_false Bool.false_ne_true ?_
    rintro (h | h)
    all_goals
      have hapart := h.comparable hheading
      simp only [heading] at hapart
      exact absurd hapart (by decide +kernel)

end Event

namespace Logged

variable {α β : Type}

/-- A result with those of its events that are reported under all options. -/
def required (x : Logged α) : Logged α :=
  ⟨x.value, x.events.filter (!·.isOptional)⟩

/-- Results that agree up to a change agree after a function that passes the change on. -/
lemma required_map_congr {f : α → β} {change : α → α} {change' : β → β} {x y : Logged α}
    (h : x.required = (y.map change).required) (hf : ∀ a, f (change a) = change' (f a)) :
    (x.map f).required = ((y.map f).map change').required := by
  calc (x.map f).required
      = x.required.map f := rfl
    _ = (y.map change).required.map f := by rw [h]
    _ = ((y.map f).map change').required := by simp [required, map, hf]

lemma required_andThen (first : Logged α) (next : α → Logged β) :
    (first.andThen next).required = first.required.andThen fun a => (next a).required := by
  simp [required, andThen]

/-- And they agree after a second step that passes it on. -/
lemma required_andThen_congr {next : α → Logged β} {change : α → α} {change' : β → β}
    {x y : Logged α} (h : x.required = (y.map change).required)
    (hnext : ∀ a, (next (change a)).required = ((next a).map change').required) :
    (x.andThen next).required = ((y.andThen next).map change').required := by
  calc (x.andThen next).required
      = x.required.andThen fun a => (next a).required := required_andThen x next
    _ = (y.map change).required.andThen fun a => (next a).required := by rw [h]
    _ = y.required.andThen fun a => (next (change a)).required := rfl
    _ = y.required.andThen fun a => ((next a).map change').required := by simp only [hnext]
    _ = ((y.andThen next).map change').required :=
        (required_andThen y fun a => (next a).map change').symm

end Logged

namespace Selector

/-- A selector that reports what other options say. -/
def withOptions (s : Selector) (options : SelectorOptions) : Selector :=
  { s with options }

variable (options : SelectorOptions) (s : Selector)

/-! ## Operations under other options -/

lemma fail_withOptions (failure : Failure) :
    (s.withOptions options).fail failure = (s.fail failure).map (·.withOptions options) := by
  unfold fail
  cases h : s.failure <;> simp [withOptions, h, Logged.quiet, Logged.map]

lemma filter_skipEvents (call : Call) (failure : Failure) :
    (s.skipEvents call failure).filter (!·.isOptional) = [] := by
  unfold skipEvents
  split <;> rfl

lemma perform_withOptions {operation : Selector → Logged Selector} (call : Call)
    (h : (operation (s.withOptions options)).required =
      ((operation s).map (·.withOptions options)).required) :
    ((s.withOptions options).perform call operation).required =
      ((s.perform call operation).map (·.withOptions options)).required := by
  unfold perform
  cases hs : s.failure with
  | none => simpa [withOptions, hs] using h
  | some failure => simp [withOptions, hs, Logged.required, Logged.map, filter_skipEvents]

lemma select_withOptions (name : String) (positions : List Position) :
    ((s.withOptions options).select name positions).required =
      ((s.select name positions).map (·.withOptions options)).required := by
  unfold select
  split
  case isTrue => exact congrArg Logged.required (fail_withOptions options { s with positions } _)
  case isFalse =>
    -- whether the positions are reported is an optional event
    have hfilter : ∀ b : Bool, (Event.located positions.length name ::
        if b then [.matchesFound name positions] else []).filter (!·.isOptional) =
          [.located positions.length name] := by
      intro b
      cases b <;> rfl
    simp only [Logged.required, Logged.map, hfilter]
    rfl

lemma locate_withOptions (name : String) :
    ((s.withOptions options).locate name).required =
      ((s.locate name).map (·.withOptions options)).required :=
  perform_withOptions options s _ (select_withOptions options s _ _)

lemma locateInGroup_withOptions (group name : String) :
    ((s.withOptions options).locateInGroup group name).required =
      ((s.locateInGroup group name).map (·.withOptions options)).required :=
  perform_withOptions options s _ (select_withOptions options s _ _)

lemma edit_withOptions (pathText : String) (vivify : Bool) (act : Path → Action Unit) :
    (s.withOptions options).edit pathText vivify act =
      (s.edit pathText vivify act).map (·.withOptions options) := by
  unfold edit
  cases Path.ofText? pathText with
  | none => exact fail_withOptions options s _
  | some path =>
    by_cases hnone : s.positions.isEmpty = true
    · simp only [withOptions, hnone, if_true]
      exact fail_withOptions options s _
    · simp only [withOptions, hnone]
      generalize Manifest.editJobs path vivify (act path) s.positions s.manifest = edited
      cases edited.value.1 with
      | none => rfl
      | some failure =>
        have hfail := fail_withOptions options { s with manifest := edited.value.2 } failure
        simp only [withOptions] at hfail
        simp [hfail, Logged.map]

lemma addProperty_withOptions (pathText : String) (value : Value) :
    ((s.withOptions options).addProperty pathText value).required =
      ((s.addProperty pathText value).map (·.withOptions options)).required :=
  perform_withOptions options s _ (congrArg Logged.required (edit_withOptions options s _ _ _))

lemma removeProperty_withOptions (pathText : String) :
    ((s.withOptions options).removeProperty pathText).required =
      ((s.removeProperty pathText).map (·.withOptions options)).required :=
  perform_withOptions options s _ (congrArg Logged.required (edit_withOptions options s _ _ _))

lemma readJob_withOptions {α : Type} (call : Call) (pathText : String)
    (extract : Path → Value → Except Failure α) :
    (s.withOptions options).readJob call pathText extract =
      (s.readJob call pathText extract).map (Prod.map id (·.withOptions options)) := by
  unfold readJob
  simp only [withOptions]
  repeat' split
  all_goals rfl

lemma addVariable_withOptions (v : Variable) :
    ((s.withOptions options).addVariable v).required =
      ((s.addVariable v).map (·.withOptions options)).required := by
  refine perform_withOptions options s _ (congrArg Logged.required ?_)
  simp only [withOptions]
  generalize s.manifest.addVariable v = added
  cases added.value with
  | ok manifest => rfl
  | error duplicate =>
    have hfail := fail_withOptions options s (.duplicateVariable duplicate.name)
    simp only [withOptions] at hfail
    simp [hfail, Logged.map]

lemma read_withOptions {α : Type} (call : Call) (pathText : String)
    (extract : Path → Value → Except Failure α) :
    ((s.withOptions options).read call pathText extract).required =
      ((s.read call pathText extract).map (Prod.map id (·.withOptions options))).required := by
  unfold read
  cases hs : s.failure with
  | some failure =>
    simp [withOptions, hs, Logged.required, Logged.map, filter_skipEvents]
  | none =>
    have hnone : (s.withOptions options).failure = none := hs
    simp only [hnone, readJob_withOptions, Logged.map]
    generalize s.readJob call pathText extract = reading
    obtain ⟨⟨answer, s'⟩, events⟩ := reading
    cases answer with
    | ok answer => rfl
    | error failure =>
      simp only [Prod.map, id, fail_withOptions]
      rfl

lemma forEachSelected_withOptions {σ : Type} (f : Job → σ → Job × σ) (state : σ) :
    ((s.withOptions options).forEachSelected f state).required =
      ((s.forEachSelected f state).map (Prod.map (·.withOptions options) id)).required := by
  unfold forEachSelected
  cases hs : s.failure <;>
    simp [withOptions, hs, Logged.required, Logged.map, Logged.quiet, filter_skipEvents]

lemma forEachGroup_withOptions {σ : Type} (f : InstanceGroup → σ → InstanceGroup × σ) (state : σ) :
    ((s.withOptions options).forEachGroup f state).required =
      ((s.forEachGroup f state).map (Prod.map (·.withOptions options) id)).required := by
  unfold forEachGroup
  cases hs : s.failure <;>
    simp [withOptions, hs, Logged.required, Logged.map, Logged.quiet, filter_skipEvents]

end Selector

/-! ## Chains -/

namespace Operation

variable {σ : Type} (options : SelectorOptions)

/-- The outcome of an operation or of a chain, with other options of the selector. -/
def reportBy {α : Type} : α × Selector × σ → α × Selector × σ :=
  Prod.map id (Prod.map (·.withOptions options) id)

/-- An operation does the same under all options. -/
lemma apply_withOptions (operation : Operation σ) (s : Selector) (state : σ) :
    (operation.apply (s.withOptions options) state).required =
      ((operation.apply s state).map (reportBy options)).required := by
  cases operation with
  | locate name =>
    exact Logged.required_map_congr (s.locate_withOptions options name) fun _ => rfl
  | locateInGroup group name =>
    exact Logged.required_map_congr (s.locateInGroup_withOptions options group name) fun _ => rfl
  | addProperty pathText value =>
    exact Logged.required_map_congr (s.addProperty_withOptions options pathText value) fun _ => rfl
  | removeProperty pathText =>
    exact Logged.required_map_congr (s.removeProperty_withOptions options pathText) fun _ => rfl
  | addVariable v =>
    exact Logged.required_map_congr (s.addVariable_withOptions options v) fun _ => rfl
  | getTyped type pathText | getValue pathText | get type pathText =>
    exact Logged.required_map_congr (s.read_withOptions options _ pathText _) fun _ => rfl
  | forEachSelected f =>
    exact Logged.required_map_congr (s.forEachSelected_withOptions options f state) fun _ => rfl
  | forEachGroup f =>
    exact Logged.required_map_congr (s.forEachGroup_withOptions options f state) fun _ => rfl

/-- A chain does the same under all options. -/
lemma run_withOptions (operations : List (Operation σ)) (s : Selector) (state : σ) :
    (run operations (s.withOptions options) state).required =
      ((run operations s state).map (reportBy options)).required := by
  induction operations generalizing s state with
  | nil => rfl
  | cons operation rest ih =>
    refine Logged.required_andThen_congr (operation.apply_withOptions options s state) ?_
    rintro ⟨answer, s', state'⟩
    exact Logged.required_map_congr (ih s' state') fun _ => rfl

end Operation

/-! ## Patch sets -/

namespace Patch

variable (options : SelectorOptions) (patch : Patch) (s : Selector)

lemma locate_withOptions :
    (patch.locate (s.withOptions options)).required =
      ((patch.locate s).map (·.withOptions options)).required := by
  unfold locate
  cases patch.group with
  | none => exact s.locate_withOptions options _
  | some group => exact s.locateInGroup_withOptions options _ _

lemma edit_withOptions :
    (patch.edit (s.withOptions options)).required =
      ((patch.edit s).map (·.withOptions options)).required := by
  unfold edit
  cases patch.action with
  | set path value => exact s.addProperty_withOptions options _ _
  | remove path => exact s.removeProperty_withOptions options _

/-- A patch does the same under all options. -/
lemma perform_withOptions :
    (patch.perform (s.withOptions options)).required =
      ((patch.perform s).map (·.withOptions options)).required :=
  Logged.required_andThen_congr (patch.locate_withOptions options s)
    (patch.edit_withOptions options)

end Patch

namespace PatchSet

variable (first second : SelectorOptions) (patches : List Patch) (manifest : Manifest)

lemma applyFrom_required (count before : Nat) :
    (applyFrom first count before patches manifest).required =
      (applyFrom second count before patches manifest).required := by
  induction patches generalizing before manifest with
  | nil => rfl
  | cons patch rest ih =>
    have hperform : (patch.perform (Selector.new manifest first)).required =
        ((patch.perform (Selector.new manifest second)).map (·.withOptions first)).required :=
      patch.perform_withOptions first (Selector.new manifest second)
    obtain ⟨hvalue, hevents⟩ := Logged.mk.inj hperform
    simp only [applyFrom, hvalue]
    generalize patch.perform (Selector.new manifest second) = edited at hevents ⊢
    simp only [Selector.withOptions, Logged.map] at hevents ⊢
    cases edited.value.failure with
    | some failure => simp only [Logged.required, List.filter_append, hevents]
    | none =>
      obtain ⟨hothers, hotherEvents⟩ := Logged.mk.inj (ih edited.value.manifest (before + 1))
      simp only [Logged.required, List.filter_append, hevents, hothers, hotherEvents]

/-- A patch set does the same under all options. -/
lemma apply_required :
    (apply ⟨first, patches⟩ manifest).required = (apply ⟨second, patches⟩ manifest).required := by
  obtain ⟨hvalue, hevents⟩ := Logged.mk.inj
    (applyFrom_required first second patches manifest patches.length 0)
  simp only [apply, hvalue]
  generalize applyFrom second patches.length 0 patches manifest = applied at hevents ⊢
  obtain ⟨⟨outcome, reached⟩, events⟩ := applied
  cases outcome <;> simp only [Logged.required, List.filter_append, hevents]

end PatchSet

/-! ## Any two options -/

namespace SelectorOptions

variable {σ : Type}

/-- Two runs of chains that come to the same and report the same but for optional events. -/
structure Agree (one other : Logged (List Answer × Selector × σ)) : Prop where
  answers : one.value.1 = other.value.1
  positions : one.value.2.1.positions = other.value.2.1.positions
  failure : one.value.2.1.failure = other.value.2.1.failure
  manifest : one.value.2.1.manifest = other.value.2.1.manifest
  state : one.value.2.2 = other.value.2.2
  events : one.events.filter (!·.isOptional) = other.events.filter (!·.isOptional)

lemma agree_run (first second : SelectorOptions) (manifest : Manifest)
    (operations : List (Operation σ)) (state : σ) :
    Agree (Operation.run operations (Selector.new manifest first) state)
      (Operation.run operations (Selector.new manifest second) state) := by
  have hrun : (Operation.run operations (Selector.new manifest first) state).required =
      ((Operation.run operations (Selector.new manifest second) state).map
        (Operation.reportBy first)).required :=
    Operation.run_withOptions first operations (Selector.new manifest second) state
  obtain ⟨hvalue, hevents⟩ := Logged.mk.inj hrun
  refine ⟨?_, ?_, ?_, ?_, ?_, hevents⟩
  all_goals
    rw [hvalue]
    rfl

/-- Whatever the options, a chain gives the same answers and leaves the same selection, failure and
manifest, a patch set gives the same count or failure and leaves the same manifest, and the logs are
the same but for the events whose texts begin with one of two phrases. -/
theorem affect_only_diagnostics (first second : SelectorOptions) (manifest : Manifest) :
    (∀ {σ : Type} (operations : List (Operation σ)) (state : σ),
      Agree (Operation.run operations (Selector.new manifest first) state)
        (Operation.run operations (Selector.new manifest second) state)) ∧
      (∀ patches : List Patch,
        let one := PatchSet.apply ⟨first, patches⟩ manifest
        let other := PatchSet.apply ⟨second, patches⟩ manifest
        one.value = other.value ∧
          one.events.filter (!·.isOptional) = other.events.filter (!·.isOptional)) ∧
      ∀ event : Event, event.isOptional = true ↔
        Starts "Skipping " event.message ∨ Starts "Matches for " event.message :=
  ⟨fun operations state => agree_run first second manifest operations state,
    fun patches => Logged.mk.inj (PatchSet.apply_required first second patches manifest),
    Event.isOptional_iff_message⟩

/-- A selector that reports everything reports a list of matches and a skipped call more. -/
example :
    let manifest := (Manifest.new "m").withGroup
      ((InstanceGroup.new "g").withJob (Job.new "a" "r"))
    let operations : List (Operation Unit) := [.locate "a", .locate "b", .getValue "x"]
    let failure : Failure := .entityNotFound "b"
    (Operation.run operations (Selector.new manifest .quiet) ()).events =
        [.located 1 "a", .chainFailed failure] ∧
      (Operation.run operations (Selector.new manifest ⟨true, true⟩) ()).events =
        [.located 1 "a", .matchesFound "a" [⟨0, 0⟩], .chainFailed failure,
          .callSkipped .getValue failure] := by
  decide +kernel

end SelectorOptions

end PropertyTree
