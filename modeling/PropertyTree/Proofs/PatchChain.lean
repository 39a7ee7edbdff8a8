import Mathlib.Data.List.Induction
import PropertyTree.Proofs.ChainFailure
import PropertyTree.Proofs.Diagnostics

/-!
# Patch sets as chains

A patch set carries out each patch by a selector of its own and stops at the first that fails.  A
chain of operations on a single selector goes on calling after a failure and carries its selection
from one patch to the next.  They come to the same (`apply_spells_chain`), for two reasons.

Every patch begins by locating its jobs, and what it does depends on the manifest alone, as long as
the selector has no failure (`Patch.perform_eq_new`): the old selection is replaced before it is
used.  And after a failure a chain does nothing (`Operation.run_of_failure`), as a patch set does by
returning.

The options of a selector decide what is reported and nothing else (`Patch.perform_withOptions`), so
the chain may have other options than the patch set.
-/

namespace PropertyTree

namespace Patch

variable {s : Selector}

/-! ## One patch -/

/-- A patch replaces the selection before it uses it, so a new selector on the same manifest does
the same. -/
lemma perform_eq_new (patch : Patch) (h : s.failure = none) :
    patch.perform s = patch.perform (Selector.new s.manifest s.options) := by
  have hlocate : patch.locate s = patch.locate (Selector.new s.manifest s.options) := by
    obtain ⟨manifest, positions, failure, options⟩ := s
    obtain rfl : failure = none := h
    unfold locate
    cases patch.group <;> rfl
  rw [perform, perform, hlocate]

/-- The operations that a patch spells. -/
def operations (patch : Patch) : List (Operation Unit) :=
  [match patch.group with
    | some group => .locateInGroup group patch.job
    | none => .locate patch.job,
   match patch.action with
    | .set path value => .addProperty path value
    | .remove path => .removeProperty path]

/-- Carrying out a patch is running its operations. -/
lemma run_operations (patch : Patch) (s : Selector) :
    (Operation.run patch.operations s ()).value.2 = ((patch.perform s).value, ()) := by
  unfold perform locate edit operations
  cases patch.group <;> cases patch.action <;> rfl

end Patch

namespace PatchSet

variable {s : Selector}

/-! ## Patch sets -/

/-- The operations that a patch set spells, on one selector. -/
def operations (set : PatchSet) : List (Operation Unit) :=
  set.patches.flatMap Patch.operations

/-- Applying patches one by one ends as the chain of their operations ends, on any selector that has
no failure. -/
lemma applyFrom_value (options : SelectorOptions) (count before : Nat) (patches : List Patch)
    (h : s.failure = none) :
    (applyFrom options count before patches s.manifest).value =
      ((Operation.run (patches.flatMap Patch.operations) s ()).value.2.1.result,
        (Operation.run (patches.flatMap Patch.operations) s ()).value.2.1.manifest) := by
  induction patches generalizing s before with
  | nil => simp [applyFrom, Operation.run, Logged.quiet, Selector.result, h]
  | cons patch rest ih =>
    have hperform : (patch.perform (Selector.new s.manifest options)).value =
        (patch.perform s).value.withOptions options := by
      rw [patch.perform_eq_new h]
      exact congrArg Logged.value
        (patch.perform_withOptions options (Selector.new s.manifest s.options))
    rw [List.flatMap_cons, Operation.run_append_value, patch.run_operations]
    cases hreached : (patch.perform s).value.failure with
    | some failure =>
      rw [Operation.run_of_failure hreached]
      simp [applyFrom, hperform, Selector.withOptions, hreached, Selector.result]
    | none =>
      rw [← ih (before + 1) hreached]
      simp [applyFrom, hperform, Selector.withOptions, hreached]

lemma apply_value (set : PatchSet) (h : s.failure = none) :
    (set.apply s.manifest).value =
      ((Operation.run set.operations s ()).value.2.1.result.map fun _ => set.patches.length,
        (Operation.run set.operations s ()).value.2.1.manifest) := by
  have hfrom := applyFrom_value set.options set.patches.length 0 set.patches h
  rw [operations, apply]
  split
  case h_1 manifest happlied =>
    rw [happlied] at hfrom
    obtain ⟨hresult, hmanifest⟩ := Prod.mk.inj hfrom
    rw [← hresult, ← hmanifest]
    rfl
  case h_2 failure manifest happlied =>
    rw [happlied] at hfrom
    obtain ⟨hresult, hmanifest⟩ := Prod.mk.inj hfrom
    rw [← hresult, ← hmanifest]
    rfl

/-! ## One patch set after another -/

/-- The outcome of applying a patch set and then, if it succeeded, another to what it left. -/
def applyBoth (first second : PatchSet) (manifest : Manifest) : Except Failure Nat × Manifest :=
  match (first.apply manifest).value with
  | (.ok count, reached) =>
    ((second.apply reached).value.1.map (count + ·), (second.apply reached).value.2)
  | (.error failure, reached) => (.error failure, reached)

lemma operations_append (options : SelectorOptions) (first second : PatchSet) :
    operations ⟨options, first.patches ++ second.patches⟩ =
      first.operations ++ second.operations :=
  List.flatMap_append

lemma apply_append (options : SelectorOptions) (first second : PatchSet) (manifest : Manifest) :
    (apply ⟨options, first.patches ++ second.patches⟩ manifest).value =
      applyBoth first second manifest := by
  have hboth := apply_value (s := Selector.new manifest options)
    ⟨options, first.patches ++ second.patches⟩ rfl
  have hfirst := apply_value (s := Selector.new manifest options) first rfl
  rw [operations_append, Operation.run_append_value] at hboth
  simp only [Selector.new] at hboth hfirst
  rw [hboth, applyBoth, hfirst]
  generalize (Operation.run first.operations _ ()).value.2 = reached
  obtain ⟨reached, -⟩ := reached
  cases hreached : reached.failure with
  | some failure =>
    rw [Operation.run_of_failure hreached]
    simp [Selector.result, hreached, Except.map]
  | none =>
    have hsecond := apply_value second hreached
    simp only [Selector.result, hreached, Except.map, hsecond]
    cases (Operation.run second.operations reached ()).value.2.1.failure with
    | none => simp [List.length_append]
    | some failure => rfl

/-! ## The first patch that fails -/

/-- A patch set stops at a patch: those before it succeed, it fails, and what it left of the
manifest stays, whatever comes after it. -/
structure StopsAt (options : SelectorOptions) (manifest : Manifest) (before : List Patch)
    (patch : Patch) (failure : Failure) : Prop where
  succeeds : (apply ⟨options, before⟩ manifest).value.1 = .ok before.length
  fails : (patch.perform (Selector.new (apply ⟨options, before⟩ manifest).value.2
    options)).value.failure = some failure
  stays : ∀ after : List Patch, (apply ⟨options, before ++ patch :: after⟩ manifest).value =
    (.error failure,
      (patch.perform (Selector.new (apply ⟨options, before⟩ manifest).value.2
        options)).value.manifest)

lemma apply_append_of_ok {options : SelectorOptions} {before : List Patch} {manifest : Manifest}
    (h : (apply ⟨options, before⟩ manifest).value.1 = .ok before.length) (after : List Patch) :
    (apply ⟨options, before ++ after⟩ manifest).value =
      ((apply ⟨options, after⟩ (apply ⟨options, before⟩ manifest).value.2).value.1.map
          (before.length + ·),
        (apply ⟨options, after⟩ (apply ⟨options, before⟩ manifest).value.2).value.2) := by
  rw [apply_append options ⟨options, before⟩ ⟨options, after⟩, applyBoth]
  generalize (apply ⟨options, before⟩ manifest).value = applied at h ⊢
  obtain ⟨outcome, reached⟩ := applied
  obtain rfl : outcome = .ok before.length := h
  rfl

lemma apply_cons_of_failure {options : SelectorOptions} {manifest : Manifest} {patch : Patch}
    {failure : Failure}
    (h : (patch.perform (Selector.new manifest options)).value.failure = some failure)
    (rest : List Patch) :
    (apply ⟨options, patch :: rest⟩ manifest).value =
      (.error failure, (patch.perform (Selector.new manifest options)).value.manifest) := by
  simp [apply, applyFrom, h]

lemma apply_singleton_of_none {options : SelectorOptions} {manifest : Manifest} {patch : Patch}
    (h : (patch.perform (Selector.new manifest options)).value.failure = none) :
    (apply ⟨options, [patch]⟩ manifest).value.1 = .ok 1 := by
  simp [apply, applyFrom, h, Logged.quiet]

/-- A patch set succeeds, or stops at the first of its patches that fails. -/
lemma succeeds_or_stops (options : SelectorOptions) (patches : List Patch) (manifest : Manifest) :
    (apply ⟨options, patches⟩ manifest).value.1 = .ok patches.length ∨
      ∃ before patch after failure, patches = before ++ patch :: after ∧
        StopsAt options manifest before patch failure := by
  induction patches using List.reverseRecOn with
  | nil => exact .inl rfl
  | append_singleton init patch ih =>
    rcases ih with hinit | ⟨before, failing, after, failure, rfl, hstops⟩
    · have happly := apply_append_of_ok hinit
      cases hfailure : (patch.perform (Selector.new
          (apply ⟨options, init⟩ manifest).value.2 options)).value.failure with
      | some failure =>
        refine .inr ⟨init, patch, [], failure, rfl, hinit, hfailure, fun after => ?_⟩
        rw [happly, apply_cons_of_failure hfailure]
        rfl
      | none =>
        left
        rw [happly, apply_singleton_of_none hfailure, List.length_append]
        rfl
    · exact .inr ⟨before, failing, after ++ [patch], failure, by simp, hstops⟩

/-- Applying a patch set comes to the same as one selector running all of its operations.  So patch
sets in a row are applied as one, and nothing after the first patch that fails has an effect. -/
theorem apply_spells_chain (set : PatchSet) (manifest : Manifest) (options : SelectorOptions) :
    let chained := (Operation.run set.operations (Selector.new manifest options) ()).value.2.1
    (set.apply manifest).value =
        (chained.result.map fun _ => set.patches.length, chained.manifest) ∧
      (∀ others : PatchSet, (apply ⟨options, set.patches ++ others.patches⟩ manifest).value =
        applyBoth set others manifest) ∧
      ((set.apply manifest).value.1 = .ok set.patches.length ∨
        ∃ before patch after failure, set.patches = before ++ patch :: after ∧
          StopsAt set.options manifest before patch failure) :=
  ⟨apply_value (s := Selector.new manifest options) set rfl,
    fun others => apply_append options set others manifest,
    succeeds_or_stops set.options set.patches manifest⟩

/-- The second patch finds no job, so the third is not carried out. -/
example :
    let manifest := (Manifest.new "m").withGroup
      ((InstanceGroup.new "g").withJob (Job.new "a" "r"))
    let first : Patch := ⟨"a", none, .set "x" (.scalar (.int 1))⟩
    let last : Patch := ⟨"a", some "g", .remove "x"⟩
    (apply ⟨.quiet, [first, ⟨"b", none, .remove "x"⟩, last]⟩ manifest).value =
      (.error (.entityNotFound "b"), (apply ⟨.quiet, [first]⟩ manifest).value.2) := by
  decide +kernel

end PatchSet

end PropertyTree
