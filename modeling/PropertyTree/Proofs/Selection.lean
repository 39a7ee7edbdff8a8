import PropertyTree.Proofs.RunFrame

/-!
# What is selected

A search records positions, and other operations use them on a manifest that has been edited since.
`Selector.selection_exact` says what the recorded positions are worth.

In every reachable state they are in order, so an operation comes to each job at most once.  Right
after a search they are the positions that hold a job of the name, no more and no less, and the
selected jobs are the jobs of the name in the order of the manifest (`Selector.Finds`); nothing that
was selected before plays a part.  And they stay good: as long as no function edits the manifest,
its frame is kept (`Operation.sameFrame_run`), so each of them goes on holding a job of the name.
-/

namespace PropertyTree

variable {σ : Type}

namespace Selector

variable {s : Selector}

/-- What a search for a name makes of a selector: all jobs of the name are selected, or all of those
in the groups of a name, and they stay selected. -/
structure Finds (s : Selector) (group? : Option String) (name : String) (located : Selector) :
    Prop where
  manifest : located.manifest = s.manifest
  inOrder : InOrder located.positions
  positions : ∀ p, p ∈ located.positions ↔ s.manifest.Holds group? name p
  /-- The selected jobs, in the order of the manifest. -/
  matched : located.matched = (s.manifest.jobsIn group?).filter (·.name = name)
  /-- It is a failure to find nothing, and only that. -/
  failure : located.failure = if located.matched = [] then some (.entityNotFound name) else none
  /-- The positions hold jobs of the name after any operations without a function. -/
  stays : ∀ {σ : Type} (operations : List (Operation σ)) (state : σ),
    (∀ operation ∈ operations, operation.isPlain = true) → ∀ p ∈ located.positions,
      (Operation.run operations located state).value.2.1.manifest.Holds group? name p

/-- Whatever is found is there, so nothing is selected only if nothing is found. -/
lemma matched_eq_nil_iff {located : Selector} {group? : Option String} {name : String}
    (h : ∀ p ∈ located.positions, located.manifest.Holds group? name p) :
    located.matched = [] ↔ located.positions = [] := by
  rw [matched, List.filterMap_eq_nil_iff]
  constructor
  · intro hnone
    refine List.eq_nil_iff_forall_not_mem.2 fun p hp => ?_
    obtain ⟨job, hjob, -⟩ := (h p hp).job?
    cases (hnone p hp).symm.trans hjob
  · intro hnil p hp
    rw [hnil] at hp
    cases hp

/-- A search on a reachable selector without a failure finds what there is to find. -/
lemma finds_search (hs : s.Reachable) (hfailure : s.failure = none) (group? : Option String)
    (name : String) (state : σ) :
    s.Finds group? name ((Operation.search group? name).apply s state).value.2.1 := by
  have hvalue := search_value hfailure group? name state
  have hreachable := Reachable.step (Operation.search group? name) state hs
  generalize ((Operation.search group? name).apply s state).value.2.1 = located at *
  rw [select_value hfailure] at hvalue
  have hmanifest : located.manifest = s.manifest := by rw [hvalue]
  have hpositions : located.positions = s.manifest.findJobs group? name := by rw [hvalue]
  have hholds : ∀ p, p ∈ located.positions ↔ s.manifest.Holds group? name p := fun p => by
    rw [hpositions]
    exact Manifest.mem_findJobs_iff
  refine ⟨hmanifest, hreachable.inOrder, hholds, ?_, ?_, ?_⟩
  · rw [matched, hpositions, hmanifest]
    exact Manifest.filterMap_findJobs s.manifest group? name
  · have hnone : located.matched = [] ↔ located.positions = [] :=
      matched_eq_nil_iff fun p hp => hmanifest ▸ (hholds p).1 hp
    have hrecorded : located.failure =
        if located.positions.isEmpty then some (.entityNotFound name) else none := by
      rw [hvalue]
    simp only [hrecorded, hnone, List.isEmpty_iff]
  · intro τ operations state hplain p hp
    have hframe := Operation.sameFrame_run hreachable hplain state
    rw [hframe.holds_iff, hmanifest]
    exact (hholds p).1 hp

/-- In a reachable state the recorded positions are in order, and operations come to each job at
most once.  Without a failure, a search finds exactly the jobs of a name, whatever was selected
before. -/
theorem selection_exact (hs : s.Reachable) (state : σ) :
    (InOrder s.positions ∧
      ∀ operation : Operation σ, operation.worksOnJobs = true →
        s.manifest.Rewritten (fun p old new => p ∈ s.positions ∧ operation.Patches old new)
          (operation.apply s state).value.2.1.manifest) ∧
      (s.failure = none → ∀ group? name,
        s.Finds group? name ((Operation.search group? name).apply s state).value.2.1) :=
  ⟨⟨hs.inOrder, fun _ hoperation => Operation.apply_rewritten hs.nodup hoperation state⟩,
    fun hfailure group? name => finds_search hs hfailure group? name state⟩

/-- A manifest with two groups of a name, a group without jobs between them, and a job of the same
name in a group of another name. -/
def repeatedGroups : Manifest :=
  let first := ((InstanceGroup.new "g").withJob (Job.new "a" "r")).withJob (Job.new "b" "r")
  let second := ((InstanceGroup.new "g").withJob (Job.new "a" "r")).withJob (Job.new "a" "s")
  let other := (InstanceGroup.new "h").withJob (Job.new "a" "r")
  { Manifest.new "m" with groups := [first, InstanceGroup.new "g", other, second] }

/-- The search replaces what was selected, and goes past the group of another name. -/
theorem selection_exact_repeatedGroups :
    let s := (Operation.run [.locate "b"] (Selector.new repeatedGroups .quiet) ()).value.2.1
    let located := ((Operation.search (some "g") "a").apply s ()).value.2.1
    (s.Reachable ∧ s.failure = none ∧ s.positions = [⟨0, 1⟩]) ∧
      located.positions = [⟨0, 0⟩, ⟨3, 0⟩, ⟨3, 1⟩] ∧ s.Finds (some "g") "a" located := by
  intro s located
  have hs : s.Reachable := (Reachable.new repeatedGroups .quiet).run [.locate "b"] ()
  have hfailure : s.failure = none := by decide +kernel
  exact ⟨⟨hs, hfailure, by decide +kernel⟩, by decide +kernel,
    (selection_exact hs ()).2 hfailure (some "g") "a"⟩

end Selector

end PropertyTree
