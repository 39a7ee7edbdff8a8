import PropertyTree.Proofs.ChainFailure

/-!
# What one operation does to the jobs

Searches, reads and edits of the selection leave a manifest as it is but for jobs that they rewrite
in their place (`Manifest.Rewritten`).  `Operation.apply_rewritten` says which jobs these are, those
at recorded positions, and what they become: each is rewritten once, starting from what it was
before the call, by what `Operation.Patches` says the operation does to a single job.  The loops of
edits and of `forEachSelected` come to this since recorded positions are distinct, so that no turn
of a loop meets the work of an earlier one.

What holds of a job after a call is then read off the relation, without the loops.
-/

namespace PropertyTree

variable {σ : Type}

/-! ## Manifests with rewritten jobs -/

namespace Manifest

/-- The second manifest is the first with some of its jobs rewritten in their place, as a relation
allows for the position and the job. -/
def Rewritten (change : Position → Job → Job → Prop) (m n : Manifest) : Prop :=
  ∃ f : Position → Job → Job, n = m.mapJobs f ∧
    ∀ p job, m.job? p = some job → f p job = job ∨ change p job (f p job)

variable {m n : Manifest} {change : Position → Job → Job → Prop} {p : Position}

lemma Rewritten.refl (change : Position → Job → Job → Prop) (m : Manifest) :
    m.Rewritten change m :=
  ⟨fun _ job => job, (mapJobs_id m).symm, fun _ _ _ => .inl rfl⟩

lemma Rewritten.mono {change' : Position → Job → Job → Prop} (h : m.Rewritten change n)
    (hchange : ∀ p old new, m.job? p = some old → change p old new → change' p old new) :
    m.Rewritten change' n := by
  obtain ⟨f, hf, hjobs⟩ := h
  exact ⟨f, hf, fun p job hjob => (hjobs p job hjob).imp_right (hchange p job _ hjob)⟩

/-- Afterwards a position holds what it held, or a job rewritten from that. -/
lemma Rewritten.job? (h : m.Rewritten change n) (p : Position) :
    n.job? p = m.job? p ∨
      ∃ old new, m.job? p = some old ∧ n.job? p = some new ∧ change p old new := by
  obtain ⟨f, rfl, hf⟩ := h
  rw [job?_mapJobs]
  cases hjob : m.job? p with
  | none => exact .inl rfl
  | some job =>
    rcases hf p job hjob with hsame | hchange
    · exact .inl (by rw [Option.map_some, hsame])
    · exact .inr ⟨job, f p job, rfl, rfl, hchange⟩

/-! ## The loops -/

/-- Passing the jobs at distinct positions through a function applies it once to each of them, in
some state. -/
lemma visitJobs_eq_mapJobs (f : Job → σ → Job × σ) {positions : List Position}
    (hpositions : positions.Nodup) (manifest : Manifest) (state : σ) :
    ∃ met : Position → σ, (visitJobs f positions (manifest, state)).1 =
      manifest.mapJobs fun p job => if p ∈ positions then (f job (met p)).1 else job := by
  induction positions generalizing manifest state with
  | nil =>
    refine ⟨fun _ => state, ?_⟩
    simp [visitJobs]
  | cons p rest ih =>
    obtain ⟨hp, hrest⟩ := List.nodup_cons.1 hpositions
    cases hjob : manifest.job? p with
    | none =>
      obtain ⟨met, hmet⟩ := ih hrest manifest state
      refine ⟨met, ?_⟩
      rw [visitJobs, hjob]
      refine hmet.trans (mapJobs_congr fun q job hq => ?_)
      have hne : q ≠ p := by rintro rfl; cases hjob.symm.trans hq
      simp [hne]
    | some job =>
      obtain ⟨met, hmet⟩ := ih hrest (manifest.setJob p (f job state).1) (f job state).2
      refine ⟨fun q => if q = p then state else met q, ?_⟩
      rw [visitJobs, hjob]
      refine hmet.trans ?_
      rw [setJob_eq_mapJobs, mapJobs_mapJobs]
      refine mapJobs_congr fun q old hold => ?_
      by_cases hq : q = p
      · subst hq
        obtain rfl : job = old := Option.some.inj (hjob.symm.trans hold)
        simp [hp]
      · simp [hq]

end Manifest

namespace Selector

variable {s : Selector}

/-- An edit of properties rewrites jobs at recorded positions by the walk over their properties. -/
lemma edit_rewritten (h : s.failure = none) (hpositions : s.positions.Nodup) (pathText : String)
    (vivify : Bool) {act : Path → Action Unit} (hact : ∀ path, Value.Restrained (act path)) :
    s.manifest.Rewritten
      (fun p old new => p ∈ s.positions ∧ ∃ path, Path.ofText? pathText = some path ∧
        new = { old with properties := (old.properties.visit path vivify (act path)).node })
      (s.edit pathText vivify act).value.manifest := by
  by_cases hempty : pathText = ""
  · rw [hempty, edit_pathless h]
    exact .refl _ _
  obtain ⟨path, hpath⟩ := Path.exists_of_ne_empty hempty
  by_cases hselected : s.positions = []
  · rw [edit_unselected h hpath hselected]
    exact .refl _ _
  obtain ⟨done, rest, hsplit, -, hmanifest, -⟩ :=
    Manifest.editJobs_spec vivify (hact path) hpositions s.manifest
  rw [edit_selected h hpath hselected]
  refine ⟨_, hmanifest, fun p job _ => ?_⟩
  split
  case isFalse => exact .inl rfl
  case isTrue hdone =>
    obtain ⟨e, he, rfl⟩ := List.mem_map.1 hdone
    have hmem : e ∈ s.manifest.jobsAt s.positions := hsplit ▸ List.mem_append_left rest he
    exact .inr ⟨(Manifest.mem_of_mem_jobsAt hmem).1, path, hpath, rfl⟩

/-- A function is applied once to every selected job, in some state. -/
lemma forEachSelected_eq_mapJobs (h : s.failure = none) (hpositions : s.positions.Nodup)
    (f : Job → σ → Job × σ) (state : σ) :
    ∃ met : Position → σ, (s.forEachSelected f state).value.1.manifest =
      s.manifest.mapJobs fun p job => if p ∈ s.positions then (f job (met p)).1 else job := by
  obtain ⟨met, hmet⟩ := Manifest.visitJobs_eq_mapJobs f hpositions s.manifest state
  refine ⟨met, ?_⟩
  rw [forEachSelected, h]
  exact hmet

end Selector

/-! ## One operation -/

namespace Operation

/-- What an operation on the selected jobs can make of one of them.  Its function may meet any
state. -/
def Patches : Operation σ → Job → Job → Prop
  | addProperty pathText value, old, new => ∃ path, Path.ofText? pathText = some path ∧
      new = { old with properties := (old.properties.setAt path true value).node }
  | removeProperty pathText, old, new => ∃ path, Path.ofText? pathText = some path ∧
      new = { old with properties := (old.properties.removeAt path false).node }
  | forEachSelected f, old, new => ∃ state, new = (f old state).1
  | locate _, _, _ | locateInGroup .., _, _ | addVariable _, _, _ | getTyped .., _, _
  | getValue _, _, _ | get .., _, _ | forEachGroup _, _, _ => False

/-- Operations that leave the variables and all of the groups but their jobs alone. -/
def worksOnJobs : Operation σ → Bool
  | addVariable _ | forEachGroup _ => false
  | locate _ | locateInGroup .. | addProperty .. | removeProperty _ | getTyped .. | getValue _
  | get .. | forEachSelected _ => true

variable {s : Selector}

/-- An operation rewrites jobs at recorded positions, each once, and leaves the rest of the manifest
alone. -/
theorem apply_rewritten (hpositions : s.positions.Nodup) {operation : Operation σ}
    (hoperation : operation.worksOnJobs = true) (state : σ) :
    s.manifest.Rewritten (fun p old new => p ∈ s.positions ∧ operation.Patches old new)
      (operation.apply s state).value.2.1.manifest := by
  cases h : s.failure with
  | some failure =>
    rw [apply_of_failure h]
    exact .refl _ _
  | none =>
    cases operation with
    | locate name | locateInGroup group name =>
      simp only [apply, Logged.map, Selector.locate, Selector.locateInGroup,
        Selector.perform_of_none h, Selector.manifest_select]
      exact .refl _ _
    | addProperty pathText value =>
      simp only [apply, Logged.map, Selector.addProperty, Selector.perform_of_none h]
      exact Selector.edit_rewritten h hpositions pathText true fun _ => Value.restrained_set _ _ _
    | removeProperty pathText =>
      simp only [apply, Logged.map, Selector.removeProperty, Selector.perform_of_none h]
      have hrewritten := Selector.edit_rewritten h hpositions pathText false fun path =>
        (Value.restrained_remove path.last path.text).forgetful
      simp only [(Value.visit_forgetful _ _ _ _).2] at hrewritten
      exact hrewritten
    | getTyped type pathText | getValue pathText | get type pathText =>
      rw [(apply_of_isRead rfl s state).1]
      exact .refl _ _
    | forEachSelected f =>
      obtain ⟨met, hmet⟩ := Selector.forEachSelected_eq_mapJobs h hpositions f state
      refine ⟨_, hmet, fun p job _ => ?_⟩
      split
      case isTrue hp => exact .inr ⟨hp, met p, rfl⟩
      case isFalse => exact .inl rfl
    | addVariable v | forEachGroup f => cases hoperation

end Operation

end PropertyTree
