import PropertyTree.Proofs.SelectorSteps

/-!
# The states of a selector

A state is `Reachable` if some chain of operations leads to it from a new selector.  The operations
may be any, edits by functions included, so jobs may have been renamed, dropped or moved since they
were located, and recorded positions may designate nothing or something else.

One thing such edits cannot spoil is the order of the recorded positions: they come from one search
through the manifest and are never revised, so they strictly increase in every reachable state
(`Reachable.inOrder`), and no job is visited twice by one operation (`Reachable.nodup`).
-/

namespace PropertyTree

/-! ## Positions in order -/

namespace Position

/-- An earlier group, or the same group and an earlier job. -/
def Before (p q : Position) : Prop :=
  p.group < q.group ∨ p.group = q.group ∧ p.job < q.job

lemma Before.ne {p q : Position} (h : p.Before q) : p ≠ q := by
  rintro rfl
  rcases h with h | ⟨-, h⟩ <;> exact Nat.lt_irrefl _ h

end Position

/-- The positions come in the order of the manifest, each once. -/
def InOrder (positions : List Position) : Prop :=
  positions.Pairwise Position.Before

lemma InOrder.nodup {positions : List Position} (h : InOrder positions) : positions.Nodup :=
  List.Pairwise.imp Position.Before.ne h

namespace Manifest

lemma le_of_mem_jobIndices {name : String} {start i : Nat} {jobs : List Job}
    (h : i ∈ jobIndices name start jobs) : start ≤ i := by
  induction jobs generalizing start with
  | nil => simp [jobIndices] at h
  | cons job rest ih =>
    rw [jobIndices] at h
    split at h
    case isFalse =>
      have := ih h
      omega
    case isTrue =>
      rcases List.mem_cons.1 h with rfl | h
      · exact Nat.le_refl _
      · have := ih h
        omega

lemma jobIndices_increasing (name : String) (start : Nat) (jobs : List Job) :
    (jobIndices name start jobs).Pairwise (· < ·) := by
  induction jobs generalizing start with
  | nil => exact .nil
  | cons job rest ih =>
    rw [jobIndices]
    split
    case isFalse => exact ih _
    case isTrue => exact .cons (fun i hi => le_of_mem_jobIndices hi) (ih _)

lemma le_of_mem_findIn {test : InstanceGroup → Bool} {name : String} {start : Nat}
    {groups : List InstanceGroup} {p : Position} (h : p ∈ findIn test name start groups) :
    start ≤ p.group := by
  induction groups generalizing start with
  | nil => simp [findIn] at h
  | cons group rest ih =>
    rw [findIn, List.mem_append] at h
    rcases h with h | h
    · split at h
      case isTrue =>
        obtain ⟨i, -, rfl⟩ := List.mem_map.1 h
        exact Nat.le_refl _
      case isFalse => simp at h
    · have := ih h
      omega

lemma inOrder_findIn (test : InstanceGroup → Bool) (name : String) (start : Nat)
    (groups : List InstanceGroup) : InOrder (findIn test name start groups) := by
  induction groups generalizing start with
  | nil => exact .nil
  | cons group rest ih =>
    have hfirst : InOrder (if test group = true then
        (jobIndices name 0 group.jobs).map (Position.mk start) else []) := by
      split
      case isTrue =>
        refine List.pairwise_map.2 ((jobIndices_increasing name 0 group.jobs).imp ?_)
        intro i j hij
        exact .inr ⟨rfl, hij⟩
      case isFalse => exact .nil
    refine List.pairwise_append.2 ⟨hfirst, ih _, fun p hp q hq => ?_⟩
    have hq : start + 1 ≤ q.group := le_of_mem_findIn hq
    have hp : p.group = start := by
      split at hp
      case isTrue =>
        obtain ⟨i, -, rfl⟩ := List.mem_map.1 hp
        rfl
      case isFalse => simp at hp
    exact .inl (by omega)

/-- A search finds positions in order. -/
theorem inOrder_findJobs (manifest : Manifest) (group? : Option String) (name : String) :
    InOrder (manifest.findJobs group? name) :=
  inOrder_findIn _ _ _ _

end Manifest

/-! ## What an operation does to the selection -/

namespace Selector

variable {s : Selector}

lemma positions_select (s : Selector) (name : String) (positions : List Position) :
    (s.select name positions).value.positions = positions := by
  unfold select
  split
  · rw [positions_fail]
  · rfl

lemma positions_edit (s : Selector) (pathText : String) (vivify : Bool)
    (act : Path → Action Unit) : (s.edit pathText vivify act).value.positions = s.positions := by
  unfold edit
  split
  case h_1 => rw [positions_fail]
  case h_2 =>
    split
    case isTrue => rw [positions_fail]
    case isFalse =>
      simp only
      split
      · rfl
      · rw [positions_fail]

lemma positions_addVariable (s : Selector) (v : Variable) :
    (s.addVariable v).value.positions = s.positions := by
  rcases perform_value s .addVariable _ with h | h
  · rw [addVariable, h]
  · rw [addVariable, h]
    simp only
    split
    · rfl
    · rw [positions_fail]

lemma positions_readJob {α : Type} (s : Selector) (call : Call) (pathText : String)
    (extract : Path → Value → Except Failure α) :
    (s.readJob call pathText extract).value.2.positions = s.positions := by
  unfold readJob
  repeat' split
  all_goals simp_all [Logged.quiet]

lemma positions_read {α : Type} (s : Selector) (call : Call) (pathText : String)
    (extract : Path → Value → Except Failure α) :
    (s.read call pathText extract).value.2.positions = s.positions := by
  have hread := positions_readJob s call pathText extract
  unfold read
  split
  case h_1 => rfl
  case h_2 =>
    simp only
    split
    case h_1 answer s' h => simpa [h] using hread
    case h_2 failure s' h =>
      rw [positions_fail]
      simpa [h] using hread

/-- An operation keeps the selection, or it is a search and replaces it by what it finds. -/
theorem positions_apply {σ : Type} (operation : Operation σ) (s : Selector) (state : σ) :
    (operation.apply s state).value.2.1.positions = s.positions ∨
      ∃ group? name, operation = .search group? name ∧
        (operation.apply s state).value.2.1.positions = s.manifest.findJobs group? name := by
  cases operation with
  | locate name =>
    rcases perform_value s .locate _ with h | h
    · exact .inl (congrArg positions h)
    · exact .inr ⟨none, name, rfl, (congrArg positions h).trans (positions_select _ _ _)⟩
  | locateInGroup group name =>
    rcases perform_value s .locateInGroup _ with h | h
    · exact .inl (congrArg positions h)
    · exact .inr ⟨some group, name, rfl, (congrArg positions h).trans (positions_select _ _ _)⟩
  | addProperty path value =>
    rcases perform_value s .addProperty _ with h | h
    · exact .inl (congrArg positions h)
    · exact .inl ((congrArg positions h).trans (positions_edit _ _ _ _))
  | removeProperty path =>
    rcases perform_value s .removeProperty _ with h | h
    · exact .inl (congrArg positions h)
    · exact .inl ((congrArg positions h).trans (positions_edit _ _ _ _))
  | addVariable v => exact .inl (positions_addVariable s v)
  | getTyped type path => exact .inl (positions_read s _ path _)
  | getValue path => exact .inl (positions_read s _ path _)
  | get type path => exact .inl (positions_read s _ path _)
  | forEachSelected f =>
    refine .inl ?_
    simp only [Operation.apply, Logged.map, forEachSelected]
    split <;> rfl
  | forEachGroup f =>
    refine .inl ?_
    simp only [Operation.apply, Logged.map, forEachGroup]
    split <;> rfl

/-! ## Reachable states -/

/-- The states that chains of operations lead to from a new selector. -/
inductive Reachable : Selector → Prop
  | new (manifest : Manifest) (options : SelectorOptions) : Reachable (new manifest options)
  | step {σ : Type} {s : Selector} (operation : Operation σ) (state : σ) (h : Reachable s) :
      Reachable (operation.apply s state).value.2.1

/-- A chain leads from reachable states to reachable states. -/
theorem Reachable.run {σ : Type} (operations : List (Operation σ)) (h : s.Reachable) (state : σ) :
    (Operation.run operations s state).value.2.1.Reachable := by
  induction operations generalizing s state with
  | nil => exact h
  | cons operation rest ih => exact ih (.step operation state h) _

/-- The recorded positions strictly increase. -/
theorem Reachable.inOrder (h : s.Reachable) : InOrder s.positions := by
  induction h with
  | new => exact .nil
  | step operation state _ ih =>
    rcases positions_apply operation _ state with h | ⟨group?, name, -, h⟩
    · rw [h]
      exact ih
    · rw [h]
      exact Manifest.inOrder_findJobs _ _ _

/-- No job is recorded twice. -/
theorem Reachable.nodup (h : s.Reachable) : s.positions.Nodup :=
  h.inOrder.nodup

end Selector

end PropertyTree
