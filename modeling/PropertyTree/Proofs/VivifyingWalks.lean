import PropertyTree.Proofs.PathReads
import PropertyTree.Proofs.RoundTrip

/-!
# Walks that read and walks that vivify

One function walks in two modes, and this module compares the modes on the same root and path.  At a
step that a reading walk can take, a vivifying walk takes the same step.  At the first step that it
cannot take, the vivifying walk either makes a mapping, and then all the way to the end is made of
fresh mappings, or it fails in the same way.  `resolve_vivifying` says what this means for the
container, the failure, the tree and the events.

The comparison goes by the three ways in which the parents of a path can be met by a tree
(`leads_or_opens_or_halts`): they lead to a container, they lead to a key that is missing or null,
or they lead to a step that no walk can take.  A null root has a rule of its own, which turns it
into an empty mapping first; every segment is then of the second kind.
-/

namespace PropertyTree

/-- The segments for which events report that a mapping was made, in their order. -/
def vivifiedSegments (events : List Event) : List String :=
  events.filterMap fun
    | .vivified segment => some segment
    | _ => none

/-- The failure of a walk that met a missing or null node. -/
def Failure.MeetsNull (failure : Failure) : Prop :=
  ∃ path segment found, failure = .unsupportedContainer path segment found .null

namespace Value

variable {α : Type} {root node child next last container : Value} {segment path : String}
  {before rest parents : List String} {address A B C : Address} {failure : Failure}

/-! ## The three ways of meeting a path -/

/-- A mapping has nothing but null under a key, so that a walk that vivifies makes a mapping
there. -/
def Opens (node : Value) (segment : String) : Prop :=
  node.Lacks segment ∨ node.Stores segment null

lemma opens_iff : node.Opens segment ↔
    node.isMapping = true ∧ isAbsent (node.child? segment) = true := by
  rw [Opens, lacks_iff, stores_iff]
  constructor
  · rintro (⟨mapping, hnone⟩ | hnull)
    · exact ⟨mapping, by rw [hnone]; rfl⟩
    · exact ⟨isMapping_of_child? hnull, by rw [hnull]; rfl⟩
  · rintro ⟨mapping, habsent⟩
    cases hchild : node.child? segment with
    | none => exact .inl ⟨mapping, rfl⟩
    | some child =>
      rw [hchild] at habsent
      exact .inr (congrArg some (isNull_iff.1 habsent))

/-- Where a mapping is to be made, a reading walk is refused, for a missing or null node. -/
lemma Opens.refuses (h : node.Opens segment) (path : String) :
    Refuses path node segment (.unsupportedContainer path segment "null" .null) :=
  h.elim .missing .closed

lemma Descends.next_ne_null (h : Descends node segment next) : next ≠ null := by
  rintro rfl
  cases h with
  | key _ isOpen => cases isOpen
  | query _ first => cases stores_iff.1 first.answers

lemma Leads.ne_null (h : Leads node parents container) (hnode : node ≠ null) :
    container ≠ null := by
  induction h with
  | here node => exact hnode
  | step first _ ih => exact ih first.next_ne_null

lemma kind_ne_null {s : Scalar} (h : scalar s ≠ null) : s.kind ≠ .null := by
  cases s with
  | null => exact absurd rfl h
  | bool _ | int _ | float _ | text _ => exact Kind.noConfusion

/-- A step that is refused and not opened is refused for another reason than a null node. -/
lemma Refuses.not_meetsNull (h : Refuses path node segment failure) (hnode : node ≠ null)
    (hopens : ¬ node.Opens segment) : ¬ failure.MeetsNull := by
  rintro ⟨path', segment', found, hfailure⟩
  cases h with
  | scalar s =>
    simp only [Failure.unsupportedContainer.injEq] at hfailure
    exact kind_ne_null hnode hfailure.2.2.2
  | closed stored =>
    simp only [Failure.unsupportedContainer.injEq] at hfailure
    refine kind_ne_null ?_ hfailure.2.2.2
    rintro hnull
    exact hopens (.inr (hnull ▸ stored))
  | missing lacks => exact hopens (.inl lacks)
  | noQuery | unanswered => cases hfailure

/-- Parents lead to a container, or to a key where a mapping is to be made, or to a step that is
refused for another reason. -/
theorem leads_or_opens_or_halts (path : String) (hroot : root ≠ null) (parents : List String) :
    (∃ container, Leads root parents container) ∨
      (∃ before segment after last, parents = before ++ segment :: after ∧
        Leads root before last ∧ last.Opens segment) ∨
      ∃ before segment after last failure, parents = before ++ segment :: after ∧
        Leads root before last ∧ Refuses path last segment failure ∧ ¬ last.Opens segment ∧
        ¬ failure.MeetsNull := by
  rcases leads_or_halts path root parents with hleads | ⟨failure, hhalts⟩
  · exact .inl hleads
  · obtain ⟨before, segment, after, last, hparents, hleads, hrefuses⟩ := hhalts
    by_cases hopens : last.Opens segment
    · exact .inr (.inl ⟨before, segment, after, last, hparents, hleads, hopens⟩)
    · have hnot := hrefuses.not_meetsNull (hleads.ne_null hroot) hopens
      exact .inr (.inr ⟨before, segment, after, last, failure, hparents, hleads, hrefuses, hopens,
        hnot⟩)

/-! ## The walk after the steps that both modes take -/

/-- A reading walk and a walk from where it arrives make one walk. -/
lemma Walks.append {vivify : Bool} (h : Walks false node before A last)
    (below : Walks vivify last rest B container) :
    Walks vivify node (before ++ rest) (A ++ B) container := by
  induction h with
  | here node => exact below
  | item form found _ ih => exact .item form found (ih below)
  | child mapping found isOpen _ ih => exact .child mapping found isOpen (ih below)
  | made vivifies => cases vivifies

/-- The steps that a reading walk can take make nothing. -/
lemma Walks.vivifiedSegments_follow (h : Walks false node before A last) (path : String)
    (vivify : Bool) (act : Action α) (rest : List String) :
    vivifiedSegments (follow path vivify act (before ++ rest) node).events =
      vivifiedSegments (follow path vivify act rest last).events := by
  induction h with
  | here node => rfl
  | item form found _ ih =>
    rw [List.cons_append, follow, matchQuery_eq_ok path form found]
    exact ih
  | child mapping found isOpen _ ih =>
    rw [List.cons_append, follow_child act mapping found isOpen]
    exact ih
  | made vivifies => cases vivifies

/-- From an empty mapping, every segment is made. -/
lemma vivifiedSegments_follow_empty (path : String) (act : Action α) (segments : List String) :
    vivifiedSegments (follow path true act segments (anyMap [])).events = segments := by
  induction segments with
  | nil => rfl
  | cons segment rest ih =>
    rw [follow_made act rfl rfl]
    exact congrArg (segment :: ·) ih

/-- From a key where a mapping is to be made, every segment is made. -/
lemma Opens.vivifiedSegments_follow (h : node.Opens segment) (path : String) (act : Action α)
    (rest : List String) :
    vivifiedSegments (follow path true act (segment :: rest) node).events = segment :: rest := by
  obtain ⟨mapping, absent⟩ := opens_iff.1 h
  rw [follow_made act mapping absent]
  exact congrArg (segment :: ·) (vivifiedSegments_follow_empty path act rest)

lemma Opens.walks (h : node.Opens segment) (rest : List String) :
    Walks true node (segment :: rest) ((segment :: rest).map Step.name) (anyMap []) := by
  obtain ⟨mapping, absent⟩ := opens_iff.1 h
  exact .made rfl mapping absent (walks_empty rest)

/-! ## The nodes that are made -/

/-- At an address there is a node that is new: before, there was nothing there but null. -/
def Created (old new : Value) (address : Address) : Prop :=
  isAbsent (old.at? address) = true ∧ isAbsent (new.at? address) = false

lemma not_created_self (node : Value) (B : Address) : ¬ Created node node B := by
  rintro ⟨habsent, hpresent⟩
  exact Bool.false_ne_true (hpresent.symm.trans habsent)

lemma Created.congr {old new old' new' : Value} (hold : old.at? B = old'.at? C)
    (hnew : new.at? B = new'.at? C) : Created old new B ↔ Created old' new' C := by
  rw [Created, Created, hold, hnew]

/-- Along a chain there are its mappings, and nothing else. -/
lemma at?_chain (segments : List String) (C : Address) :
    (chain segments (anyMap [])).at? C =
      if C <+: segments.map Step.name then some (chain (segments.drop C.length) (anyMap []))
      else none := by
  induction C generalizing segments with
  | nil => rw [if_pos List.nil_prefix]; rfl
  | cons step C ih =>
    cases segments with
    | nil =>
      have hnone : (anyMap []).childAt? step = none := by cases step <;> rfl
      rw [at?_cons, chain, hnone]
      exact (if_neg (by simp)).symm
    | cons s rest =>
      have hchild : (chain (s :: rest) (anyMap [])).childAt? step =
          if step = .name s then some (chain rest (anyMap [])) else none := by
        have hnone : (anyMap []).childAt? step = none := by cases step <;> rfl
        rw [← hnone]
        exact @childAt?_setChild (anyMap []) rfl s (chain rest (anyMap [])) step
      simp only [at?_cons, hchild, List.map_cons, List.cons_prefix_cons]
      by_cases hstep : step = .name s
      · simp only [hstep, if_true, true_and, Option.bind_some, ih, List.length_cons,
          List.drop_succ_cons]
      · simp only [hstep, if_false, false_and, Option.bind_none]

lemma isAbsent_chain (segments : List String) :
    isAbsent (some (chain segments (anyMap []))) = false := by
  cases segments <;> rfl

/-- Below nothing and below null there is nothing but null. -/
lemma isAbsent_bind_at? {child : Option Value} (h : isAbsent child = true) (C : Address) :
    isAbsent (child.bind (at? · C)) = true := by
  cases child with
  | none => rfl
  | some child =>
    obtain rfl : child = null := isNull_iff.1 h
    cases C with
    | nil => rfl
    | cons step rest => rw [Option.bind_some, (at?_below_null (List.cons_ne_nil _ _)).1]; rfl

/-- A chain put under a key that held nothing but null is what is new. -/
lemma created_setChild_iff (h : node.Opens segment) (hC : C ≠ []) :
    Created node (node.setChild segment (chain rest (anyMap []))) C ↔
      C <+: (segment :: rest).map Step.name := by
  obtain ⟨mapping, absent⟩ := opens_iff.1 h
  obtain ⟨step, C, rfl⟩ := List.exists_cons_of_ne_nil hC
  rw [List.map_cons, List.cons_prefix_cons]
  have hchild := childAt?_setChild mapping segment (chain rest (anyMap [])) step
  by_cases hstep : step = .name segment
  case neg =>
    rw [if_neg hstep] at hchild
    have hsame : (node.setChild segment (chain rest (anyMap []))).at? (step :: C) =
        node.at? (step :: C) := by rw [at?_cons, at?_cons, hchild]
    rw [Created.congr rfl hsame]
    exact iff_of_false (not_created_self node _) fun hchain => hstep hchain.1
  case pos =>
    rw [if_pos hstep] at hchild
    have habsent : isAbsent (node.at? (step :: C)) = true := by
      rw [at?_cons, hstep, childAt?_name]
      exact isAbsent_bind_at? absent C
    have hnew : (node.setChild segment (chain rest (anyMap []))).at? (step :: C) =
        (chain rest (anyMap [])).at? C := by rw [at?_cons, hchild, Option.bind_some]
    rw [Created, hnew, at?_chain]
    by_cases hchain : C <+: rest.map Step.name
    · rw [if_pos hchain]
      exact iff_of_true ⟨habsent, isAbsent_chain _⟩ ⟨hstep, hchain⟩
    · rw [if_neg hchain]
      exact iff_of_false (fun h => Bool.noConfusion h.2) fun h => hchain h.2

/-- On the way to a node that is there, there are nodes. -/
lemma isAbsent_of_at?_append (h : node.at? (B ++ C) = some last) (hlast : last ≠ null) :
    isAbsent (node.at? B) = false := by
  by_contra habsent
  have hbelow := isAbsent_bind_at? (by simpa using habsent) C
  rw [← at?_append, h] at hbelow
  exact hlast (isNull_iff.1 hbelow)

/-- The tree after mappings were made from a key on, at the address where the key was met. -/
lemma Walks.put_made (h : Walks false node before A last) (hopens : last.Opens segment)
    (rest : List String) :
    node.put (A ++ (segment :: rest).map Step.name) (anyMap []) =
      node.put A (last.setChild segment (chain rest (anyMap []))) := by
  rw [h.put_append, List.map_cons, put_name, slot, opened_of_absent (opens_iff.1 hopens).2,
    put_names]

/-- The new nodes are the mappings that were made. -/
theorem Walks.created_iff (h : Walks false node before A last) (hopens : last.Opens segment)
    (rest : List String) (B : Address) :
    Created node (node.put (A ++ (segment :: rest).map Step.name) (anyMap [])) B ↔
      ∃ C, C ≠ [] ∧ C <+: (segment :: rest).map Step.name ∧ B = A ++ C := by
  rw [h.put_made hopens]
  have hwritable := h.writable_self
  have hlast := h.of_read.1
  have hself := at?_put_self hwritable (last.setChild segment (chain rest (anyMap [])))
  by_cases hbelow : ∃ C, C ≠ [] ∧ B = A ++ C
  case pos =>
    obtain ⟨C, hC, rfl⟩ := hbelow
    have hold : node.at? (A ++ C) = last.at? C := by rw [at?_append, hlast, Option.bind_some]
    have hnew : (node.put A (last.setChild segment (chain rest (anyMap [])))).at? (A ++ C) =
        (last.setChild segment (chain rest (anyMap []))).at? C := by
      rw [at?_append, hself, Option.bind_some]
    rw [Created.congr hold hnew, created_setChild_iff hopens hC]
    constructor
    · exact fun hchain => ⟨C, hC, hchain, rfl⟩
    · rintro ⟨C', -, hchain, heq⟩
      rwa [List.append_cancel_left heq]
  case neg =>
    refine iff_of_false ?_ fun ⟨C, hC, _, hB⟩ => hbelow ⟨C, hC, hB⟩
    by_cases hBA : B <+: A
    · -- on the way to the key, the nodes were there before
      obtain ⟨D, rfl⟩ := hBA
      have hne : last ≠ null := by
        rintro rfl
        cases (opens_iff.1 hopens).1
      rintro ⟨habsent, -⟩
      exact Bool.false_ne_true ((isAbsent_of_at?_append hlast hne).symm.trans habsent)
    · have hAB : ¬ A <+: B := by
        rintro ⟨C, rfl⟩
        refine hbelow ⟨C, ?_, rfl⟩
        rintro rfl
        exact hBA (by simp)
      rw [Created.congr rfl (at?_put_of_apart hwritable hAB hBA _)]
      exact not_created_self node B

/-- Each new node is a mapping that holds what is left of the chain. -/
lemma Walks.at?_put_made (h : Walks false node before A last) (hopens : last.Opens segment)
    (hC : C ≠ []) (hchain : C <+: (segment :: rest).map Step.name) :
    (node.put (A ++ (segment :: rest).map Step.name) (anyMap [])).at? (A ++ C) =
      some (chain ((segment :: rest).drop C.length) (anyMap [])) := by
  obtain ⟨step, C, rfl⟩ := List.exists_cons_of_ne_nil hC
  rw [List.map_cons, List.cons_prefix_cons] at hchain
  obtain ⟨rfl, hchain⟩ := hchain
  have hchild := childAt?_setChild (opens_iff.1 hopens).1 segment (chain rest (anyMap []))
    (.name segment)
  rw [if_pos rfl] at hchild
  rw [h.put_made hopens, at?_append, at?_put_self h.writable_self, Option.bind_some, at?_cons,
    hchild, Option.bind_some, at?_chain, if_pos hchain, List.length_cons, List.drop_succ_cons]

/-! ## One walk after the other -/

/-- A walk arrives at a container and at its address: what is done at its end is done to the
container, and what comes of it is written at the address. -/
def ArrivesAt (root : Value) (path : Path) (vivify : Bool) (address : Address)
    (container : Value) : Prop :=
  ∀ {α : Type} (act : Action α), (root.visit path vivify act).outcome = (act container).1 ∧
    (root.visit path vivify act).node = (walkRoot vivify root).put address (act container).2

lemma walkRoot_of_ne_null (h : root ≠ null) (vivify : Bool) : walkRoot vivify root = root :=
  (walkRoot_eq vivify root).elim id fun hnull => absurd hnull.2.1 h

/-- A reading walk is a walk of either mode. -/
lemma Walks.inMode (h : Walks false root parents address container) (hroot : root ≠ null)
    (vivify : Bool) : Walks vivify (walkRoot vivify root) parents address container := by
  rw [walkRoot_of_ne_null hroot]
  cases vivify with
  | false => exact h
  | true => exact h.vivifying

lemma Walks.arrivesAt {path : Path} (h : Walks false root path.parents address container)
    (hroot : root ≠ null) (vivify : Bool) : ArrivesAt root path vivify address container :=
  fun act => follow_of_walks (h.inMode hroot vivify) path.text act

/-- At a key where a mapping is to be made, the reading walk fails and the vivifying walk goes
on. -/
lemma Opens.resolve_eq {path : Path} {after : List String} (h : last.Opens segment)
    (hroot : root ≠ null) (hparents : path.parents = before ++ segment :: after)
    (hleads : Leads root before last) :
    (root.resolve path false).outcome =
        .error (.unsupportedContainer path.text segment "null" .null) ∧
      (root.resolve path true).outcome = .ok (anyMap []) := by
  have hhalts : Halts path.text root path.parents _ :=
    ⟨before, segment, after, last, hparents, hleads, h.refuses path.text⟩
  obtain ⟨address, hwalks⟩ := hleads.exists_walks
  have hall := hwalks.append (h.walks after)
  rw [← hparents, ← walkRoot_of_ne_null hroot true] at hall
  exact ⟨(hhalts.stuck _).1, (follow_of_walks hall path.text _).1⟩

/-- A step that is refused and not opened is where a walk of either mode ends. -/
lemma Refuses.follow_of_not_opens (h : Refuses path node segment failure)
    (hopens : ¬ node.Opens segment) (vivify : Bool) (act : Action α) (rest : List String) :
    follow path vivify act (segment :: rest) node = ⟨.error failure, node, []⟩ := by
  refine h.follow_eq (fun mapping => ?_) act rest
  by_contra hmade
  obtain ⟨-, habsent⟩ : vivify = true ∧ isAbsent (node.child? segment) = true := by
    simpa using hmade
  exact hopens (opens_iff.2 ⟨mapping, habsent⟩)

/-- A walk of either mode that comes to such a step fails, and leaves the tree it started from. -/
lemma Refuses.resolve_eq {path : Path} {after : List String} {vivify : Bool}
    (h : Refuses path.text last segment failure) (hopens : ¬ last.Opens segment)
    (hparents : path.parents = before ++ segment :: after)
    (hleads : Leads (walkRoot vivify root) before last) :
    (root.resolve path vivify).outcome = .error failure ∧
      (root.resolve path vivify).node = walkRoot vivify root ∧
      vivifiedSegments (root.resolve path vivify).events = [] := by
  obtain ⟨address, hwalks⟩ := hleads.exists_walks
  have hstuck : Stuck path.text vivify (before ++ segment :: after) (walkRoot vivify root)
      failure := by
    refine hwalks.stuck fun {α} act => ?_
    rw [h.follow_of_not_opens hopens]
    exact ⟨rfl, rfl⟩
  rw [resolve, visit, hparents, hwalks.vivifiedSegments_follow, h.follow_of_not_opens hopens]
  exact ⟨(hstuck _).1, (hstuck _).2, rfl⟩

/-- How the vivifying walk of a path goes, given how the reading walk goes. -/
structure ExtendsReading (root : Value) (path : Path) : Prop where
  /-- If the reading walk arrives, the vivifying walk arrives at the same place and makes
  nothing. -/
  arrives : ∀ container, (root.resolve path false).outcome = .ok container →
    (root.resolve path true).outcome = .ok container ∧ (root.resolve path true).node = root ∧
    ∃ address, root.at? address = some container ∧
      ∀ vivify, ArrivesAt root path vivify address container
  /-- If nothing or null is in the way of the reading walk, the vivifying walk arrives. -/
  opens : ∀ failure, (root.resolve path false).outcome = .error failure → failure.MeetsNull →
    ∃ container, (root.resolve path true).outcome = .ok container
  /-- If something else is in the way, it is in the way of both. -/
  fails : ∀ failure, (root.resolve path false).outcome = .error failure → ¬ failure.MeetsNull →
    (root.resolve path true).outcome = .error failure ∧ (root.resolve path true).node = root

theorem extendsReading (hroot : root ≠ null) (path : Path) : ExtendsReading root path := by
  rcases leads_or_opens_or_halts path.text hroot path.parents with
    ⟨container, hleads⟩ | ⟨before, segment, after, last, hparents, hleads, hopens⟩ |
    ⟨before, segment, after, last, failure, hparents, hleads, hrefuses, hopens, hnull⟩
  · obtain ⟨address, hwalks⟩ := hleads.exists_walks
    have hread := resolve_of_leads hleads
    have hnofail : ∀ failure, (root.resolve path false).outcome ≠ .error failure := by
      intro failure herror
      cases hread.symm.trans herror
    refine ⟨fun container' hcontainer' => ?_, fun failure h => absurd h (hnofail failure),
      fun failure h => absurd h (hnofail failure)⟩
    obtain rfl : container = container' := by simpa [hread] using hcontainer'
    have harrives := hwalks.arrivesAt hroot
    obtain ⟨houtcome, hnode⟩ := harrives true fun container => (.ok container, container)
    rw [walkRoot_of_ne_null hroot, hwalks.of_read.2] at hnode
    exact ⟨houtcome, hnode, address, hwalks.of_read.1, harrives⟩
  · obtain ⟨hread, hmade⟩ := hopens.resolve_eq hroot hparents hleads
    refine ⟨fun container h => ?_, fun _ _ _ => ⟨_, hmade⟩, fun failure h hnot => ?_⟩
    · cases hread.symm.trans h
    · obtain rfl : _ = failure := Except.error.inj (hread.symm.trans h)
      exact absurd ⟨_, _, _, rfl⟩ hnot
  · have hstops : ∀ vivify, (root.resolve path vivify).outcome = .error failure ∧
        (root.resolve path vivify).node = root := by
      intro vivify
      rw [← walkRoot_of_ne_null hroot vivify] at hleads
      obtain ⟨houtcome, hnode, -⟩ := hrefuses.resolve_eq hopens hparents hleads
      exact ⟨houtcome, hnode.trans (walkRoot_of_ne_null hroot vivify)⟩
    refine ⟨fun container h => ?_, fun failure' h hmeets => ?_, fun failure' h _ => ?_⟩
    · cases (hstops false).1.symm.trans h
    · obtain rfl : failure = failure' := Except.error.inj ((hstops false).1.symm.trans h)
      exact absurd hmeets hnull
    · obtain rfl : failure = failure' := Except.error.inj ((hstops false).1.symm.trans h)
      exact hstops true

/-! ## What a vivifying walk makes -/

/-- What the vivifying walk of a path makes below the root: the mappings of the last parents, from
some parent on, one inside the other. -/
structure MakesRun (root : Value) (path : Path) (before made : List String)
    (address : Address) : Prop where
  parents : path.parents = before ++ made
  /-- The parents before lead through nodes that are there. -/
  walks : ∀ container, (root.resolve path true).outcome = .ok container →
    ∃ last, Walks false (walkRoot true root) before address last
  /-- Events report the segments that are made. -/
  events : vivifiedSegments (root.resolve path true).events = made
  /-- The nodes that are new below the root are on the way of these segments. -/
  created : ∀ B, B ≠ [] → (Created root (root.resolve path true).node B ↔
    ∃ C, C ≠ [] ∧ C <+: made.map Step.name ∧ B = address ++ C)
  /-- Each of them is an any-keyed mapping that holds the next one, and the last is empty. -/
  mappings : ∀ C, C ≠ [] → C <+: made.map Step.name →
    (root.resolve path true).node.at? (address ++ C) =
      some (chain (made.drop C.length) (anyMap []))
  /-- A walk that fails makes nothing. -/
  fails : ∀ failure, (root.resolve path true).outcome = .error failure → made = []

lemma walkRoot_ne_null (root : Value) : walkRoot true root ≠ null := by
  rcases walkRoot_eq true root with hroot | ⟨-, rfl, hroot⟩
  · rintro hnull
    rw [hroot] at hnull
    subst hnull
    cases hroot
  · rw [hroot]
    exact Value.noConfusion

/-- Below the root, the tree that a vivifying walk starts from is the tree that was there. -/
lemma at?_walkRoot (root : Value) (hB : B ≠ []) : (walkRoot true root).at? B = root.at? B := by
  rcases walkRoot_eq true root with hroot | ⟨-, rfl, hroot⟩
  · rw [hroot]
  · rw [hroot, (at?_below_null hB).1, (at?_below_null hB).2]

/-- Nothing is new below the root if the walk leaves the tree it started from. -/
lemma makesRun_nil {path : Path} (hnode : (root.resolve path true).node = walkRoot true root)
    (hevents : vivifiedSegments (root.resolve path true).events = [])
    (hwalks : ∀ container, (root.resolve path true).outcome = .ok container →
      ∃ last, Walks false (walkRoot true root) path.parents address last) :
    MakesRun root path path.parents [] address where
  parents := (List.append_nil _).symm
  walks := hwalks
  events := hevents
  created B hB := by
    rw [hnode, Created.congr rfl (at?_walkRoot root hB)]
    refine iff_of_false (not_created_self root B) ?_
    rintro ⟨C, hC, hchain, -⟩
    exact hC (List.prefix_nil.1 hchain)
  mappings C hC hchain := absurd (List.prefix_nil.1 hchain) hC
  fails _ _ := rfl

/-- From a key where a mapping is to be made, all the segments that are left are made. -/
lemma makesRun_of_opens {path : Path} {after : List String}
    (hparents : path.parents = before ++ segment :: after)
    (hwalks : Walks false (walkRoot true root) before address last) (hopens : last.Opens segment) :
    MakesRun root path before (segment :: after) address := by
  have hall := hwalks.append (hopens.walks after)
  rw [← hparents] at hall
  obtain ⟨houtcome, hnode⟩ := follow_of_walks hall path.text
    fun container => (.ok container, container)
  change (root.resolve path true).outcome = .ok (anyMap []) at houtcome
  change (root.resolve path true).node = _ at hnode
  refine ⟨hparents, fun _ _ => ⟨last, hwalks⟩, ?events, ?created, ?mappings, ?fails⟩
  case events =>
    rw [resolve, visit, hparents, hwalks.vivifiedSegments_follow]
    exact hopens.vivifiedSegments_follow path.text _ after
  case created =>
    intro B hB
    rw [hnode, Created.congr (at?_walkRoot root hB).symm rfl]
    exact hwalks.created_iff hopens after B
  case mappings =>
    intro C hC hchain
    rw [hnode]
    exact hwalks.at?_put_made hopens hC hchain
  case fails =>
    intro failure hfailure
    cases houtcome.symm.trans hfailure

theorem exists_makesRun (root : Value) (path : Path) :
    ∃ before made address, MakesRun root path before made address := by
  rcases leads_or_opens_or_halts path.text (walkRoot_ne_null root) path.parents with
    ⟨container, hleads⟩ | ⟨before, segment, after, last, hparents, hleads, hopens⟩ |
    ⟨before, segment, after, last, failure, hparents, hleads, hrefuses, hopens, -⟩
  · obtain ⟨address, hwalks⟩ := hleads.exists_walks
    refine ⟨path.parents, [], address, makesRun_nil ?_ ?_ fun _ _ => ⟨container, hwalks⟩⟩
    · exact (follow_of_walks hwalks.vivifying path.text _).2.trans hwalks.of_read.2
    · have hevents := hwalks.vivifiedSegments_follow path.text true
        (fun container => (.ok container, container)) []
      rwa [List.append_nil] at hevents
  · obtain ⟨address, hwalks⟩ := hleads.exists_walks
    exact ⟨before, segment :: after, address, makesRun_of_opens hparents hwalks hopens⟩
  · obtain ⟨houtcome, hnode, hevents⟩ := hrefuses.resolve_eq hopens hparents hleads
    refine ⟨path.parents, [], [], makesRun_nil hnode hevents fun container h => ?_⟩
    cases houtcome.symm.trans h

/-! ## The main statement -/

/-- The vivifying walk extends the reading walk.  From a null root it always arrives.  In every
vivifying walk, what is made below the root is a run of mappings that ends at the last parent, and
the events report just this run. -/
theorem resolve_vivifying (root : Value) (path : Path) :
    (root ≠ null → ExtendsReading root path) ∧
      (root = null → ∃ container, (root.resolve path true).outcome = .ok container) ∧
      ∃ before made address, MakesRun root path before made address := by
  refine ⟨fun hroot => extendsReading hroot path, ?_, exists_makesRun root path⟩
  rintro rfl
  obtain ⟨container, hwalks, -⟩ := walks_emptyRoot path.parents
  exact ⟨container, (follow_of_walks hwalks path.text _).1⟩

/-- The reading walk stops at a null; the vivifying walk goes on from there and makes two
mappings. -/
theorem resolve_vivifying_mixed :
    let path : Path := ⟨["routes", "name=x", "tls", "on"], "off"⟩
    mixedTree ≠ null ∧
      (mixedTree.resolve path false).outcome =
        .error (.unsupportedContainer path.text "tls" "null" .null) ∧
      (∃ container, (mixedTree.resolve path true).outcome = .ok container) ∧
      vivifiedSegments (mixedTree.resolve path true).events = ["tls", "on"] := by
  intro path
  have hroot : mixedTree ≠ null := Value.noConfusion
  have hread : (mixedTree.resolve path false).outcome =
      .error (.unsupportedContainer path.text "tls" "null" .null) := by decide +kernel
  have hextends := (resolve_vivifying mixedTree path).1 hroot
  exact ⟨hroot, hread, hextends.opens _ hread ⟨_, _, _, rfl⟩, by decide +kernel⟩

end Value

end PropertyTree
