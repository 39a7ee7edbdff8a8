import PropertyTree.Proofs.Similar

/-!
# Walks on similar trees

A walk from one of two similar trees goes the same way as a walk from the other: it enters the same
keys, picks items at the same indices, makes mappings at the same places, and gets stuck at the same
segment for the same reason.  What a failure shows of the tree may differ, since mappings print in
the order and the manner in which they are kept; `Failure.bare` takes that away and keeps everything
else.

What happens at the end of a walk is an action, and `Blind` is what is asked of it: it cannot tell
similar containers apart.  `visit_similar` carries this over to whole paths, and the rest of the
module shows that storing, removing and reading are blind.
-/

namespace PropertyTree

/-! ## Outcomes that agree -/

/-- A failure without the texts and the type that it shows of the tree. -/
def Failure.bare : Failure → Failure
  | queryMismatch path segment _ => queryMismatch path segment ""
  | queryUnmatched path segment _ => queryUnmatched path segment ""
  | typeMismatch path expected _ _ => typeMismatch path expected "" .null
  | failure => failure

/-- Two successes with related results, or two failures that differ only in what they show of the
tree. -/
inductive Agree {α : Type} (R : α → α → Prop) : Except Failure α → Except Failure α → Prop
  | ok {x y : α} (related : R x y) : Agree R (.ok x) (.ok y)
  | error {f g : Failure} (same : f.bare = g.bare) : Agree R (.error f) (.error g)

namespace Agree

variable {α β : Type} {R : α → α → Prop} {o o' : Except Failure α}

lemma exists_of (h : Agree R o o') :
    (∃ x y, o = .ok x ∧ o' = .ok y ∧ R x y) ∨
      ∃ f g, o = .error f ∧ o' = .error g ∧ f.bare = g.bare := by
  cases h with
  | ok hxy => exact .inl ⟨_, _, rfl, rfl, hxy⟩
  | error hfg => exact .inr ⟨_, _, rfl, rfl, hfg⟩

lemma map {S : β → β → Prop} {f : α → β} (h : Agree R o o') (hf : ∀ x y, R x y → S (f x) (f y)) :
    Agree S (o.map f) (o'.map f) := by
  cases h with
  | ok hxy => exact .ok (hf _ _ hxy)
  | error hfg => exact .error hfg

end Agree

/-- Two walks that end alike and leave similar trees. -/
structure Visit.Similar {α : Type} (R : α → α → Prop) (v w : Visit α) : Prop where
  outcome : Agree R v.outcome w.outcome
  node : Value.Similar v.node w.node

namespace Value

/-- An action that cannot tell similar containers apart, and that leaves well-formed containers
well-formed. -/
structure Blind {α : Type} (R : α → α → Prop) (act : Action α) : Prop where
  keeps : ∀ c, c.WellFormed → (act c).2.WellFormed
  agrees : ∀ c d, Similar c d → c.WellFormed → d.WellFormed →
    Agree R (act c).1 (act d).1 ∧ Similar (act c).2 (act d).2

variable {α : Type} {R : α → α → Prop} {act : Action α} {vivify : Bool} {a b : Value}
  {path segment : String}

/-! ## Walking -/

lemma Similar.kind_eq (h : Similar a b) (hmapping : a.isMapping = false) : a.kind = b.kind := by
  cases h with
  | scalar _ | seq _ => rfl
  | mapping left =>
    rw [isMapping_of_entries left] at hmapping
    cases hmapping

lemma isAbsent_eq {o o' : Option Value} (h : Option.Rel Similar o o') :
    isAbsent o = isAbsent o' := by
  cases h with
  | none => rfl
  | some hxy => exact hxy.isNull_eq

/-- A query on similar sequences fails on both or picks similar items at one index. -/
lemma matchQuery_similar {as bs : List Value} (h : Similar (seq as) (seq bs))
    (ha : (seq as).WellFormed) (hb : (seq bs).WellFormed) (path segment : String) :
    (∃ f g, matchQuery path segment as = .error f ∧ matchQuery path segment bs = .error g ∧
      f.bare = g.bare) ∨
    ∃ index x y, matchQuery path segment as = .ok (index, x) ∧
      matchQuery path segment bs = .ok (index, y) ∧ as[index]? = some x ∧ bs[index]? = some y ∧
      Similar x y := by
  have hitems : List.Forall₂ Similar as bs := by
    cases h with
    | seq items => exact items
    | mapping left => cases left
  have hmismatch : (Failure.queryMismatch path segment (displaySequence as)).bare =
      (Failure.queryMismatch path segment (displaySequence bs)).bare := rfl
  cases hform : SegmentClass.ofText segment with
  | key _ | index _ =>
    exact .inl ⟨_, _, by rw [matchQuery, hform], by rw [matchQuery, hform], hmismatch⟩
  | query key value =>
    rcases firstAnswer_similar hitems ha.items hb.items key value with
      ⟨hx, hy⟩ | ⟨index, x, y, hx, hy, hxy⟩
    · have hunmatched : (Failure.queryUnmatched path segment (displaySequence as)).bare =
          (Failure.queryUnmatched path segment (displaySequence bs)).bare := rfl
      exact .inl ⟨_, _, by simp only [matchQuery, hform, hx], by simp only [matchQuery, hform, hy],
        hunmatched⟩
    · exact .inr ⟨index, x, y, matchQuery_eq_ok path hform hx, matchQuery_eq_ok path hform hy,
        (firstAnswer_answers hx).1, (firstAnswer_answers hy).1, hxy⟩

/-- One step through similar mappings, given what holds of the rest of the walk. -/
lemma follow_similar_mapping {rest : List String} (h : Similar a b) (ha : a.WellFormed)
    (hb : b.WellFormed) (hmapping : a.isMapping = true)
    (ih : ∀ x y, Similar x y → x.WellFormed → y.WellFormed →
      (follow path vivify act rest x).Similar R (follow path vivify act rest y)) :
    (follow path vivify act (segment :: rest) a).Similar R
      (follow path vivify act (segment :: rest) b) := by
  have hmapping' : b.isMapping = true := h.isMapping_eq ▸ hmapping
  have hchild := h.child? ha hb segment
  have habsent := isAbsent_eq hchild
  by_cases hmade : (vivify && isAbsent (a.child? segment)) = true
  case pos =>
    obtain ⟨rfl, hmade⟩ : vivify = true ∧ isAbsent (a.child? segment) = true := by
      simpa using hmade
    have hbelow := ih _ _ (.refl (anyMap [])) wellFormed_empty wellFormed_empty
    rw [follow_made act hmapping hmade, follow_made act hmapping' (habsent ▸ hmade)]
    exact ⟨hbelow.outcome, h.setChild ha hb hmapping hbelow.node segment⟩
  case neg =>
    have hmade : (vivify && isAbsent (a.child? segment)) = false := by simpa using hmade
    have hmade' : (vivify && isAbsent (b.child? segment)) = false := by rwa [← habsent]
    -- what both nodes hold under the key, null standing for nothing
    obtain ⟨x, y, hx, hy, hxy⟩ : ∃ x y, (a.child? segment).getD null = x ∧
        (b.child? segment).getD null = y ∧ Similar x y := by
      rcases optionRel_cases hchild with ⟨hx, hy⟩ | ⟨x, y, hx, hy, hxy⟩
      · exact ⟨null, null, by rw [hx]; rfl, by rw [hy]; rfl, .refl null⟩
      · exact ⟨x, y, by rw [hx]; rfl, by rw [hy]; rfl, hxy⟩
    by_cases hopen : x.isContainer = true
    case neg =>
      have hopen : x.isContainer = false := by simpa using hopen
      have hopen' : y.isContainer = false := by rw [← hxy.isContainer_eq, hopen]
      rw [follow_blocked act hmapping hmade (hx ▸ hopen),
        follow_blocked act hmapping' hmade' (hy ▸ hopen'), hx, hy]
      -- nodes that are no containers are similar only if they are equal, so they print alike
      rcases hxy.eq_or_containers with rfl | ⟨hcontainer, -⟩
      · exact ⟨.error rfl, h⟩
      · rw [hopen] at hcontainer
        cases hcontainer
    case pos =>
      have hopen' : y.isContainer = true := by rw [← hxy.isContainer_eq, hopen]
      have hfound : a.child? segment = some x := child?_of_getD hx hopen
      have hfound' : b.child? segment = some y := child?_of_getD hy hopen'
      have hbelow := ih x y hxy (ha.child? hfound) (hb.child? hfound')
      rw [follow_child act hmapping hfound hopen, follow_child act hmapping' hfound' hopen']
      exact ⟨hbelow.outcome, h.setChild ha hb hmapping hbelow.node segment⟩

/-- Walks with a blind action from similar nodes end alike. -/
theorem follow_similar (hact : Blind R act) (path : String) (vivify : Bool)
    (segments : List String) (h : Similar a b) (ha : a.WellFormed) (hb : b.WellFormed) :
    (follow path vivify act segments a).Similar R (follow path vivify act segments b) := by
  induction segments generalizing a b with
  | nil =>
    obtain ⟨houtcome, hnode⟩ := hact.agrees a b h ha hb
    rw [follow, follow]
    exact ⟨houtcome, hnode⟩
  | cons segment rest ih =>
    cases h with
    | scalar s => exact ⟨.error rfl, .scalar s⟩
    | mapping left right order entries =>
      exact follow_similar_mapping (.mapping left right order entries) ha hb
        (isMapping_of_entries left) fun x y => ih
    | @seq as bs items =>
      rcases matchQuery_similar (.seq items) ha hb path segment with
        ⟨f, g, hf, hg, hbare⟩ | ⟨index, x, y, hx, hy, hxat, hyat, hxy⟩
      · simp only [follow, hf, hg]
        exact ⟨.error hbare, .seq items⟩
      · have hbelow := ih hxy (ha.items x (List.mem_of_getElem? hxat))
          (hb.items y (List.mem_of_getElem? hyat))
        simp only [follow, hx, hy]
        exact ⟨hbelow.outcome, .seq (forall₂_set items hbelow.node index)⟩

theorem visit_similar (hact : Blind R act) (path : Path) (vivify : Bool) (h : Similar a b)
    (ha : a.WellFormed) (hb : b.WellFormed) :
    (a.visit path vivify act).Similar R (b.visit path vivify act) :=
  follow_similar hact path.text vivify path.parents (h.walkRoot vivify) (ha.walkRoot vivify)
    (hb.walkRoot vivify)

/-! ## Blind actions -/

/-- Actions that only mappings allow are refused alike by everything else. -/
lemma blind_of_mapping {access : Access}
    (hrefused : ∀ c, c.isMapping = false → act c = (.error (refused access path c), c))
    (hkeeps : ∀ c, c.isMapping = true → c.WellFormed → (act c).2.WellFormed)
    (hagrees : ∀ c d, Similar c d → c.WellFormed → d.WellFormed → c.isMapping = true →
      d.isMapping = true → Agree R (act c).1 (act d).1 ∧ Similar (act c).2 (act d).2) :
    Blind R act where
  keeps c hc := by
    by_cases hmapping : c.isMapping = true
    case pos => exact hkeeps c hmapping hc
    case neg =>
      rw [hrefused c (by simpa using hmapping)]
      exact hc
  agrees c d h hc hd := by
    have hsame := h.isMapping_eq
    by_cases hmapping : c.isMapping = true
    case pos => exact hagrees c d h hc hd hmapping (hsame ▸ hmapping)
    case neg =>
      have hmapping : c.isMapping = false := by simpa using hmapping
      have hkind := h.kind_eq hmapping
      rw [hrefused c hmapping, hrefused d (hsame ▸ hmapping), refused, refused, hkind]
      exact ⟨.error rfl, h⟩

lemma blind_set (segment path : String) {value : Value} (hvalue : value.WellFormed) :
    Blind Eq (set segment path value) := by
  refine blind_of_mapping (fun c hmapping => set_of_not_mapping hmapping segment path value) ?_ ?_
  · intro c hmapping hc
    rw [set_mapping hmapping]
    exact hc.setChild hvalue segment
  · intro c d h hc hd hmapping hmapping'
    rw [set_mapping hmapping, set_mapping hmapping']
    exact ⟨.ok rfl, h.setChild hc hd hmapping (.refl value) segment⟩

lemma blind_remove (segment path : String) :
    Blind (Option.Rel Similar) (remove segment path) := by
  refine blind_of_mapping (fun c hmapping => remove_of_not_mapping hmapping segment path) ?_ ?_
  · intro c hmapping hc
    rw [remove_mapping hmapping]
    exact hc.eraseChild segment
  · intro c d h hc hd hmapping hmapping'
    rw [remove_mapping hmapping, remove_mapping hmapping']
    exact ⟨.ok (h.child? hc hd segment), h.eraseChild hc hd hmapping segment⟩

lemma Blind.forgetful (hact : Blind R act) : Blind Eq (forgetful act) where
  keeps c hc := hact.keeps c hc
  agrees c d h hc hd := by
    obtain ⟨houtcome, hnode⟩ := hact.agrees c d h hc hd
    exact ⟨houtcome.map fun _ _ _ => rfl, hnode⟩

/-- Reading changes nothing, so only the answers have to agree. -/
lemma blind_read {extract : Value → Except Failure α}
    (h : ∀ c d, Similar c d → c.WellFormed → d.WellFormed → Agree R (extract c) (extract d)) :
    Blind R fun container => (extract container, container) where
  keeps _ hc := hc
  agrees c d hcd hc hd := ⟨h c d hcd hc hd, hcd⟩

/-- Look-ups in similar containers find similar nodes, or fail alike. -/
theorem lookup_similar (h : Similar a b) (ha : a.WellFormed) (hb : b.WellFormed)
    (segment path : String) : Agree Similar (a.lookup segment path) (b.lookup segment path) := by
  cases h with
  | scalar s => exact .error rfl
  | mapping left right order entries =>
    have h : Similar a b := .mapping left right order entries
    rw [lookup_mapping (isMapping_of_entries left), lookup_mapping (isMapping_of_entries right)]
    rcases optionRel_cases (h.child? ha hb segment) with ⟨hx, hy⟩ | ⟨x, y, hx, hy, hxy⟩
    · rw [hx, hy]
      exact .ok (.refl null)
    · rw [hx, hy]
      exact .ok hxy
  | @seq as bs items =>
    cases hform : SegmentClass.ofText segment with
    | key _ | query _ _ =>
      simp only [lookup, hform]
      exact .error rfl
    | index digits =>
      have hitem : Option.Rel Similar ((wordIndex? digits.toList).bind (as[·]?))
          ((wordIndex? digits.toList).bind (bs[·]?)) := by
        cases wordIndex? digits.toList with
        | none => exact .none
        | some i => exact forall₂_getElem? items i
      have hlength : as.length = bs.length := items.length_eq
      simp only [lookup, hform]
      rcases optionRel_cases hitem with ⟨hx, hy⟩ | ⟨x, y, hx, hy, hxy⟩
      · rw [hx, hy, hlength]
        exact .error rfl
      · rw [hx, hy]
        exact .ok hxy

lemma extract?_eq (type : PropertyType) (h : Similar a b) : type.extract? a = type.extract? b := by
  rcases h.eq_or_containers with rfl | ⟨ha, hb⟩
  · rfl
  · have hnone : ∀ node : Value, node.isContainer = true → type.extract? node = none := by
      intro node hnode
      cases node with
      | scalar _ => cases hnode
      | seq _ | strMap _ | anyMap _ => rfl
    rw [hnone a ha, hnone b hb]

theorem getScalar_similar (type : PropertyType) (h : Similar a b) (ha : a.WellFormed)
    (hb : b.WellFormed) (segment path : String) :
    Agree Eq (a.getScalar type segment path) (b.getScalar type segment path) := by
  unfold getScalar
  rcases (lookup_similar h ha hb segment path).exists_of with
    ⟨x, y, hx, hy, hxy⟩ | ⟨f, g, hx, hy, hfg⟩
  · have hextract := extract?_eq type hxy
    rw [hx, hy]
    cases hs : type.extract? x with
    | none =>
      simp only [hs, ← hextract]
      exact .error rfl
    | some s =>
      simp only [hs, ← hextract]
      exact .ok rfl
  · rw [hx, hy]
    exact .error hfg

end Value

end PropertyTree
