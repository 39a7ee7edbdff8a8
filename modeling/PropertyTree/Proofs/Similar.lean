import Mathlib.Data.List.Forall2
import Mathlib.Data.List.Perm.Basic
import PropertyTree.Proofs.WellFormed

/-!
# Similar trees

Two trees are `Similar` if they differ only in how their mappings are kept: a string-keyed mapping
on one side may be an any-keyed mapping on the other, and entries may come in another order.  Such
pairs arise all the time, because a walk that vivifies makes any-keyed mappings where reading the
same tree back from a text makes string-keyed ones.

Everything the library does to a tree it does through a few operations on a node, and each of them
takes similar nodes to similar nodes, as long as both are well-formed: looking up a child
(`Similar.child?`), storing one (`Similar.setChild`), dropping one (`Similar.eraseChild`), and
searching a sequence (`firstAnswer_similar`).  In each case the entries of the two mappings are
paired off after a permutation, and `Matched` collects what can be done with such a pairing.
-/

namespace PropertyTree

/-! ## Lists that correspond item by item -/

section Forall₂

variable {α β : Type} {R : α → β → Prop} {as : List α} {bs : List β}

lemma optionRel_cases {a : Option α} {b : Option β} (h : Option.Rel R a b) :
    (a = none ∧ b = none) ∨ ∃ x y, a = some x ∧ b = some y ∧ R x y := by
  cases h with
  | none => exact .inl ⟨rfl, rfl⟩
  | some hxy => exact .inr ⟨_, _, rfl, rfl, hxy⟩

lemma forall₂_getElem? (h : List.Forall₂ R as bs) (i : Nat) : Option.Rel R as[i]? bs[i]? := by
  induction h generalizing i with
  | nil => exact .none
  | cons hab _ ih =>
    cases i with
    | zero => exact .some hab
    | succ i => exact ih i

lemma forall₂_modify {f : α → α} {g : β → β} (h : List.Forall₂ R as bs)
    (hfg : ∀ a b, R a b → R (f a) (g b)) (i : Nat) :
    List.Forall₂ R (as.modify i f) (bs.modify i g) := by
  induction h generalizing i with
  | nil => simp
  | cons hab hrest ih =>
    cases i with
    | zero => exact .cons (hfg _ _ hab) hrest
    | succ i => exact .cons hab (ih i)

lemma forall₂_set {a : α} {b : β} (h : List.Forall₂ R as bs) (hab : R a b) (i : Nat) :
    List.Forall₂ R (as.set i a) (bs.set i b) := by
  rw [List.set_eq_modify, List.set_eq_modify]
  exact forall₂_modify h (fun _ _ _ => hab) i

lemma forall₂_exists_of_mem {a : α} (h : List.Forall₂ R as bs) (ha : a ∈ as) :
    ∃ b ∈ bs, R a b := by
  induction h with
  | nil => cases ha
  | @cons a' b as bs hab _ ih =>
    rcases List.mem_cons.1 ha with rfl | ha
    · exact ⟨b, List.mem_cons_self, hab⟩
    · obtain ⟨b', hb', hab'⟩ := ih ha
      exact ⟨b', List.mem_cons_of_mem b hb', hab'⟩

end Forall₂

namespace Value

/-! ## The relation -/

/-- Entries under the same key, up to equality of keys, with related values. -/
inductive SameKey (R : Value → Value → Prop) : Value × Value → Value × Value → Prop
  | mk {k l x y : Value} (keys : k = l ∨ k.equal l = true) (values : R x y) :
      SameKey R (k, x) (l, y)

/-- Trees with the same scalars, with similar items in the same order, and with similar values under
the same keys, whatever the order of the entries and the kind of the mapping. -/
inductive Similar : Value → Value → Prop
  | scalar (s : Scalar) : Similar (scalar s) (scalar s)
  | seq {as bs : List Value} (items : List.Forall₂ Similar as bs) : Similar (seq as) (seq bs)
  | mapping {a b : Value} {xs ys zs : Table} (left : a.entries? = some xs)
      (right : b.entries? = some ys) (order : ys.Perm zs)
      (entries : List.Forall₂ (SameKey Similar) xs zs) : Similar a b

/-- Two tables pair off after a permutation. -/
def Matched (R : Value → Value → Prop) (xs ys : Table) : Prop :=
  ∃ zs, ys.Perm zs ∧ List.Forall₂ (SameKey R) xs zs

theorem Similar.refl (a : Value) : Similar a a := by
  induction a using byChildren with
  | scalar s => exact .scalar s
  | seq items ih => exact .seq (List.forall₂_same.2 ih)
  | strMap fields ih =>
    refine .mapping rfl rfl (.refl _) (List.forall₂_same.2 fun e he => ?_)
    obtain ⟨f, hf, rfl⟩ := List.mem_map.1 he
    exact .mk (.inl rfl) (ih f hf)
  | anyMap entries ih =>
    exact .mapping rfl rfl (.refl _) (List.forall₂_same.2 fun e he => .mk (.inl rfl) (ih e he).2)

/-! ## Tables that pair off -/

section Matched

variable {R : Value → Value → Prop} {e f : Value × Value} {xs xs' ys ys' : Table} {key : String}

/-- A string key is the same on both sides. -/
lemma SameKey.text_iff (h : SameKey R e f) (key : String) : e.1 = text key ↔ f.1 = text key := by
  cases h with
  | mk keys _ =>
    rcases keys with rfl | hequal
    · exact Iff.rfl
    · constructor
      · rintro rfl
        exact (text_equal_iff key _).1 hequal
      · rintro rfl
        exact (equal_text_iff _ key).1 hequal

lemma Matched.perm (h : Matched R xs ys) (hx : xs.Perm xs') (hy : ys.Perm ys') :
    Matched R xs' ys' := by
  obtain ⟨zs, hperm, hforall⟩ := h
  obtain ⟨ws, hforall', hperm'⟩ := List.perm_comp_forall₂ hx.symm hforall
  exact ⟨ws, hy.symm.trans (hperm.trans hperm'.symm), hforall'⟩

lemma Matched.cons (h : Matched R xs ys) (hef : SameKey R e f) : Matched R (e :: xs) (f :: ys) := by
  obtain ⟨zs, hperm, hforall⟩ := h
  exact ⟨f :: zs, hperm.cons f, .cons hef hforall⟩

lemma Matched.filter (h : Matched R xs ys) (key : String) :
    Matched R (xs.filter fun e => e.1 ≠ text key) (ys.filter fun e => e.1 ≠ text key) := by
  obtain ⟨zs, hperm, hforall⟩ := h
  refine ⟨zs.filter fun e => e.1 ≠ text key, hperm.filter _, ?_⟩
  refine List.rel_filter (fun e f hef => ?_) hforall
  simpa using not_congr (hef.text_iff key)

/-- What is under a string key on the left is matched on the right. -/
lemma Matched.exists_right {x : Value} (h : Matched R xs ys) (hx : (text key, x) ∈ xs) :
    ∃ y, (text key, y) ∈ ys ∧ R x y := by
  obtain ⟨zs, hperm, hforall⟩ := h
  obtain ⟨⟨l, y⟩, hmem, hsame⟩ := forall₂_exists_of_mem hforall hx
  obtain rfl : l = text key := (hsame.text_iff key).1 rfl
  cases hsame with
  | mk _ hxy => exact ⟨y, hperm.mem_iff.2 hmem, hxy⟩

lemma Matched.exists_left {y : Value} (h : Matched R xs ys) (hy : (text key, y) ∈ ys) :
    ∃ x, (text key, x) ∈ xs ∧ R x y := by
  obtain ⟨zs, hperm, hforall⟩ := h
  have hflip := List.Forall₂.flip (R := flip (SameKey R)) hforall
  obtain ⟨⟨k, x⟩, hmem, hsame⟩ := forall₂_exists_of_mem hflip (hperm.mem_iff.1 hy)
  have hsame : SameKey R (k, x) (text key, y) := hsame
  obtain rfl : k = text key := (hsame.text_iff key).2 rfl
  cases hsame with
  | mk _ hxy => exact ⟨x, hmem, hxy⟩

end Matched

/-! ## Similar nodes -/

section Nodes

variable {a b x y : Value} {xs ys : Table}

lemma Similar.matched (h : Similar a b) (ha : a.entries? = some xs) (hb : b.entries? = some ys) :
    Matched Similar xs ys := by
  cases h with
  | scalar _ | seq _ => cases ha
  | @mapping _ _ xs' ys' zs left right order entries =>
    obtain rfl : xs' = xs := Option.some.inj (left.symm.trans ha)
    obtain rfl : ys' = ys := Option.some.inj (right.symm.trans hb)
    exact ⟨zs, order, entries⟩

lemma Matched.similar (h : Matched Similar xs ys) (ha : a.entries? = some xs)
    (hb : b.entries? = some ys) : Similar a b := by
  obtain ⟨zs, order, entries⟩ := h
  exact .mapping ha hb order entries

lemma Similar.isMapping_eq (h : Similar a b) : a.isMapping = b.isMapping := by
  cases h with
  | scalar _ | seq _ => rfl
  | mapping left right => rw [isMapping_of_entries left, isMapping_of_entries right]

/-- Only containers can be similar without being equal. -/
lemma Similar.eq_or_containers (h : Similar a b) :
    a = b ∨ a.isContainer = true ∧ b.isContainer = true := by
  cases h with
  | scalar _ => exact .inl rfl
  | seq _ => exact .inr ⟨rfl, rfl⟩
  | mapping left right =>
    exact .inr ⟨isContainer_of_isMapping (isMapping_of_entries left),
      isContainer_of_isMapping (isMapping_of_entries right)⟩

lemma Similar.isContainer_eq (h : Similar a b) : a.isContainer = b.isContainer := by
  rcases h.eq_or_containers with rfl | ⟨ha, hb⟩
  · rfl
  · rw [ha, hb]

lemma Similar.isNull_eq (h : Similar a b) : a.isNull = b.isNull := by
  rcases h.eq_or_containers with rfl | ⟨ha, hb⟩
  · rfl
  · rw [isNull_of_isContainer ha, isNull_of_isContainer hb]

lemma Similar.text?_eq (h : Similar a b) : a.text? = b.text? := by
  rcases h.eq_or_containers with rfl | ⟨ha, hb⟩
  · rfl
  · rw [text?_of_isContainer ha, text?_of_isContainer hb]

/-- A null node is similar to itself only. -/
lemma Similar.walkRoot (h : Similar a b) (vivify : Bool) :
    Similar (walkRoot vivify a) (walkRoot vivify b) := by
  have hnull := h.isNull_eq
  unfold Value.walkRoot
  rw [hnull]
  split
  case isTrue => exact .refl _
  case isFalse => exact h

/-! ## The operations on a node -/

/-- Children under the same string key are similar, if there are any. -/
theorem Similar.child? (h : Similar a b) (ha : a.WellFormed) (hb : b.WellFormed) (key : String) :
    Option.Rel Similar (a.child? key) (b.child? key) := by
  by_cases hmapping : a.isMapping = true
  case neg =>
    have hmapping : a.isMapping = false := by simpa using hmapping
    have hmapping' : b.isMapping = false := by rw [← h.isMapping_eq, hmapping]
    rw [child?_of_not_mapping hmapping, child?_of_not_mapping hmapping']
    exact .none
  case pos =>
    obtain ⟨xs, hxs⟩ := exists_entries hmapping
    obtain ⟨ys, hys⟩ := exists_entries (h.isMapping_eq ▸ hmapping)
    have hmatched := h.matched hxs hys
    cases hx : a.child? key with
    | some x =>
      obtain ⟨y, hy, hxy⟩ := hmatched.exists_right ((child?_eq_some_iff ha hxs).1 hx)
      rw [(child?_eq_some_iff hb hys).2 hy]
      exact .some hxy
    | none =>
      cases hy : b.child? key with
      | none => exact .none
      | some y =>
        -- what the right side has, the left side has too
        obtain ⟨x, hmem, -⟩ := hmatched.exists_left ((child?_eq_some_iff hb hys).1 hy)
        rw [(child?_eq_some_iff ha hxs).2 hmem] at hx
        cases hx

theorem Similar.setChild (h : Similar a b) (ha : a.WellFormed) (hb : b.WellFormed)
    (hmapping : a.isMapping = true) (hxy : Similar x y) (key : String) :
    Similar (a.setChild key x) (b.setChild key y) := by
  obtain ⟨xs, hxs⟩ := exists_entries hmapping
  obtain ⟨ys, hys⟩ := exists_entries (h.isMapping_eq ▸ hmapping)
  obtain ⟨xs', hxs', hpermx⟩ := entries_setChild ha hxs key x
  obtain ⟨ys', hys', hpermy⟩ := entries_setChild hb hys key y
  have hrest := (h.matched hxs hys).filter key
  have hall := hrest.cons (.mk (.inl rfl) hxy : SameKey Similar (text key, x) (text key, y))
  exact (hall.perm hpermx.symm hpermy.symm).similar hxs' hys'

theorem Similar.eraseChild (h : Similar a b) (ha : a.WellFormed) (hb : b.WellFormed)
    (hmapping : a.isMapping = true) (key : String) :
    Similar (a.eraseChild key) (b.eraseChild key) := by
  obtain ⟨xs, hxs⟩ := exists_entries hmapping
  obtain ⟨ys, hys⟩ := exists_entries (h.isMapping_eq ▸ hmapping)
  have hrest := (h.matched hxs hys).filter key
  exact hrest.similar (entries_eraseChild ha hxs key) (entries_eraseChild hb hys key)

lemma Similar.answers_eq (h : Similar a b) (ha : a.WellFormed) (hb : b.WellFormed)
    (key value : String) : a.answers key value = b.answers key value := by
  unfold answers
  rcases optionRel_cases (h.child? ha hb key) with ⟨hx, hy⟩ | ⟨x, y, hx, hy, hxy⟩
  · rw [hx, hy]
  · rw [hx, hy, Option.bind_some, Option.bind_some, hxy.text?_eq]

end Nodes

end Value

/-- A search through similar sequences stops at the same index, at similar items. -/
theorem firstAnswer_similar {as bs : List Value} (h : List.Forall₂ Value.Similar as bs)
    (ha : ∀ x ∈ as, x.WellFormed) (hb : ∀ y ∈ bs, y.WellFormed) (key value : String) :
    (firstAnswer key value as = none ∧ firstAnswer key value bs = none) ∨
      ∃ index x y, firstAnswer key value as = some (index, x) ∧
        firstAnswer key value bs = some (index, y) ∧ Value.Similar x y := by
  induction h with
  | nil => exact .inl ⟨rfl, rfl⟩
  | @cons x y as bs hxy _ ih =>
    obtain ⟨hx, has⟩ := List.forall_mem_cons.1 ha
    obtain ⟨hy, hbs⟩ := List.forall_mem_cons.1 hb
    have hanswers := hxy.answers_eq hx hy key value
    rw [firstAnswer, firstAnswer, ← hanswers]
    split
    case isTrue => exact .inr ⟨0, x, y, rfl, rfl, hxy⟩
    case isFalse =>
      rcases ih has hbs with ⟨hnone, hnone'⟩ | ⟨index, x', y', hsome, hsome', hsimilar⟩
      · rw [hnone, hnone']
        exact .inl ⟨rfl, rfl⟩
      · rw [hsome, hsome']
        exact .inr ⟨index + 1, x', y', rfl, rfl, hsimilar⟩

end PropertyTree
