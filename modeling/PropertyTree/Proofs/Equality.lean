import Mathlib.Data.List.Pairwise
import PropertyTree.Proofs.Similar

/-!
# Equality of values is a partial equivalence

Keys are compared by `Value.equal`, so what a table does depends on the laws of this equality.  It
is symmetric and transitive on well-formed trees, and a tree equals itself exactly if it holds no
number that is not a number.

The laws depend on one another.  Equality of any-keyed mappings is a search, for each entry on the
left, through the entries on the right.  That such a search comes to a one-to-one pairing of entries
(`equal_anyMap_iff_paired`) needs both laws for the keys, which are trees themselves; that the
pairing can be turned round and composed needs them for the values too.  So both laws are shown
together, by induction on a bound for the sizes of all trees at hand, and the step looks at children
only.

`EqualOn` is equality among the trees of a set.  The set is where the induction has got to, and all
well-formed trees at the end.

## Main statements

* `equal_iff_corresponds`: two nodes are equal exactly if their children correspond.
* `equal_symm`, `equal_trans`, `equal_self_iff`: the laws on well-formed trees.
* `equal_partialEquivalence`: all of them, with what equality of any-keyed mappings comes to.
-/

namespace PropertyTree

/-! ## Leaves -/

namespace Double

lemma equal_trans {x y z : Double} (hxy : x.equal y = true) (hyz : y.equal z = true) :
    x.equal z = true := by
  simp only [equal, Bool.and_eq_true, Bool.or_eq_true, Bool.not_eq_true', beq_iff_eq] at hxy hyz ⊢
  obtain ⟨⟨hx, -⟩, hxy⟩ := hxy
  obtain ⟨⟨-, hz⟩, hyz⟩ := hyz
  refine ⟨⟨hx, hz⟩, ?_⟩
  rcases hxy with rfl | ⟨hx, hy⟩
  · exact hyz
  · rcases hyz with rfl | ⟨-, hz⟩
    · exact .inr ⟨hx, hy⟩
    · exact .inr ⟨hx, hz⟩

end Double

namespace Scalar

/-- Leaves are equal if they are the same or are equal numbers. -/
lemma equal_cases {a b : Scalar} (h : a.equal b = true) :
    (∃ x y, a = float x ∧ b = float y ∧ x.equal y = true) ∨
      a = b ∧ ∀ x, a ≠ float x := by
  cases a <;> cases b <;> simp_all [equal]

lemma equal_symm {a b : Scalar} (h : a.equal b = true) : b.equal a = true := by
  rcases equal_cases h with ⟨x, y, rfl, rfl, hxy⟩ | ⟨rfl, -⟩
  · rw [equal, Double.equal_comm]
    exact hxy
  · exact h

lemma equal_trans {a b c : Scalar} (hab : a.equal b = true) (hbc : b.equal c = true) :
    a.equal c = true := by
  rcases equal_cases hab with ⟨x, y, rfl, rfl, hxy⟩ | ⟨rfl, -⟩
  · rcases equal_cases hbc with ⟨y', z, hy, rfl, hyz⟩ | ⟨rfl, -⟩
    · obtain rfl : y = y' := by simpa using hy
      exact Double.equal_trans hxy hyz
    · exact hab
  · exact hbc

lemma equal_self_iff (s : Scalar) : s.equal s = true ↔ ∀ x, s = float x → x.isNaN = false := by
  cases s with
  | float x => simpa [equal] using Double.equal_self_iff x
  | null | bool _ | int _ | text _ => simp [equal]

end Scalar

/-! ## Partial equivalences -/

/-- A relation that is symmetric and transitive; it need not relate everything to itself. -/
structure PartialEquivalence {α : Type} (R : α → α → Prop) : Prop where
  symm : ∀ {a b : α}, R a b → R b a
  trans : ∀ {a b c : α}, R a b → R b c → R a c

/-- A one-to-one pairing of the items of two lists, in whatever order. -/
def Pairing {α : Type} (R : α → α → Prop) (as bs : List α) : Prop :=
  ∃ zs, bs.Perm zs ∧ List.Forall₂ R as zs

section Pairing

variable {α : Type} {R : α → α → Prop} {as bs : List α}

lemma PartialEquivalence.refl_left (h : PartialEquivalence R) {a b : α} (hab : R a b) : R a a :=
  h.trans hab (h.symm hab)

lemma PartialEquivalence.entry {κ : Type} {S : κ → κ → Prop} (hS : PartialEquivalence S)
    (hR : PartialEquivalence R) :
    PartialEquivalence fun e f : κ × α => S e.1 f.1 ∧ R e.2 f.2 where
  symm h := ⟨hS.symm h.1, hR.symm h.2⟩
  trans h h' := ⟨hS.trans h.1 h'.1, hR.trans h.2 h'.2⟩

lemma partialEquivalence_eq {α : Type} : PartialEquivalence (fun a b : α => a = b) where
  symm := Eq.symm
  trans := Eq.trans

lemma PartialEquivalence.forall₂ (h : PartialEquivalence R) :
    PartialEquivalence (List.Forall₂ R) where
  symm hab := List.Forall₂.flip (hab.imp fun _ _ => h.symm)
  trans {as bs cs} hab hbc := by
    induction hab generalizing cs with
    | nil => exact hbc
    | cons hab _ ih =>
      cases hbc with
      | cons hbc hrest => exact .cons (h.trans hab hbc) (ih hrest)

lemma PartialEquivalence.pairing (h : PartialEquivalence R) : PartialEquivalence (Pairing R) where
  symm := by
    rintro as bs ⟨zs, hperm, hforall⟩
    obtain ⟨ws, hforall, hperm⟩ := List.perm_comp_forall₂ hperm (h.forall₂.symm hforall)
    exact ⟨ws, hperm.symm, hforall⟩
  trans := by
    rintro as bs cs ⟨ys, hys, hab⟩ ⟨zs, hzs, hbc⟩
    obtain ⟨ws, hforall, hperm⟩ := List.perm_comp_forall₂ hys.symm hbc
    exact ⟨ws, hzs.trans hperm.symm, h.forall₂.trans hab hforall⟩

lemma Pairing.length_eq (h : Pairing R as bs) : as.length = bs.length := by
  obtain ⟨zs, hperm, hforall⟩ := h
  rw [hforall.length_eq, hperm.length_eq]

lemma Pairing.exists_right {a : α} (h : Pairing R as bs) (ha : a ∈ as) : ∃ b ∈ bs, R a b := by
  obtain ⟨zs, hperm, hforall⟩ := h
  obtain ⟨b, hb, hab⟩ := forall₂_exists_of_mem hforall ha
  exact ⟨b, hperm.mem_iff.2 hb, hab⟩

/-- If every item on the left finds a partner and no two find the same, lists of one length pair
off. -/
lemma exists_pairing (hlength : as.length = bs.length) (hpartner : ∀ a ∈ as, ∃ b ∈ bs, R a b)
    (hapart : as.Pairwise fun a a' => ∀ b, R a b → ¬ R a' b) : Pairing R as bs := by
  induction as generalizing bs with
  | nil =>
    obtain rfl : bs = [] := by simpa using hlength.symm
    exact ⟨[], .refl _, .nil⟩
  | cons a as ih =>
    obtain ⟨⟨b, hb, hab⟩, hpartner⟩ := List.forall_mem_cons.1 hpartner
    obtain ⟨hapart, hrest⟩ := List.pairwise_cons.1 hapart
    obtain ⟨before, after, rfl⟩ := List.append_of_mem hb
    have hlength : as.length = (before ++ after).length := by
      simp only [List.length_cons, List.length_append] at hlength ⊢
      omega
    -- the partner of another item is not the one of the first, so it is among the others
    have hothers : ∀ a' ∈ as, ∃ b' ∈ before ++ after, R a' b' := by
      intro a' ha'
      obtain ⟨b', hb', hab'⟩ := hpartner a' ha'
      have hne : b' ≠ b := by
        rintro rfl
        exact hapart a' ha' b' hab hab'
      refine ⟨b', ?_, hab'⟩
      simp only [List.mem_append, List.mem_cons] at hb' ⊢
      tauto
    obtain ⟨zs, hperm, hforall⟩ := ih hlength hothers hrest
    exact ⟨b :: zs, List.perm_middle.trans (hperm.cons b), .cons hab hforall⟩

end Pairing

namespace Value

/-! ## Children and numbers that are not numbers -/

/-- The nodes right below a node, the keys of an any-keyed mapping among them. -/
def children : Value → List Value
  | scalar _ => []
  | seq items => items
  | strMap fields => fields.map Prod.snd
  | anyMap entries => entries.map Prod.fst ++ entries.map Prod.snd

/-- A number that is not a number occurs in a tree, as a value or in a key. -/
inductive HasNaN : Value → Prop
  | here {x : Double} (isNaN : x.isNaN = true) : HasNaN (float x)
  | inside {node child : Value} (isChild : child ∈ node.children) (h : HasNaN child) : HasNaN node

lemma mem_children_field {fields : List (String × Value)} {e : String × Value} (he : e ∈ fields) :
    e.2 ∈ (strMap fields).children :=
  List.mem_map_of_mem he

/-- What is below an any-keyed mapping is a key or a value. -/
lemma forall_children_anyMap {entries : Table} {p : Value → Prop} :
    (∀ x ∈ (anyMap entries).children, p x) ↔ ∀ e ∈ entries, p e.1 ∧ p e.2 := by
  simp only [children, List.mem_append, List.mem_map]
  constructor
  · intro h e he
    exact ⟨h _ (.inl ⟨e, he, rfl⟩), h _ (.inr ⟨e, he, rfl⟩)⟩
  · rintro h x (⟨e, he, rfl⟩ | ⟨e, he, rfl⟩)
    · exact (h e he).1
    · exact (h e he).2

lemma sizeOf_lt_of_mem_children {node child : Value} (h : child ∈ node.children) :
    sizeOf child < sizeOf node := by
  cases node with
  | scalar _ => simp [children] at h
  | seq items =>
    have := List.sizeOf_lt_of_mem (show child ∈ items from h)
    simp only [seq.sizeOf_spec]
    omega
  | strMap fields =>
    obtain ⟨⟨key, x⟩, he, rfl⟩ := List.mem_map.1 h
    have := List.sizeOf_lt_of_mem he
    simp only [strMap.sizeOf_spec, Prod.mk.sizeOf_spec] at this ⊢
    omega
  | anyMap entries =>
    have hentries : ∀ e ∈ entries,
        sizeOf e.1 < sizeOf (anyMap entries) ∧ sizeOf e.2 < sizeOf (anyMap entries) := by
      rintro ⟨key, x⟩ he
      have := List.sizeOf_lt_of_mem he
      simp only [anyMap.sizeOf_spec, Prod.mk.sizeOf_spec] at this ⊢
      omega
    exact (forall_children_anyMap (p := fun x => sizeOf x < _)).2 hentries child h

lemma WellFormed.of_mem_children {node child : Value} (hnode : node.WellFormed)
    (h : child ∈ node.children) : child.WellFormed := by
  cases hnode with
  | scalar _ => simp [children] at h
  | seq items_ok => exact items_ok child h
  | strMap _ hchildren =>
    obtain ⟨e, he, rfl⟩ := List.mem_map.1 h
    exact hchildren e he
  | anyMap _ hkeys hchildren =>
    exact forall_children_anyMap.2 (fun e he => ⟨hkeys e he, hchildren e he⟩) child h

/-! ## Equality in terms of children -/

/-- Equality among the trees of a set. -/
def EqualOn (D : Value → Prop) (a b : Value) : Prop :=
  D a ∧ D b ∧ a.equal b = true

/-- Nodes of one kind whose children are related one by one: items and fields in their order,
entries in any order. -/
inductive Corresponds (R : Value → Value → Prop) : Value → Value → Prop
  | scalar {s t : Scalar} (leaves : s.equal t = true) : Corresponds R (scalar s) (scalar t)
  | seq {as bs : List Value} (items : List.Forall₂ R as bs) : Corresponds R (seq as) (seq bs)
  | strMap {as bs : List (String × Value)}
      (fields : List.Forall₂ (fun e f => e.1 = f.1 ∧ R e.2 f.2) as bs) :
      Corresponds R (strMap as) (strMap bs)
  | anyMap {as bs : Table} (entries : Pairing (fun e f => R e.1 f.1 ∧ R e.2 f.2) as bs) :
      Corresponds R (anyMap as) (anyMap bs)

lemma partialEquivalence_corresponds {R : Value → Value → Prop} (h : PartialEquivalence R) :
    PartialEquivalence (Corresponds R) where
  symm hab := by
    cases hab with
    | scalar leaves => exact .scalar (Scalar.equal_symm leaves)
    | seq items => exact .seq (h.forall₂.symm items)
    | strMap fields => exact .strMap ((partialEquivalence_eq.entry h).forall₂.symm fields)
    | anyMap entries => exact .anyMap ((h.entry h).pairing.symm entries)
  trans hab hbc := by
    cases hab with
    | scalar leaves =>
      cases hbc with
      | scalar leaves' => exact .scalar (Scalar.equal_trans leaves leaves')
    | seq items =>
      cases hbc with
      | seq items' => exact .seq (h.forall₂.trans items items')
    | strMap fields =>
      cases hbc with
      | strMap fields' =>
        exact .strMap ((partialEquivalence_eq.entry h).forall₂.trans fields fields')
    | anyMap entries =>
      cases hbc with
      | anyMap entries' => exact .anyMap ((h.entry h).pairing.trans entries entries')

end Value

/-! ## Keys of a table under a partial equivalence -/

namespace Table

open Value (EqualOn)

variable {D : Value → Prop} {table : Table} {key value : Value}

lemma exists_of_get? (h : table.get? key = some value) :
    ∃ e ∈ table, e.1.equal key = true ∧ e.2 = value := by
  obtain ⟨e, he, rfl⟩ := Option.map_eq_some_iff.1 h
  have hkey : e.1.equal key = true := by simpa using List.find?_some he
  exact ⟨e, List.mem_of_find?_eq_some he, hkey, rfl⟩

lemma get?_eq_none_iff : table.get? key = none ↔ ∀ e ∈ table, e.1.equal key = false := by
  simp [get?]

/-- In a table with distinct keys, only one entry has a given key. -/
lemma Distinct.eq_of_equal (hD : PartialEquivalence (EqualOn D)) (h : Distinct table)
    {e f : Value × Value} (he : e ∈ table) (hf : f ∈ table) (hef : EqualOn D e.1 f.1) : e = f := by
  have hapart : table.Pairwise fun e f => ¬ EqualOn D e.1 f.1 := by
    refine h.imp ?_
    rintro e f hne ⟨-, -, hequal⟩
    rw [hne] at hequal
    cases hequal
  have hsymm : Std.Symm fun e f : Value × Value => ¬ EqualOn D e.1 f.1 :=
    ⟨fun _ _ hnot hequal => hnot (hD.symm hequal)⟩
  by_contra hne
  exact hapart.forall he hf hne hef

/-- Look-up finds the entry whose key is equal. -/
lemma Distinct.get?_eq_some (hD : PartialEquivalence (EqualOn D)) (h : Distinct table)
    (hkeys : ∀ e ∈ table, D e.1) {e : Value × Value} (he : e ∈ table) (hkey : EqualOn D e.1 key) :
    table.get? key = some e.2 := by
  cases hget : table.get? key with
  | none =>
    have hne := get?_eq_none_iff.1 hget e he
    rw [hkey.2.2] at hne
    cases hne
  | some value =>
    obtain ⟨f, hf, hequal, rfl⟩ := exists_of_get? hget
    have hfkey : EqualOn D f.1 key := ⟨hkeys f hf, hkey.2.1, hequal⟩
    rw [h.eq_of_equal hD hf he (hD.trans hfkey (hD.symm hkey))]

end Table

namespace Value

variable {D : Value → Prop} {a b c : Value}

/-- Equality of any-keyed mappings as look-up: as many entries, and each entry on the left is found
on the right. -/
lemma equal_anyMap_iff_get? (as bs : Table) :
    (anyMap as).equal (anyMap bs) = true ↔
      as.length = bs.length ∧ ∀ e ∈ as, ∃ y, bs.get? e.1 = some y ∧ y.equal e.2 = true := by
  rw [equal_anyMap, Bool.and_eq_true, beq_iff_eq, List.all_eq_true]
  refine and_congr_right fun _ => forall₂_congr fun e _ => ?_
  simp only [Table.get?]
  cases bs.find? fun b => b.1.equal e.1 <;> simp

/-- If equality is a partial equivalence on keys and values, the search of one table through another
pairs off their entries. -/
lemma equal_anyMap_iff_pairing (hD : PartialEquivalence (EqualOn D)) {as bs : Table}
    (has : as.Distinct) (hbs : bs.Distinct) (hDas : ∀ e ∈ as, D e.1 ∧ D e.2)
    (hDbs : ∀ e ∈ bs, D e.1 ∧ D e.2) :
    (anyMap as).equal (anyMap bs) = true ↔
      Pairing (fun e f => EqualOn D e.1 f.1 ∧ EqualOn D e.2 f.2) as bs := by
  rw [equal_anyMap_iff_get?]
  constructor
  · rintro ⟨hlength, hfound⟩
    refine exists_pairing hlength (fun e he => ?_) ?_
    · obtain ⟨y, hget, hvalue⟩ := hfound e he
      obtain ⟨f, hf, hkey, rfl⟩ := Table.exists_of_get? hget
      exact ⟨f, hf, hD.symm ⟨(hDbs f hf).1, (hDas e he).1, hkey⟩,
        hD.symm ⟨(hDbs f hf).2, (hDas e he).2, hvalue⟩⟩
    · -- two entries with one partner would have equal keys
      refine has.imp fun {e e'} hne f hef hef' => ?_
      have hequal := (hD.trans hef.1 (hD.symm hef'.1)).2.2
      rw [hne] at hequal
      cases hequal
  · intro hpairing
    refine ⟨hpairing.length_eq, fun e he => ?_⟩
    obtain ⟨f, hf, hkey, hvalue⟩ := hpairing.exists_right he
    exact ⟨f.2, hbs.get?_eq_some hD (fun f hf => (hDbs f hf).1) hf (hD.symm hkey),
      (hD.symm hvalue).2.2⟩

lemma equal_seq_iff (as bs : List Value) :
    (seq as).equal (seq bs) = true ↔ List.Forall₂ (fun a b => a.equal b = true) as bs := by
  rw [equal_seq, Bool.and_eq_true, beq_iff_eq, List.all_eq_true, List.forall₂_iff_zip, Prod.forall]

lemma equal_strMap_iff (as bs : List (String × Value)) :
    (strMap as).equal (strMap bs) = true ↔
      List.Forall₂ (fun e f => e.1 = f.1 ∧ e.2.equal f.2 = true) as bs := by
  rw [equal_strMap, Bool.and_eq_true, beq_iff_eq, List.all_eq_true, List.forall₂_iff_zip,
    Prod.forall]
  simp

lemma forall₂_on_iff {α : Type} {P : α → Prop} {R : α → α → Prop} {as bs : List α}
    (has : ∀ a ∈ as, P a) (hbs : ∀ b ∈ bs, P b) :
    List.Forall₂ R as bs ↔ List.Forall₂ (fun a b => P a ∧ P b ∧ R a b) as bs := by
  refine ⟨fun h => ?_, fun h => h.imp fun _ _ h => h.2.2⟩
  induction h with
  | nil => exact .nil
  | cons hab _ ih =>
    obtain ⟨ha, has⟩ := List.forall_mem_cons.1 has
    obtain ⟨hb, hbs⟩ := List.forall_mem_cons.1 hbs
    exact .cons ⟨ha, hb, hab⟩ (ih has hbs)

/-- Nodes are equal exactly if they are of one kind and their children are equal one by one. -/
lemma equal_iff_corresponds (hD : PartialEquivalence (EqualOn D)) (ha : a.WellFormed)
    (hb : b.WellFormed) (hDa : ∀ x ∈ a.children, D x) (hDb : ∀ x ∈ b.children, D x) :
    a.equal b = true ↔ Corresponds (EqualOn D) a b := by
  constructor
  · intro h
    cases a <;> cases b <;> try (simp [equal] at h; done)
    case scalar.scalar s t => exact .scalar (by rwa [equal_scalar] at h)
    case seq.seq as bs => exact .seq ((forall₂_on_iff hDa hDb).1 ((equal_seq_iff as bs).1 h))
    case strMap.strMap as bs =>
      have hfields := (forall₂_on_iff (P := fun e : String × Value => D e.2)
        (fun e he => hDa _ (mem_children_field he)) fun f hf => hDb _ (mem_children_field hf)).1
        ((equal_strMap_iff as bs).1 h)
      exact .strMap (hfields.imp fun e f h => ⟨h.2.2.1, h.1, h.2.1, h.2.2.2⟩)
    case anyMap.anyMap as bs =>
      exact .anyMap ((equal_anyMap_iff_pairing hD (ha.distinct rfl) (hb.distinct rfl)
        (forall_children_anyMap.1 hDa) (forall_children_anyMap.1 hDb)).1 h)
  · intro h
    cases h with
    | scalar leaves => rwa [equal_scalar]
    | seq items => exact (equal_seq_iff _ _).2 (items.imp fun _ _ h => h.2.2)
    | strMap fields => exact (equal_strMap_iff _ _).2 (fields.imp fun _ _ h => ⟨h.1, h.2.2.2⟩)
    | anyMap entries =>
      exact (equal_anyMap_iff_pairing hD (ha.distinct rfl) (hb.distinct rfl)
        (forall_children_anyMap.1 hDa) (forall_children_anyMap.1 hDb)).2 entries

/-! ## The laws on well-formed trees -/

/-- Well-formed trees below a size. -/
def SmallerThan (n : Nat) (a : Value) : Prop :=
  a.WellFormed ∧ sizeOf a < n

lemma SmallerThan.of_mem_children {n : Nat} {child : Value} (ha : a.SmallerThan (n + 1))
    (h : child ∈ a.children) : child.SmallerThan n := by
  have := sizeOf_lt_of_mem_children h
  have := ha.2
  exact ⟨ha.1.of_mem_children h, by omega⟩

/-- Both laws at once, up to any size: equality of nodes goes back to equality of their children,
which are smaller. -/
lemma partialEquivalence_smallerThan (n : Nat) : PartialEquivalence (EqualOn (SmallerThan n)) := by
  induction n with
  | zero =>
    constructor
    · rintro a b ⟨⟨-, ha⟩, -⟩
      exact absurd ha (Nat.not_lt_zero _)
    · rintro a b c ⟨⟨-, ha⟩, -⟩
      exact absurd ha (Nat.not_lt_zero _)
  | succ n ih =>
    have hiff : ∀ {a b : Value}, a.SmallerThan (n + 1) → b.SmallerThan (n + 1) →
        (a.equal b = true ↔ Corresponds (EqualOn (SmallerThan n)) a b) := fun ha hb =>
      equal_iff_corresponds ih ha.1 hb.1 (fun _ => ha.of_mem_children) fun _ => hb.of_mem_children
    have hchildren := partialEquivalence_corresponds ih
    constructor
    · rintro a b ⟨ha, hb, hab⟩
      exact ⟨hb, ha, (hiff hb ha).2 (hchildren.symm ((hiff ha hb).1 hab))⟩
    · rintro a b c ⟨ha, hb, hab⟩ ⟨-, hc, hbc⟩
      exact ⟨ha, hc, (hiff ha hc).2
        (hchildren.trans ((hiff ha hb).1 hab) ((hiff hb hc).1 hbc))⟩

theorem equal_symm (ha : a.WellFormed) (hb : b.WellFormed) (h : a.equal b = true) :
    b.equal a = true := by
  have hlaws := partialEquivalence_smallerThan (sizeOf a + sizeOf b + 1)
  exact (hlaws.symm ⟨⟨ha, by omega⟩, ⟨hb, by omega⟩, h⟩).2.2

theorem equal_trans (ha : a.WellFormed) (hb : b.WellFormed) (hc : c.WellFormed)
    (hab : a.equal b = true) (hbc : b.equal c = true) : a.equal c = true := by
  have hlaws := partialEquivalence_smallerThan (sizeOf a + sizeOf b + sizeOf c + 1)
  exact (hlaws.trans ⟨⟨ha, by omega⟩, ⟨hb, by omega⟩, hab⟩
    ⟨⟨hb, by omega⟩, ⟨hc, by omega⟩, hbc⟩).2.2

/-- Equal trees equal the same trees. -/
lemma equal_congr_left (ha : a.WellFormed) (hb : b.WellFormed) (hc : c.WellFormed)
    (hab : a.equal b = true) : a.equal c = b.equal c := by
  rw [Bool.eq_iff_iff]
  exact ⟨equal_trans hb ha hc (equal_symm ha hb hab), equal_trans ha hb hc hab⟩

lemma equal_congr_right (ha : a.WellFormed) (hb : b.WellFormed) (hc : c.WellFormed)
    (hab : a.equal b = true) : c.equal a = c.equal b := by
  rw [Bool.eq_iff_iff]
  exact ⟨fun h => equal_trans hc ha hb h hab,
    fun h => equal_trans hc hb ha h (equal_symm ha hb hab)⟩

/-- On well-formed trees, equality is symmetric and transitive. -/
theorem partialEquivalence_wellFormed : PartialEquivalence (EqualOn WellFormed) where
  symm h := ⟨h.2.1, h.1, equal_symm h.1 h.2.1 h.2.2⟩
  trans h h' := ⟨h.1, h'.2.1, equal_trans h.1 h.2.1 h'.2.1 h.2.2 h'.2.2⟩

/-- Well-formed nodes are equal exactly if their children correspond. -/
lemma equal_iff_corresponds_wellFormed (ha : a.WellFormed) (hb : b.WellFormed) :
    a.equal b = true ↔ Corresponds (EqualOn WellFormed) a b :=
  equal_iff_corresponds partialEquivalence_wellFormed ha hb (fun _ => ha.of_mem_children)
    fun _ => hb.of_mem_children

/-- A node that corresponds to itself has children that are related to themselves. -/
lemma Corresponds.self_children {R : Value → Value → Prop} (hR : PartialEquivalence R)
    (h : Corresponds R a a) : ∀ x ∈ a.children, R x x := by
  cases h with
  | scalar _ => simp [children]
  | seq items => exact List.forall₂_same.1 items
  | strMap fields =>
    intro x hx
    obtain ⟨e, he, rfl⟩ := List.mem_map.1 hx
    exact (List.forall₂_same.1 fields e he).2
  | anyMap entries =>
    refine forall_children_anyMap.2 fun e he => ?_
    obtain ⟨f, -, hkey, hvalue⟩ := entries.exists_right he
    exact ⟨hR.refl_left hkey, hR.refl_left hvalue⟩

/-- A node with children that are related to themselves corresponds to itself, numbers that are not
numbers apart. -/
lemma corresponds_self {R : Value → Value → Prop} (h : ∀ x ∈ a.children, R x x)
    (hnumber : ∀ x, a = float x → x.isNaN = false) : Corresponds R a a := by
  cases a with
  | scalar s =>
    refine .scalar ((Scalar.equal_self_iff s).2 fun x hx => hnumber x (by rw [hx]))
  | seq items => exact .seq (List.forall₂_same.2 h)
  | strMap fields =>
    exact .strMap (List.forall₂_same.2 fun e he => ⟨rfl, h _ (mem_children_field he)⟩)
  | anyMap entries =>
    exact .anyMap ⟨entries, .refl _, List.forall₂_same.2 (forall_children_anyMap.1 h)⟩

/-- A tree without numbers that are not numbers equals itself, because its children do. -/
lemma equal_self {a : Value} (ha : a.WellFormed) (hnan : ¬ a.HasNaN) : a.equal a = true := by
  refine (equal_iff_corresponds_wellFormed ha ha).2 (corresponds_self (fun x hx => ?_) ?_)
  · have hx_ok := ha.of_mem_children hx
    exact ⟨hx_ok, hx_ok, equal_self hx_ok fun h => hnan (.inside hx h)⟩
  · rintro x rfl
    exact Bool.eq_false_iff.2 fun h => hnan (.here h)
termination_by sizeOf a
decreasing_by exact sizeOf_lt_of_mem_children hx

theorem equal_self_iff (ha : a.WellFormed) : a.equal a = true ↔ ¬ a.HasNaN := by
  refine ⟨fun h hnan => ?_, equal_self ha⟩
  induction hnan with
  | here isNaN =>
    rw [equal_scalar, Scalar.equal_self_iff] at h
    rw [h _ rfl] at isNaN
    cases isNaN
  | inside isChild _ ih =>
    have hchild := ((equal_iff_corresponds_wellFormed ha ha).1 h).self_children
      partialEquivalence_wellFormed _ isChild
    exact ih hchild.1 hchild.2.2

/-! ## Any-keyed mappings -/

/-- Entries whose keys and values are equal. -/
def EqualEntries (e f : Value × Value) : Prop :=
  e.1.equal f.1 = true ∧ e.2.equal f.2 = true

theorem equal_anyMap_iff_paired {as bs : Table} (has : (anyMap as).WellFormed)
    (hbs : (anyMap bs).WellFormed) :
    (anyMap as).equal (anyMap bs) = true ↔ Pairing EqualEntries as bs := by
  have hentries : ∀ {es : Table}, (anyMap es).WellFormed →
      ∀ e ∈ es, e.1.WellFormed ∧ e.2.WellFormed := fun hes =>
    forall_children_anyMap.1 fun _ => hes.of_mem_children
  rw [equal_anyMap_iff_pairing partialEquivalence_wellFormed (has.distinct rfl) (hbs.distinct rfl)
    (hentries has) (hentries hbs)]
  constructor
  · rintro ⟨zs, hperm, hforall⟩
    exact ⟨zs, hperm, hforall.imp fun e f h => ⟨h.1.2.2, h.2.2.2⟩⟩
  · rintro ⟨zs, hperm, hforall⟩
    refine ⟨zs, hperm, ((forall₂_on_iff (hentries has) fun f hf =>
      hentries hbs f (hperm.mem_iff.2 hf)).1 hforall).imp ?_⟩
    rintro e f ⟨he, hf, hkey, hvalue⟩
    exact ⟨⟨he.1, hf.1, hkey⟩, ⟨he.2, hf.2, hvalue⟩⟩

/-- The order of entries does not matter for well-formedness. -/
lemma WellFormed.perm {as bs : Table} (h : (Value.anyMap as).WellFormed) (hperm : as.Perm bs) :
    (Value.anyMap bs).WellFormed := by
  cases h with
  | anyMap distinct keys values =>
    refine .anyMap ?_ (fun e he => keys e (hperm.mem_iff.2 he))
      fun e he => values e (hperm.mem_iff.2 he)
    -- keys that differ one way round differ the other way round too
    have hapart : as.Pairwise fun e f => ¬ EqualOn WellFormed e.1 f.1 := by
      refine distinct.imp ?_
      rintro e f hne ⟨-, -, hequal⟩
      rw [hne] at hequal
      cases hequal
    have hapart := hperm.pairwise hapart fun hnot hequal =>
      hnot (partialEquivalence_wellFormed.symm hequal)
    refine hapart.imp_of_mem fun {e f} he hf hnot => Bool.eq_false_iff.2 fun hequal => ?_
    exact hnot ⟨keys e (hperm.mem_iff.2 he), keys f (hperm.mem_iff.2 hf), hequal⟩

/-- A mapping without numbers that are not numbers equals any reordering of it. -/
lemma equal_of_perm {as bs : Table} (h : (anyMap as).WellFormed) (hnan : ¬ (anyMap as).HasNaN)
    (hperm : as.Perm bs) : (anyMap as).equal (anyMap bs) = true := by
  rw [equal_anyMap_iff_paired h (h.perm hperm)]
  have hself := ((equal_iff_corresponds_wellFormed h h).1 (equal_self h hnan)).self_children
    partialEquivalence_wellFormed
  refine ⟨as, hperm.symm, List.forall₂_same.2 fun e he => ?_⟩
  have hentry := forall_children_anyMap.1 hself e he
  exact ⟨hentry.1.2.2, hentry.2.2.2⟩

/-- Equality is symmetric and transitive on well-formed trees, and reflexive on those in which no
number that is not a number occurs; two any-keyed mappings are equal exactly if their entries pair
off, so that the order of entries does not count. -/
theorem equal_partialEquivalence {as bs cs : Table} (ha : a.WellFormed) (hb : b.WellFormed)
    (hc : c.WellFormed) (has : (anyMap as).WellFormed) (hbs : (anyMap bs).WellFormed) :
    (a.equal b = true → b.equal a = true) ∧
      (a.equal b = true → b.equal c = true → a.equal c = true) ∧
      (a.equal a = true ↔ ¬ a.HasNaN) ∧
      ((anyMap as).equal (anyMap bs) = true ↔ Pairing EqualEntries as bs) ∧
      (¬ (anyMap as).HasNaN → as.Perm cs → (anyMap as).equal (anyMap cs) = true) :=
  ⟨equal_symm ha hb, equal_trans ha hb hc, equal_self_iff ha, equal_anyMap_iff_paired has hbs,
    equal_of_perm has⟩

/-- Entries with a mapping and a sequence as keys; the zero is inside a key. -/
def nestedEntries (zero : Double) : Table :=
  [(anyMap [(text "x", int 1), (int 2, float zero)], text "v"), (seq [null], strMap [("k", int 3)])]

/-- Mappings that differ in the sign of a zero inside a key and in their order, and entries with
values that are not numbers. -/
theorem equal_partialEquivalence_nested :
    let a := anyMap (nestedEntries (Double.zero false))
    let b := anyMap (nestedEntries (Double.zero true)).reverse
    let as := (float Double.nan, null) :: nestedEntries (Double.zero false)
    a.WellFormed ∧ b.WellFormed ∧ (anyMap as).WellFormed ∧ a.equal b = true ∧
      (a.equal b = true → b.equal a = true) ∧
      (a.equal b = true → b.equal a = true → a.equal a = true) ∧
      (a.equal a = true ↔ ¬ a.HasNaN) ∧
      ((anyMap as).equal (anyMap as) = true ↔ Pairing EqualEntries as as) ∧
      (¬ (anyMap as).HasNaN → as.Perm as.reverse →
        (anyMap as).equal (anyMap as.reverse) = true) := by
  intro a b as
  have ha : a.WellFormed := by decide +kernel
  have hb : b.WellFormed := by decide +kernel
  have has : (anyMap as).WellFormed := by decide +kernel
  exact ⟨ha, hb, has, by decide +kernel, equal_partialEquivalence ha hb ha has has⟩

end Value

end PropertyTree
