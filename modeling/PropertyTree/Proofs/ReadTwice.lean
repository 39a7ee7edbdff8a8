import PropertyTree.Proofs.ReadBack

/-!
# Writing a value and reading it, once and again

The document of a value is what is written of it, and any text layer that delivers this document
hands it to the reader (`Reading.Delivers`).  What the reader makes of it is the value with the
kinds of its mappings chosen anew, and with no other change: `Value.ComesBackAs` says what that
means, and it leaves no choice (`ComesBackAs.unique`), so a value that comes back as another one is
read as this one and as nothing else (`value?_eq_some_iff`).

What the reader made has the form that comes back.  So a second write and read changes nothing, and
the values that the reader makes, of whatever it is given, are just those that come back as they
are.
-/

namespace PropertyTree

/-- What each member of a list determines, the list determines. -/
lemma forall₂_unique {α β : Type} {R : α → β → Prop} {as : List α} {bs cs : List β}
    (h : ∀ a ∈ as, ∀ b c, R a b → R a c → b = c) (hb : List.Forall₂ R as bs)
    (hc : List.Forall₂ R as cs) : bs = cs := by
  induction hb generalizing cs with
  | nil => cases hc; rfl
  | cons hab _ ih =>
    obtain ⟨hfirst, hrest⟩ := List.forall_mem_cons.1 h
    cases hc with
    | cons hac hcs => rw [hfirst _ _ hab hac, ih hrest hcs]

/-- Entries are determined by their keys and their values. -/
lemma eq_of_keys_of_values {κ ν : Type} {es fs : List (κ × ν)}
    (hkeys : es.map Prod.fst = fs.map Prod.fst) (hvalues : es.map Prod.snd = fs.map Prod.snd) :
    es = fs :=
  (List.zip_of_prod hkeys hvalues).trans (List.zip_of_prod rfl rfl).symm

/-! ## Integers -/

/-- An integer as a text layer hands it over: signed, or unsigned if it is not negative. -/
inductive Word where
  | signed (i : Int64)
  | unsigned (u : UInt64)

namespace Word

/-- The integer that a word stands for. -/
def toInt : Word → Int
  | signed i => i.toInt
  | unsigned u => u.toNat

/-- The leaf that a word is taken for: an unsigned one may need the nearest double. -/
def leaf : Word → Scalar
  | signed i => .int i
  | unsigned u =>
    if u.toNat < 9223372036854775808 then .int (Int64.ofNat u.toNat)
    else .float (Double.ofNat u.toNat)

/-- The number alone decides what a word is read as. -/
theorem arrived_toInt (word : Word) : Reading.arrived (.int word.toInt) = word.leaf := by
  cases word with
  | signed i => exact Value.arrivedInt_toInt i
  | unsigned u => rfl

/-- The integer of a value is read as it was written, from either kind of word. -/
lemma leaf_of_toInt {word : Word} {i : Int64} (h : word.toInt = i.toInt) : word.leaf = .int i := by
  rw [← arrived_toInt, h]
  exact Value.arrivedInt_toInt i

end Word

namespace Value

variable {v w x y : Value} {node : Reading}

/-! ## What comes back is determined -/

lemma map_text_injective {as bs : List String} (h : as.map text = bs.map text) : as = bs :=
  List.map_injective_iff.2 (fun _ _ heq => by simpa using heq) h

/-- There is one tree that a tree comes back as. -/
theorem ComesBackAs.unique (hx : v.ComesBackAs x) (hy : v.ComesBackAs y) : x = y := by
  induction v using byChildren generalizing x y with
  | scalar s => cases hx; cases hy; rfl
  | seq items ih =>
    cases hx with | seq hx =>
    cases hy with | seq hy =>
    rw [forall₂_unique (fun item hitem _ _ => ih item hitem) hx hy]
  | strMap fields ih =>
    cases hx with | strMap hkeys hx =>
    cases hy with | strMap hkeys' hy =>
    have hvalues : ∀ value ∈ fields.map Prod.snd, ∀ a b,
        value.ComesBackAs a → value.ComesBackAs b → a = b := by
      intro value hvalue
      obtain ⟨f, hf, rfl⟩ := List.mem_map.1 hvalue
      exact fun _ _ => ih f hf
    rw [eq_of_keys_of_values (hkeys.symm.trans hkeys') (forall₂_unique hvalues hx hy)]
  | anyMap entries ih =>
    have hkeys : ∀ key ∈ entries.map Prod.fst, ∀ a b,
        key.ComesBackAs a → key.ComesBackAs b → a = b := by
      intro key hkey
      obtain ⟨e, he, rfl⟩ := List.mem_map.1 hkey
      exact fun _ _ => (ih e he).1
    have hvalues : ∀ value ∈ entries.map Prod.snd, ∀ a b,
        value.ComesBackAs a → value.ComesBackAs b → a = b := by
      intro value hvalue
      obtain ⟨e, he, rfl⟩ := List.mem_map.1 hvalue
      exact fun _ _ => (ih e he).2
    -- keys that are strings and keys of which one is none
    have hnot : ∀ {texts : List String}, entries.map Prod.fst = texts.map text →
        ¬ ∃ k ∈ entries.map Prod.fst, k.text? = none := by
      rintro texts htexts ⟨k, hk, hnone⟩
      rw [htexts] at hk
      obtain ⟨s, -, rfl⟩ := List.mem_map.1 hk
      cases hnone
    cases hx with
    | anyMap other hx hx' =>
      cases hy with
      | anyMap _ hy hy' =>
        rw [eq_of_keys_of_values (forall₂_unique hkeys hx hy) (forall₂_unique hvalues hx' hy')]
      | turned texts => exact absurd other (hnot texts)
    | turned texts hx same sorted =>
      cases hy with
      | anyMap other => exact absurd other (hnot texts)
      | turned texts' hy same' sorted' =>
        have hfields := eq_of_keys_of_values (map_text_injective (texts.symm.trans texts'))
          (forall₂_unique hvalues hx hy)
        subst hfields
        rw [sorted.eq_of_perm sorted' (same.trans same'.symm)]

/-! ## The document of a value is delivered -/

lemma deliveredEntries?_fields {fields : List (String × Document)}
    (h : ∀ f ∈ fields, f.2.toReading.delivered? = some f.2) :
    Reading.deliveredEntries?
        (Document.toReadingEntries (fields.map fun f => (.text f.1, f.2))) =
      some (fields.map fun f => (.text f.1, f.2)) := by
  induction fields with
  | nil => rfl
  | cons f rest ih =>
    obtain ⟨hf, hrest⟩ := List.forall_mem_cons.1 h
    rw [List.map_cons, Document.toReadingEntries, Reading.deliveredEntries?, hf, ih hrest]
    rfl

mutual

/-- The document of a value can be delivered as it is: it has no tags. -/
lemma delivered?_toDocument : ∀ v : Value,
    v.toDocument.toReading.delivered? = some v.toDocument
  | scalar _ => rfl
  | seq items => by
    rw [toDocument, Document.toReading, Reading.delivered?, deliveredItems?_toDocuments items]
    rfl
  | strMap fields => by
    have hfields : ∀ f ∈ Fields.ofList (toDocumentFields fields),
        f.2.toReading.delivered? = some f.2 :=
      fun f hf => delivered?_of_mem_toDocumentFields fields f (Fields.mem_ofList hf)
    rw [toDocument, Document.toReading, Reading.delivered?, deliveredEntries?_fields hfields]
    rfl
  | anyMap entries => by
    rw [toDocument, Document.toReading, Reading.delivered?,
      deliveredEntries?_toDocumentEntries entries]
    rfl

/-- The documents of items. -/
lemma deliveredItems?_toDocuments : ∀ items : List Value,
    Reading.deliveredItems? (Document.toReadings (toDocuments items)) = some (toDocuments items)
  | [] => rfl
  | item :: rest => by
    rw [toDocuments, Document.toReadings, Reading.deliveredItems?, delivered?_toDocument item,
      deliveredItems?_toDocuments rest]
    rfl

/-- The documents of fields. -/
lemma delivered?_of_mem_toDocumentFields : ∀ fields : List (String × Value),
    ∀ f ∈ toDocumentFields fields, f.2.toReading.delivered? = some f.2
  | [] => by
    intro f hf
    cases hf
  | (_, value) :: rest => by
    rw [toDocumentFields, List.forall_mem_cons]
    exact ⟨delivered?_toDocument value, delivered?_of_mem_toDocumentFields rest⟩

/-- The documents of entries. -/
lemma deliveredEntries?_toDocumentEntries : ∀ entries : List (Value × Value),
    Reading.deliveredEntries? (Document.toReadingEntries (toDocumentEntries entries)) =
      some (toDocumentEntries entries)
  | [] => rfl
  | (key, value) :: rest => by
    rw [toDocumentEntries, Document.toReadingEntries, Reading.deliveredEntries?,
      delivered?_toDocument key, delivered?_toDocument value,
      deliveredEntries?_toDocumentEntries rest]
    rfl

end

/-! ## The main statement -/

/-- What the reader makes of a value that was written is what the value comes back as. -/
lemma value?_eq_some_iff (hv : v.WellFormed) (hkeys : v.KeysStayApart)
    (h : node.Delivers v.toDocument) : node.value? = some w ↔ v.ComesBackAs w := by
  have hread := value?_of_delivers hv hkeys h
  have hcomes := comesBackAs_asRead hkeys
  constructor
  · intro hw
    obtain rfl : v.asRead = w := Option.some.inj (hread.symm.trans hw)
    exact hcomes
  · intro hw
    rw [hread, hcomes.unique hw]

/-- A value that the reader made comes back as it is. -/
lemma value?_of_value? (h : node.value? = some v) {again : Reading}
    (hagain : again.Delivers v.toDocument) : again.value? = some v := by
  have hsettled := settled_of_value? h
  rw [value?_of_delivers hsettled.wellFormed hsettled.keysStayApart hagain, hsettled.asRead_eq]

/-- A value that was written is read as what it comes back as: its mappings turned and nothing else.
What the reader makes of anything comes back as it is, so a second write and read is the identity.
Integers are read as they were written, whichever words they are handed over in. -/
theorem reads_back (hv : v.WellFormed) (hkeys : v.KeysStayApart) :
    (∃ w, v.ComesBackAs w) ∧
      v.toDocument.toReading.Delivers v.toDocument ∧
      (∀ (node : Reading) (w : Value), node.Delivers v.toDocument →
        (node.value? = some w ↔ v.ComesBackAs w)) ∧
      (∀ (node : Reading) (w : Value), node.value? = some w → w.ComesBackAs w ∧
        ∀ again : Reading, again.Delivers w.toDocument → again.value? = some w) ∧
      ∀ (word : Word) (i : Int64), word.toInt = i.toInt →
        Reading.arrived (.int word.toInt) = word.leaf ∧ word.leaf = .int i := by
  refine ⟨⟨v.asRead, comesBackAs_asRead hkeys⟩, delivered?_toDocument v,
    fun node w h => value?_eq_some_iff hv hkeys h, fun node w h => ⟨?_, fun again hagain => ?_⟩,
    fun word i h => ⟨word.arrived_toInt, Word.leaf_of_toInt h⟩⟩
  · have hsettled := settled_of_value? h
    have hcomes := comesBackAs_asRead hsettled.keysStayApart
    rwa [hsettled.asRead_eq] at hcomes
  · exact value?_of_value? h hagain

/-- A mapping under a mapping as key, a float that is no number, and an empty mapping. -/
def nestedKeys : Value :=
  anyMap [(anyMap [(text "b", int 1), (text "a", int 2)], float .nan), (text "e", anyMap [])]

theorem reads_back_nestedKeys :
    nestedKeys.WellFormed ∧ nestedKeys.KeysStayApart ∧
      nestedKeys.ComesBackAs
        (anyMap [(strMap [("a", int 2), ("b", int 1)], float .nan), (text "e", strMap [])]) := by
  have hv : nestedKeys.WellFormed := by decide +kernel
  have hinner : KeysStayApart (anyMap [(text "b", int 1), (text "a", int 2)]) :=
    .anyMap (by decide +kernel) (by simp [KeysStayApart.scalar]) (by simp [KeysStayApart.scalar])
  have hempty : KeysStayApart (anyMap []) := .anyMap .nil (by simp) (by simp)
  have hkeys : nestedKeys.KeysStayApart :=
    .anyMap (by decide +kernel) (by simp [KeysStayApart.scalar, hinner])
      (by simp [KeysStayApart.scalar, hempty])
  have hread : nestedKeys.toDocument.toReading.value? =
      some (anyMap [(strMap [("a", int 2), ("b", int 1)], float .nan), (text "e", strMap [])]) := by
    decide +kernel
  obtain ⟨-, hdelivers, hexact, -⟩ := reads_back hv hkeys
  exact ⟨hv, hkeys, (hexact _ _ hdelivers).1 hread⟩

end Value

end PropertyTree
