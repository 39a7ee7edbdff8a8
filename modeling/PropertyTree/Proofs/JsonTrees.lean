import PropertyTree.Manifest.Text
import PropertyTree.Proofs.DoubleBounds
import PropertyTree.Proofs.SavedRecords

/-!
# Trees that JSON can hold

JSON has no key but a string, and no float that is not finite.  A tree within these bounds is
`Document.IsJson`; the writer has a text for it (`Json.exists_text`), and loses nothing of it on
the way there.

A JSON text holds such a tree.  For numbers this needs an argument, as the reader makes a float in
two roundings that could overflow between them (`Json.isJson_of_atom?`).  The records that are read
of such a tree are written as such a tree again (`Manifest.isJson_of_read?`).
-/

namespace PropertyTree

/-! ## Trees within the bounds -/

/-- An atom that JSON can hold: its floats are finite, and its integers have 64 bits, with a sign or
without. -/
def Atom.IsJson : Atom → Prop
  | .int n => -9223372036854775808 ≤ n ∧ n < 18446744073709551616
  | .float x => x.isFinite
  | .null | .bool _ | .text _ => True

/-- A document that JSON can hold. -/
inductive Document.IsJson : Document → Prop
  | atom {a : Atom} (ok : a.IsJson) : IsJson (.atom a)
  | seq {items : List Document} (items_ok : ∀ d ∈ items, IsJson d) : IsJson (.seq items)
  | map {entries : List (Document × Document)} (keys : ∀ e ∈ entries, ∃ s, e.1 = .text s)
      (values : ∀ e ∈ entries, IsJson e.2) : IsJson (.map entries)

/-- A node as a JSON text delivers it: a node without a value may stand anywhere. -/
inductive Reading.IsJson : Reading → Prop
  | atom {a : Atom} (ok : a.IsJson) : IsJson (.atom a)
  | seq {items : List Reading} (items_ok : ∀ node ∈ items, IsJson node) : IsJson (.seq items)
  | map {entries : List (Reading × Reading)}
      (keys : ∀ e ∈ entries, (∃ s, e.1 = .atom (.text s)) ∨ e.1 = .unreadable)
      (values : ∀ e ∈ entries, IsJson e.2) : IsJson (.map entries)
  | unreadable : IsJson .unreadable

namespace Json

/-! ## Numbers -/

lemma takeDigits_le {significand : Nat} (h : significand ≤ maxSignificand) (cs : List Char) :
    (takeDigits significand cs).1 ≤ maxSignificand := by
  induction cs generalizing significand with
  | nil => exact h
  | cons c rest ih =>
    rw [takeDigits]
    dsimp only
    split
    case isTrue => exact h
    case isFalse hle => exact ih (Nat.le_of_not_lt hle)

/-- Every power of ten that a number is divided by is at least one, by its exponent field. -/
lemma one_le_powerOfTen {e : Nat} (h : e ≤ 308) : 1023 ≤ (powerOfTen e).exponent.val := by
  have hsame : powerOfTen e = Double.ofRatio false (1 * Nat.pow 10 e) 1 := by
    have hnum : (e : Int).toNat = e := Int.toNat_natCast e
    have hden : (-(e : Int)).toNat = 0 := by omega
    rw [powerOfTen, Double.ofDecimal, if_neg (by decide), if_neg (by omega), if_neg (by omega),
      hnum, hden]
  rw [hsame]
  exact Double.le_exponent_ofRatio false (by decide) (by simp [Nat.one_le_pow])

lemma isFinite_of_scaled? {significand : Nat} {exponent : Int} {x : Double}
    (h : significand ≤ maxSignificand) (hx : scaled? significand exponent = some x) :
    x.isFinite := by
  have hlt : significand < 2 ^ 64 := Nat.lt_succ_of_le h
  obtain ⟨hfinite, hbelow⟩ := Double.ofNat_below hlt (by omega)
  unfold scaled? at hx
  dsimp only at hx
  split at hx
  case isTrue =>
    split at hx
    case isTrue => exact Option.some.inj hx ▸ hfinite
    case isFalse =>
      split at hx
      case isTrue => cases hx
      case isFalse => exact (Option.filter_eq_some_iff.1 hx).2
  case isFalse =>
    split at hx
    case isTrue he =>
      have hone := one_le_powerOfTen he
      exact Option.some.inj hx ▸ (Double.dividedBy_below hbelow hone (by omega)).1
    case isFalse =>
      split at hx
      case isTrue he =>
        have hone := one_le_powerOfTen (Nat.le_refl 308)
        have hone' : 1023 ≤ (powerOfTen (exponent.natAbs - 308)).exponent.val :=
          one_le_powerOfTen (by omega)
        have hfirst := (Double.dividedBy_below hbelow hone (by omega)).2
        exact Option.some.inj hx ▸ (Double.dividedBy_below hfirst hone' (by omega)).1
      case isFalse => exact Option.some.inj hx ▸ rfl

lemma isFinite_of_float? {parts : Parts} {significand : Nat} {exponent : Int} {x : Double}
    (h : significand ≤ maxSignificand) (hx : parts.float? significand exponent = some x) :
    x.isFinite := by
  obtain ⟨y, hy, rfl⟩ := Option.map_eq_some_iff.1 hx
  -- a sign is no part of what makes a double finite
  change y.isFinite
  split at hy
  case h_1 => exact isFinite_of_scaled? h hy
  case h_2 =>
    dsimp only at hy
    split at hy
    case isTrue =>
      split at hy
      case isTrue => cases hy
      case isFalse => exact Option.some.inj hy ▸ rfl
    case isFalse => exact isFinite_of_scaled? h hy

/-- A number that is read is an integer of 64 bits or a finite float. -/
theorem isJson_of_atom? {parts : Parts} {a : Atom} (h : parts.atom? = some a) : a.IsJson := by
  have hwhole := takeDigits_le (Nat.zero_le maxSignificand) parts.whole
  unfold Parts.atom? at h
  generalize takeDigits 0 parts.whole = taken at hwhole h
  obtain ⟨significand, _, dropped⟩ := taken
  dsimp only at hwhole h
  split at h
  case h_1 digits _ =>
    obtain ⟨x, hx, rfl⟩ := Option.map_eq_some_iff.1 h
    exact isFinite_of_float? (takeDigits_le hwhole digits) hx
  case h_2 =>
    split at h
    case isTrue =>
      obtain ⟨x, hx, rfl⟩ := Option.map_eq_some_iff.1 h
      exact isFinite_of_float? hwhole hx
    case isFalse =>
      unfold maxSignificand at hwhole
      split at h
      case isTrue =>
        obtain rfl := Option.some.inj h
        exact ⟨by omega, by omega⟩
      case isFalse =>
        split at h
        case isTrue =>
          have hlt : significand < 2 ^ 64 := Nat.lt_succ_of_le hwhole
          obtain rfl := Option.some.inj h
          exact (Double.ofNat_below hlt (by omega)).1
        case isFalse hsmall =>
          obtain rfl := Option.some.inj h
          simp only [Bool.or_eq_true, decide_eq_true_eq, not_or, not_lt] at hsmall
          exact ⟨by omega, by omega⟩

/-! ## Texts -/

lemma textNode_cases (s : Option String) :
    (∃ t, textNode s = .atom (.text t)) ∨ textNode s = .unreadable := by
  cases s with
  | none => exact .inr rfl
  | some t => exact .inl ⟨t, rfl⟩

lemma isJson_textNode (s : Option String) : (textNode s).IsJson := by
  cases s with
  | none => exact .unreadable
  | some t => exact .atom trivial

lemma isJson_nested {node : Reading} (depth : Nat) (h : node.IsJson) :
    (nested depth node).IsJson := by
  rw [nested]
  split
  · exact h
  · exact .unreadable

lemma isJson_of_number? {negative : Bool} {cs rest : List Char} {node : Reading}
    (h : number? negative cs = some (node, rest)) : node.IsJson := by
  obtain ⟨⟨whole, cs⟩, -, h⟩ := Option.bind_eq_some_iff.1 h
  obtain ⟨⟨fraction, cs⟩, -, h⟩ := Option.bind_eq_some_iff.1 h
  obtain ⟨⟨exponent, cs⟩, -, h⟩ := Option.bind_eq_some_iff.1 h
  obtain ⟨rfl, -⟩ := Prod.mk.inj (Option.some.inj h)
  split
  case h_1 ha => exact .atom (isJson_of_atom? ha)
  case h_2 => exact .unreadable

mutual

/-- A value that is read is a JSON tree. -/
lemma isJson_of_value? : ∀ {fuel depth : Nat} {cs rest : List Char} {node : Reading},
    value? fuel depth cs = some (node, rest) → node.IsJson
  | 0, _, _, _, _, h => by cases h
  | fuel + 1, depth, cs, rest, node, h => by
    rw [value?] at h
    split at h
    case h_1 =>
      obtain ⟨⟨s, _⟩, -, heq⟩ := Option.map_eq_some_iff.1 h
      obtain ⟨rfl, -⟩ := Prod.mk.inj heq
      exact isJson_textNode s
    case h_2 =>
      split at h
      case h_1 =>
        obtain ⟨rfl, -⟩ := Prod.mk.inj (Option.some.inj h)
        exact isJson_nested depth (.seq (by simp))
      case h_2 =>
        obtain ⟨⟨items, _⟩, hitems, heq⟩ := Option.map_eq_some_iff.1 h
        obtain ⟨rfl, -⟩ := Prod.mk.inj heq
        exact isJson_nested depth (.seq (isJson_of_items? hitems))
    case h_3 =>
      split at h
      case h_1 =>
        obtain ⟨rfl, -⟩ := Prod.mk.inj (Option.some.inj h)
        exact isJson_nested depth (.map (by simp) (by simp))
      case h_2 =>
        obtain ⟨⟨members, _⟩, hmembers, heq⟩ := Option.map_eq_some_iff.1 h
        obtain ⟨rfl, -⟩ := Prod.mk.inj heq
        have hread := isJson_of_members? hmembers
        exact isJson_nested depth (.map (fun e he => (hread e he).1) fun e he => (hread e he).2)
    case h_4 | h_5 | h_6 =>
      obtain ⟨_, -, heq⟩ := Option.map_eq_some_iff.1 h
      obtain ⟨rfl, -⟩ := Prod.mk.inj heq
      exact .atom trivial
    case h_7 | h_8 => exact isJson_of_number? h

/-- Items that are read are JSON trees. -/
lemma isJson_of_items? : ∀ {fuel depth : Nat} {cs rest : List Char} {items : List Reading},
    items? fuel depth cs = some (items, rest) → ∀ node ∈ items, node.IsJson
  | 0, _, _, _, _, h => by cases h
  | fuel + 1, depth, cs, rest, items, h => by
    rw [items?] at h
    obtain ⟨⟨item, after⟩, hitem, h⟩ := Option.bind_eq_some_iff.1 h
    have hfirst := isJson_of_value? hitem
    dsimp only at h
    split at h
    case h_1 =>
      obtain ⟨⟨others, _⟩, hothers, h⟩ := Option.bind_eq_some_iff.1 h
      obtain ⟨rfl, -⟩ := Prod.mk.inj (Option.some.inj h)
      exact List.forall_mem_cons.2 ⟨hfirst, isJson_of_items? hothers⟩
    case h_2 =>
      obtain ⟨rfl, -⟩ := Prod.mk.inj (Option.some.inj h)
      simpa using hfirst
    case h_3 => cases h

/-- Members that are read have strings as keys, or keys without a value, and JSON trees. -/
lemma isJson_of_members? : ∀ {fuel depth : Nat} {cs rest : List Char}
    {members : List (Reading × Reading)}, members? fuel depth cs = some (members, rest) →
    ∀ e ∈ members, ((∃ s, e.1 = .atom (.text s)) ∨ e.1 = .unreadable) ∧ e.2.IsJson
  | 0, _, _, _, _, h => by cases h
  | fuel + 1, depth, cs, rest, members, h => by
    rw [members?] at h
    split at h
    case h_2 => cases h
    case h_1 =>
      obtain ⟨⟨key, _⟩, -, h⟩ := Option.bind_eq_some_iff.1 h
      dsimp only at h
      split at h
      case h_2 => cases h
      case h_1 =>
        obtain ⟨_, -, h⟩ := Option.bind_eq_some_iff.1 h
        obtain ⟨⟨value, after⟩, hvalue, h⟩ := Option.bind_eq_some_iff.1 h
        have hfirst := And.intro (textNode_cases key) (isJson_of_value? hvalue)
        dsimp only at h
        split at h
        case h_1 =>
          obtain ⟨⟨others, _⟩, hothers, h⟩ := Option.bind_eq_some_iff.1 h
          obtain ⟨rfl, -⟩ := Prod.mk.inj (Option.some.inj h)
          exact List.forall_mem_cons.2 ⟨hfirst, isJson_of_members? hothers⟩
        case h_2 =>
          obtain ⟨rfl, -⟩ := Prod.mk.inj (Option.some.inj h)
          simpa using hfirst
        case h_3 => cases h

end

/-- A JSON text holds a JSON tree. -/
theorem isJson_of_read? {text : String} {node : Reading} (h : Json.read? text = some node) :
    node.IsJson := by
  obtain ⟨⟨read, rest⟩, hread, h⟩ := Option.bind_eq_some_iff.1 h
  dsimp only at h
  split at h
  case isTrue =>
    obtain rfl := Option.some.inj h
    exact isJson_of_value? hread
  case isFalse => cases h

end Json

/-! ## What is read of a JSON tree -/

namespace Reading

variable {node : Reading} {v : Value} {d : Document}

lemma IsJson.arrived {a : Atom} (h : a.IsJson) : (Reading.arrived a).toAtom.IsJson := by
  cases a with
  | null | bool _ | text _ => trivial
  | float _ => exact h
  | int n =>
    obtain ⟨hleast, hmost⟩ := h
    cases n with
    | ofNat n =>
      rw [Reading.arrived, arrivedInt]
      split
      case isTrue =>
        exact ⟨(Int64.le_toInt _), (Int64.toInt_lt _).trans (by decide)⟩
      case isFalse =>
        have hlt : n < 2 ^ 64 := Int.ofNat_lt.1 hmost
        exact (Double.ofNat_below hlt (by omega)).1
    | negSucc n =>
      rw [Reading.arrived, arrivedInt, if_pos (by omega)]
      exact ⟨(Int64.le_toInt _), (Int64.toInt_lt _).trans (by decide)⟩

/-- The value of a JSON tree is written as a JSON tree. -/
theorem IsJson.toDocument_value? (h : node.IsJson) (hv : node.value? = some v) :
    v.toDocument.IsJson := by
  induction h generalizing v with
  | unreadable => cases hv
  | atom ok =>
    obtain rfl := Option.some.inj hv
    exact .atom (IsJson.arrived ok)
  | seq _ ih =>
    obtain ⟨items, hitems, rfl⟩ := Option.map_eq_some_iff.1 hv
    rw [values?_eq_mapM] at hitems
    rw [Value.toDocument, Value.toDocuments_eq_map]
    refine .seq fun d hd => ?_
    obtain ⟨item, hitem, rfl⟩ := List.mem_map.1 hd
    obtain ⟨n, hn, hread⟩ := Value.exists_of_mem_mapM hitems hitem
    exact ih n hn hread
  | map keys _ ih =>
    obtain ⟨pairs, hpairs, rfl⟩ := Option.map_eq_some_iff.1 hv
    rw [valueEntries?_eq_mapM] at hpairs
    have hpair : ∀ e ∈ pairs, (∃ s, e.1.text? = some s) ∧ e.2.toDocument.IsJson := by
      intro e he
      obtain ⟨n, hn, hread⟩ := Value.exists_of_mem_mapM hpairs he
      obtain ⟨key, hkey, hread⟩ := Option.bind_eq_some_iff.1 hread
      obtain ⟨value, hvalue, hread⟩ := Option.bind_eq_some_iff.1 hread
      obtain rfl := Option.some.inj hread
      refine ⟨?_, ih n hn hvalue⟩
      rcases keys n hn with ⟨s, hs⟩ | hs
      · rw [hs] at hkey
        exact ⟨s, by rw [← Option.some.inj hkey]; rfl⟩
      · rw [hs] at hkey
        cases hkey
    obtain ⟨fields, hfields⟩ : ∃ fields, Value.textFields? pairs = some fields := by
      refine Option.ne_none_iff_exists'.1 fun hnone => ?_
      obtain ⟨k, hk, hnone⟩ := Value.textFields?_eq_none_iff.1 hnone
      obtain ⟨e, he, rfl⟩ := List.mem_map.1 hk
      obtain ⟨⟨s, hs⟩, -⟩ := hpair e he
      rw [hs] at hnone
      cases hnone
    rw [Value.ofEntries_of_textFields? hfields, Value.toDocument_strMap,
      Fields.ofList_of_sorted (Fields.sorted_ofList fields)]
    refine .map (fun e he => ?_) fun e he => ?_
    · obtain ⟨f, -, rfl⟩ := List.mem_map.1 he
      exact ⟨f.1, rfl⟩
    · obtain ⟨f, hf, rfl⟩ := List.mem_map.1 he
      obtain ⟨pair, hpair', hfield⟩ := Value.exists_of_mem_mapM hfields (Fields.mem_ofList hf)
      obtain ⟨_, -, rfl⟩ := Option.map_eq_some_iff.1 hfield
      exact (hpair pair hpair').2

lemma bufferedItems?_eq_mapM (nodes : List Reading) :
    bufferedItems? nodes = nodes.mapM buffered? := by
  induction nodes with
  | nil => rfl
  | cons node rest ih => rw [bufferedItems?, ih, List.mapM_cons]

lemma bufferedEntries?_eq_mapM (nodes : List (Reading × Reading)) :
    bufferedEntries? nodes =
      nodes.mapM fun e => do return (← e.1.buffered?, ← e.2.buffered?) := by
  induction nodes with
  | nil => rfl
  | cons e rest ih => simp [bufferedEntries?, ih, List.mapM_cons, Option.bind_assoc]

/-- The data that a JSON tree holds is a JSON tree. -/
theorem IsJson.buffered? (h : node.IsJson) (hd : node.buffered? = some d) : d.IsJson := by
  induction h generalizing d with
  | unreadable => cases hd
  | atom ok =>
    obtain rfl := Option.some.inj hd
    exact .atom ok
  | seq _ ih =>
    obtain ⟨items, hitems, rfl⟩ := Option.map_eq_some_iff.1 hd
    rw [bufferedItems?_eq_mapM] at hitems
    refine .seq fun d hd => ?_
    obtain ⟨n, hn, hread⟩ := Value.exists_of_mem_mapM hitems hd
    exact ih n hn hread
  | map keys _ ih =>
    obtain ⟨entries, hentries, rfl⟩ := Option.map_eq_some_iff.1 hd
    rw [bufferedEntries?_eq_mapM] at hentries
    have hentry : ∀ e ∈ entries, (∃ s, e.1 = .text s) ∧ e.2.IsJson := by
      intro e he
      obtain ⟨n, hn, hread⟩ := Value.exists_of_mem_mapM hentries he
      obtain ⟨key, hkey, hread⟩ := Option.bind_eq_some_iff.1 hread
      obtain ⟨value, hvalue, hread⟩ := Option.bind_eq_some_iff.1 hread
      obtain rfl := Option.some.inj hread
      refine ⟨?_, ih n hn hvalue⟩
      rcases keys n hn with ⟨s, hs⟩ | hs
      · rw [hs] at hkey
        exact ⟨s, (Option.some.inj hkey).symm⟩
      · rw [hs] at hkey
        cases hkey
    exact .map (fun e he => (hentry e he).1) fun e he => (hentry e he).2

/-! ## Records of JSON trees -/

lemma IsJson.entries? {entries : List (Reading × Reading)} (h : node.IsJson)
    (hentries : node.entries? = some entries) : ∀ e ∈ entries, e.2.IsJson := by
  cases h with
  | atom _ | seq _ | unreadable => cases hentries
  | map _ values => exact Option.some.inj hentries ▸ values

lemma IsJson.items? {items : List Reading} (h : node.IsJson)
    (hitems : node.items? = some items) : ∀ item ∈ items, item.IsJson := by
  cases h with
  | atom _ | map _ _ | unreadable => cases hitems
  | seq items_ok => exact Option.some.inj hitems ▸ items_ok

end Reading

namespace Record

variable {record : Record} {node : Reading} {names : List String}

/-- All nodes of a record are JSON trees. -/
structure IsJson (record : Record) : Prop where
  known : ∀ e ∈ record.known, e.2.IsJson
  others : ∀ e ∈ record.others, e.2.IsJson

lemma isJson_of_mapRecord? (h : node.IsJson) (hrecord : node.mapRecord? names = some record) :
    record.IsJson := by
  obtain ⟨entries, fields, hentries, hfields, -, rfl⟩ := Reading.mapRecord?_eq_some_iff.1 hrecord
  have hall : ∀ f ∈ fields, f.2.IsJson := by
    intro f hf
    obtain ⟨e, he, hfield⟩ := Value.exists_of_mem_mapM hfields hf
    obtain ⟨_, -, rfl⟩ := Option.map_eq_some_iff.1 hfield
    exact h.entries? hentries e he
  exact ⟨fun f hf => hall f (List.mem_of_mem_filter hf),
    fun f hf => hall f (List.mem_of_mem_filter hf)⟩

lemma isJson_of_record? (h : node.IsJson) (hrecord : node.record? names = some record) :
    record.IsJson := by
  cases h with
  | seq items_ok =>
    have hitems : (if names.length < _ then none else some ⟨names.zip _, []⟩) = some record :=
      hrecord
    split at hitems
    case isTrue => cases hitems
    case isFalse =>
      obtain rfl := Option.some.inj hitems
      exact ⟨fun e he => items_ok _ (List.of_mem_zip he).2, by simp⟩
  | atom ok => exact isJson_of_mapRecord? (.atom ok) hrecord
  | map keys values => exact isJson_of_mapRecord? (.map keys values) hrecord
  | unreadable => exact isJson_of_mapRecord? .unreadable hrecord

lemma IsJson.field? {name : String} (h : record.IsJson) (hnode : record.field? name = some node) :
    node.IsJson := by
  obtain ⟨e, he, rfl⟩ := Option.map_eq_some_iff.1 hnode
  exact h.known e (List.mem_of_find?_eq_some he)

/-- What is kept of JSON trees are JSON trees. -/
lemma IsJson.extra? {extra : Extra} (h : record.IsJson) (hextra : record.extra? = some extra) :
    ∀ f ∈ extra, f.2.IsJson := by
  obtain ⟨kept, hkept, rfl⟩ := extra?_eq_some_iff.1 hextra
  intro f hf
  obtain ⟨e, he, hread⟩ :=
    Value.exists_of_mem_mapM (mapM_eq_some_iff.2 hkept) (Fields.mem_ofList hf)
  exact (h.others e he).buffered? (kept?_eq_some_iff.1 hread).2.1

/-- What is read as a list was read item by item, of JSON trees. -/
lemma IsJson.exists_of_mem_list? {α : Type} {name : String} {as : List α} {a : α}
    {read : Reading → Option α} (h : record.IsJson)
    (has : record.withDefault? name [] (Reading.list? read) = some as) (ha : a ∈ as) :
    ∃ node : Reading, node.IsJson ∧ read node = some a := by
  rcases Record.withDefault?_eq_some_iff.1 has with ⟨-, rfl⟩ | ⟨node, hnode, hread⟩
  · cases ha
  · obtain ⟨items, hitems, hread⟩ := Option.bind_eq_some_iff.1 hread
    obtain ⟨item, hitem, hread⟩ := Value.exists_of_mem_mapM hread ha
    exact ⟨item, (h.field? hnode).items? hitems item hitem, hread⟩

/-- A tree that is read of a field, or is null when the field is missing, is written as a JSON
tree. -/
lemma IsJson.toDocument_withDefault? {name : String} {v : Value} (h : record.IsJson)
    (hv : record.withDefault? name .null Reading.value? = some v) : v.toDocument.IsJson := by
  rcases Record.withDefault?_eq_some_iff.1 hv with ⟨-, rfl⟩ | ⟨node, hnode, hread⟩
  · exact .atom trivial
  · exact (h.field? hnode).toDocument_value? hread

end Record

/-! ## Manifests in JSON -/

/-- The document of fields is a JSON tree if their documents are. -/
lemma Document.isJson_fields {fields : List (String × Document)}
    (h : ∀ f ∈ fields, f.2.IsJson) : (Document.ofFields fields).IsJson := by
  refine .map (fun e he => ?_) fun e he => ?_
  · obtain ⟨f, -, rfl⟩ := List.mem_map.1 he
    exact ⟨f.1, rfl⟩
  · obtain ⟨f, hf, rfl⟩ := List.mem_map.1 he
    exact h f hf

lemma Document.isJson_text (s : String) : (Document.text s).IsJson :=
  .atom trivial

lemma Document.isJson_seq {α : Type} {as : List α} {toDocument : α → Document}
    (h : ∀ a ∈ as, (toDocument a).IsJson) : (Document.seq (as.map toDocument)).IsJson := by
  refine .seq fun d hd => ?_
  obtain ⟨a, ha, rfl⟩ := List.mem_map.1 hd
  exact h a ha

lemma Reading.isJson_writtenUnless {absent : Bool} {name : String} {d : Document} (h : d.IsJson) :
    ∀ f ∈ writtenUnless absent name d, f.2.IsJson := by
  cases absent with
  | true => simp [writtenUnless]
  | false => simpa [writtenUnless] using h

variable {node : Reading}

lemma Job.isJson_of_read? {job : Job} (hn : node.IsJson) (h : Job.read? node = some job) :
    job.toDocument.IsJson := by
  obtain ⟨record, hrecord, -, -, hproperties, hextra⟩ := Job.read?_eq_some_iff.1 h
  have hrecord := Record.isJson_of_mapRecord? hn hrecord
  have hfields : ∀ f ∈ job.fields, f.2.IsJson :=
    List.forall_mem_append.2 ⟨by simp [Document.isJson_text],
      Reading.isJson_writtenUnless (hrecord.toDocument_withDefault? hproperties)⟩
  rw [Job.toDocument_eq]
  exact Document.isJson_fields (List.forall_mem_append.2 ⟨hfields, hrecord.extra? hextra⟩)

lemma InstanceGroup.isJson_of_read? {group : InstanceGroup} (hn : node.IsJson)
    (h : InstanceGroup.read? node = some group) : group.toDocument.IsJson := by
  obtain ⟨record, hrecord, -, -, hjobs, hextra⟩ := InstanceGroup.read?_eq_some_iff.1 h
  have hrecord := Record.isJson_of_mapRecord? hn hrecord
  have hinstances : (Document.atom (.int group.instances.toNat)).IsJson := by
    have hlt := group.instances.toNat_lt
    exact .atom ⟨by omega, by omega⟩
  have hjobs : (Document.seq (group.jobs.map Job.toDocument)).IsJson := by
    refine Document.isJson_seq fun job hjob => ?_
    obtain ⟨_, hnode, hread⟩ := hrecord.exists_of_mem_list? hjobs hjob
    exact Job.isJson_of_read? hnode hread
  have hfields : ∀ f ∈ group.fields, f.2.IsJson := by
    simp [InstanceGroup.fields, Document.isJson_text, hinstances, hjobs]
  rw [InstanceGroup.toDocument_eq]
  exact Document.isJson_fields (List.forall_mem_append.2 ⟨hfields, hrecord.extra? hextra⟩)

lemma Variable.isJson_of_read? {v : Variable} (hn : node.IsJson)
    (h : Variable.read? node = some v) : v.toDocument.IsJson := by
  obtain ⟨record, hrecord, -, -, hoptions⟩ := Variable.read?_eq_some_iff.1 h
  have hrecord := Record.isJson_of_record? hn hrecord
  have hfields : ∀ f ∈ v.fields, f.2.IsJson :=
    List.forall_mem_append.2 ⟨by simp [Document.isJson_text],
      Reading.isJson_writtenUnless (hrecord.toDocument_withDefault? hoptions)⟩
  rw [Variable.toDocument_eq]
  exact Document.isJson_fields hfields

/-- A manifest that was read of a JSON tree is written as a JSON tree. -/
theorem Manifest.isJson_of_read? {manifest : Manifest} (hn : node.IsJson)
    (h : Manifest.read? node = some manifest) : manifest.toDocument.IsJson := by
  obtain ⟨record, hrecord, -, hgroups, hvariables, hextra⟩ := Manifest.read?_eq_some_iff.1 h
  have hrecord := Record.isJson_of_mapRecord? hn hrecord
  have hgroups : (Document.seq (manifest.groups.map InstanceGroup.toDocument)).IsJson := by
    refine Document.isJson_seq fun group hgroup => ?_
    obtain ⟨_, hnode, hread⟩ := hrecord.exists_of_mem_list? hgroups hgroup
    exact InstanceGroup.isJson_of_read? hnode hread
  have hvariables : (Document.seq (manifest.variables.map Variable.toDocument)).IsJson := by
    refine Document.isJson_seq fun v hv => ?_
    obtain ⟨_, hnode, hread⟩ := hrecord.exists_of_mem_list? hvariables hv
    exact Variable.isJson_of_read? hnode hread
  have hfields : ∀ f ∈ manifest.fields, f.2.IsJson :=
    List.forall_mem_append.2 ⟨by simp [Document.isJson_text, hgroups],
      Reading.isJson_writtenUnless hvariables⟩
  rw [Manifest.toDocument_eq]
  exact Document.isJson_fields (List.forall_mem_append.2 ⟨hfields, hrecord.extra? hextra⟩)

/-! ## Writing JSON trees -/

namespace Json

lemma exists_itemTexts {layout : Layout} {items : List Document}
    (h : ∀ d ∈ items, ∀ level, ∃ s, text layout level d = .ok s) (level : Nat) :
    ∃ texts, itemTexts layout level items = .ok texts := by
  induction items with
  | nil => exact ⟨[], rfl⟩
  | cons d rest ih =>
    obtain ⟨hfirst, hrest⟩ := List.forall_mem_cons.1 h
    obtain ⟨s, hs⟩ := hfirst level
    obtain ⟨texts, htexts⟩ := ih hrest
    exact ⟨s :: texts, by rw [itemTexts, hs, htexts]; rfl⟩

lemma exists_entryTexts {layout : Layout} {entries : List (Document × Document)}
    (hkeys : ∀ e ∈ entries, ∃ s, e.1 = .text s)
    (h : ∀ e ∈ entries, ∀ level, ∃ s, text layout level e.2 = .ok s) (level : Nat) :
    ∃ texts, entryTexts layout level entries = .ok texts := by
  induction entries with
  | nil => exact ⟨[], rfl⟩
  | cons e rest ih =>
    obtain ⟨key, value⟩ := e
    obtain ⟨⟨k, hk⟩, hkeysRest⟩ := List.forall_mem_cons.1 hkeys
    obtain ⟨hfirst, hrest⟩ := List.forall_mem_cons.1 h
    obtain rfl : key = .text k := hk
    obtain ⟨s, hs⟩ := hfirst level
    obtain ⟨texts, htexts⟩ := ih hkeysRest hrest
    exact ⟨_ :: texts, by rw [entryTexts, hs, htexts]; rfl⟩

/-- Every JSON tree has a JSON text. -/
theorem exists_text {d : Document} (h : d.IsJson) (layout : Layout) (level : Nat) :
    ∃ s, text layout level d = .ok s := by
  induction h generalizing level with
  | atom _ => exact ⟨_, rfl⟩
  | seq _ ih =>
    obtain ⟨texts, htexts⟩ := exists_itemTexts ih (level + 1)
    exact ⟨_, by rw [text, htexts]; rfl⟩
  | map keys _ ih =>
    obtain ⟨texts, htexts⟩ := exists_entryTexts keys ih (level + 1)
    exact ⟨_, by rw [text, htexts]; rfl⟩

end Json

end PropertyTree
