import PropertyTree.Proofs.Records

/-!
# Texts that deliver a document

A text layer that is true to what was written hands the reader the tree that the writer was given.
Leaves may still come by their spelling, so `Reading.Delivers` does not ask for the tree itself: it
asks that the node is without tags and that every leaf means what the leaf of the document is.  This
is decidable, so it can be checked of a text.

What is delivered is read as it would be read off the document.  For leaves this takes a look at
the readers of known types, which go by the spelling (`Delivers.text?`, `Delivers.natural?`); for
records it is a matter of finding the fields (`Delivers.mapRecord?`, `required?_of_delivers`).
-/

namespace PropertyTree

namespace Reading

/-! ## Delivery -/

mutual

/-- The document that a node without tags delivers. -/
def delivered? : Reading → Option Document
  | atom a => some (.atom a)
  | spelled text style none => (spelledAtom? text style none).map .atom
  | seq items => (deliveredItems? items).map .seq
  | map entries => (deliveredEntries? entries).map .map
  | spelled _ _ (some _) | tagged .. | absent | unreadable => none

/-- The documents that items deliver. -/
def deliveredItems? : List Reading → Option (List Document)
  | [] => some []
  | item :: rest => do return (← item.delivered?) :: (← deliveredItems? rest)

/-- The entries that entries deliver. -/
def deliveredEntries? : List (Reading × Reading) → Option (List (Document × Document))
  | [] => some []
  | (key, value) :: rest => do
    return (← key.delivered?, ← value.delivered?) :: (← deliveredEntries? rest)

end

/-- The node delivers the document: no node in it has a tag, and its leaves mean those of the
document. -/
def Delivers (node : Reading) (document : Document) : Prop :=
  node.delivered? = some document

instance (node : Reading) (document : Document) : Decidable (node.Delivers document) :=
  inferInstanceAs (Decidable (_ = _))

variable {node : Reading} {a : Atom} {items : List Document}
  {entries : List (Document × Document)}

lemma Delivers.atom_cases (h : node.Delivers (.atom a)) :
    node = .atom a ∨
      ∃ text style, node = .spelled text style none ∧ spelledAtom? text style none = some a := by
  unfold Delivers delivered? at h
  split at h
  case h_1 b =>
    obtain rfl : b = a := by simpa using h
    exact .inl rfl
  case h_2 text style =>
    obtain ⟨b, hb, heq⟩ := Option.map_eq_some_iff.1 h
    obtain rfl : b = a := by simpa using heq
    exact .inr ⟨text, style, rfl, hb⟩
  case h_3 | h_4 => simp at h
  all_goals cases h

lemma deliveredItems?_eq_mapM (nodes : List Reading) :
    deliveredItems? nodes = nodes.mapM delivered? := by
  induction nodes with
  | nil => rfl
  | cons node rest ih => rw [deliveredItems?, ih, List.mapM_cons]

lemma deliveredEntries?_eq_mapM (nodes : List (Reading × Reading)) :
    deliveredEntries? nodes =
      nodes.mapM fun e => do return (← e.1.delivered?, ← e.2.delivered?) := by
  induction nodes with
  | nil => rfl
  | cons e rest ih => simp [deliveredEntries?, ih, List.mapM_cons, Option.bind_assoc]

lemma Delivers.seq_cases (h : node.Delivers (.seq items)) :
    ∃ nodes, node = .seq nodes ∧ List.Forall₂ Delivers nodes items := by
  unfold Delivers delivered? at h
  split at h
  case h_3 nodes =>
    obtain ⟨items', hitems, heq⟩ := Option.map_eq_some_iff.1 h
    obtain rfl : items' = items := by simpa using heq
    rw [deliveredItems?_eq_mapM] at hitems
    exact ⟨nodes, rfl, mapM_eq_some_iff.1 hitems⟩
  case h_1 | h_2 | h_4 => simp at h
  all_goals cases h

/-- Both parts of an entry are delivered. -/
def DeliversEntry (e : Reading × Reading) (f : Document × Document) : Prop :=
  e.1.Delivers f.1 ∧ e.2.Delivers f.2

lemma Delivers.map_cases (h : node.Delivers (.map entries)) :
    ∃ nodes, node = .map nodes ∧ List.Forall₂ DeliversEntry nodes entries := by
  unfold Delivers delivered? at h
  split at h
  case h_4 nodes =>
    obtain ⟨entries', hentries, heq⟩ := Option.map_eq_some_iff.1 h
    obtain rfl : entries' = entries := by simpa using heq
    rw [deliveredEntries?_eq_mapM] at hentries
    refine ⟨nodes, rfl, (mapM_eq_some_iff.1 hentries).imp fun e f hef => ?_⟩
    obtain ⟨key, hkey, hef⟩ := Option.bind_eq_some_iff.1 hef
    obtain ⟨value, hvalue, hef⟩ := Option.bind_eq_some_iff.1 hef
    obtain rfl : (key, value) = f := by simpa using hef
    exact ⟨hkey, hvalue⟩
  case h_1 | h_2 | h_3 => simp at h
  all_goals cases h

/-! ## Leaves -/

/-- A plain scalar that means a string is that string, and one that means an integer reads as
one. -/
lemma atom?_cases {text : String} (h : Plain.atom? text = some a) :
    (∀ s, a = .text s → text = s) ∧ ∀ n, a = .int n → Plain.integer text = .fits n := by
  unfold Plain.atom? at h
  split at h
  case isTrue =>
    obtain rfl : Atom.null = a := by simpa using h
    simp
  case isFalse =>
    split at h
    case h_1 b _ =>
      obtain rfl : Atom.bool b = a := by simpa using h
      simp
    case h_2 =>
      split at h
      case h_1 n hn =>
        obtain rfl : Atom.int n = a := by simpa using h
        simp [hn]
      case h_2 => cases h
      case h_3 =>
        split at h
        case h_1 x _ =>
          obtain rfl : Atom.float x = a := by simpa using h
          simp
        case h_2 =>
          obtain rfl : Atom.text text = a := by simpa using h
          simp

/-- The same of a leaf without a tag, quoted or not; a quoted one is no integer. -/
lemma spelledAtom?_cases {text : String} {style : ScalarStyle}
    (h : spelledAtom? text style none = some a) :
    (∀ s, a = .text s → text = s) ∧
      ∀ n, a = .int n → style = .plain ∧ Plain.integer text = .fits n := by
  have hcases : (if style = .plain then Plain.atom? text else some (.text text)) = some a := h
  split at hcases
  case isTrue hplain =>
    obtain ⟨htext, hint⟩ := atom?_cases hcases
    exact ⟨htext, fun n hn => ⟨hplain, hint n hn⟩⟩
  case isFalse =>
    obtain rfl : Atom.text text = a := by simpa using hcases
    simp

lemma Delivers.text? {s : String} (h : node.Delivers (.text s)) : node.text? = some s := by
  rcases h.atom_cases with rfl | ⟨text, style, rfl, hatom⟩
  · rfl
  · rw [← (spelledAtom?_cases hatom).1 s rfl]
    rfl

/-- An integer in the range of the counts is read as a count, by its value or by its spelling. -/
lemma Delivers.natural?_of_mem {k : Int} (hk : 0 ≤ k ∧ k < 4294967296)
    (h : node.Delivers (.atom (.int k))) : node.natural? = some (UInt32.ofNat k.toNat) := by
  have hnumber : ∀ number : Option Int, number = some k →
      (number.bind fun n =>
        if 0 ≤ n ∧ n < 4294967296 then some (UInt32.ofNat n.toNat) else none) =
          some (UInt32.ofNat k.toNat) := by
    rintro _ rfl
    rw [Option.bind_some, if_pos hk]
  rcases h.atom_cases with rfl | ⟨text, style, rfl, hatom⟩
  · exact hnumber _ rfl
  · obtain ⟨rfl, hint⟩ := (spelledAtom?_cases hatom).2 k rfl
    refine hnumber _ ?_
    have hopen : isOpenTo .int .plain none = true := rfl
    simp only [bare, hopen, if_true, hint]

lemma Delivers.natural? {n : UInt32} (h : node.Delivers (.atom (.int n.toNat))) :
    node.natural? = some n := by
  have hlt := n.toNat_lt
  have hsame : UInt32.ofNat (Int.toNat n.toNat) = n := by simp
  rw [h.natural?_of_mem (by omega), hsame]

/-- An atom that is delivered is welcome where any value is. -/
lemma Delivers.value?_atom (h : node.Delivers (.atom a)) :
    node.value? = some (.scalar (arrived a)) := by
  rcases h.atom_cases with rfl | ⟨text, style, rfl, hatom⟩
  · rfl
  · simp [value?, hatom]

/-! ## Data -/

mutual

/-- What is delivered is the data that the node holds. -/
lemma Delivers.buffered? : ∀ {node : Reading} {d : Document}, node.Delivers d →
    node.buffered? = some d
  | .atom _, _, h => h
  | .spelled _ _ none, _, h => h
  | .seq _, _, h => by
    obtain ⟨items, hitems, rfl⟩ := Option.map_eq_some_iff.1 h
    rw [Reading.buffered?, bufferedItems?_of_delivered hitems, Option.map_some]
  | .map _, _, h => by
    obtain ⟨entries, hentries, rfl⟩ := Option.map_eq_some_iff.1 h
    rw [Reading.buffered?, bufferedEntries?_of_delivered hentries, Option.map_some]
  | .spelled _ _ (some _), _, h | .tagged _ _, _, h | .absent, _, h | .unreadable, _, h => by
    cases h

/-- What items deliver is the data that they hold. -/
lemma bufferedItems?_of_delivered : ∀ {nodes : List Reading} {items : List Document},
    deliveredItems? nodes = some items → bufferedItems? nodes = some items
  | [], _, h => h
  | node :: rest, _, h => by
    obtain ⟨first, hfirst, h⟩ := Option.bind_eq_some_iff.1 h
    obtain ⟨others, hothers, h⟩ := Option.bind_eq_some_iff.1 h
    rw [bufferedItems?, Delivers.buffered? hfirst, bufferedItems?_of_delivered hothers]
    exact h

/-- What entries deliver is the data that they hold. -/
lemma bufferedEntries?_of_delivered : ∀ {nodes : List (Reading × Reading)}
    {entries : List (Document × Document)},
    deliveredEntries? nodes = some entries → bufferedEntries? nodes = some entries
  | [], _, h => h
  | (key, value) :: rest, _, h => by
    obtain ⟨first, hfirst, h⟩ := Option.bind_eq_some_iff.1 h
    obtain ⟨second, hsecond, h⟩ := Option.bind_eq_some_iff.1 h
    obtain ⟨others, hothers, h⟩ := Option.bind_eq_some_iff.1 h
    rw [bufferedEntries?, Delivers.buffered? hfirst, Delivers.buffered? hsecond,
      bufferedEntries?_of_delivered hothers]
    exact h

end

/-! ## Records -/

/-- A field of a record is delivered. -/
def DeliversField (e : String × Reading) (f : String × Document) : Prop :=
  e.1 = f.1 ∧ e.2.Delivers f.2

/-- The entries of a map with text keys are delivered with their keys as text. -/
lemma texts?_of_delivers {nodes : List (Reading × Reading)} {fields : List (String × Document)}
    (h : List.Forall₂ DeliversEntry nodes (fields.map fun f => fieldOf f.1 f.2)) :
    ∃ entries, Record.texts? nodes = some entries ∧
      List.Forall₂ DeliversField entries fields := by
  induction fields generalizing nodes with
  | nil =>
    cases h
    exact ⟨[], rfl, .nil⟩
  | cons f rest ih =>
    obtain _ | ⟨⟨hkey, hvalue⟩, hrest⟩ := h
    rename_i e nodes
    obtain ⟨entries, hentries, hfields⟩ := ih hrest
    refine ⟨(f.1, e.2) :: entries, ?_, .cons ⟨rfl, hvalue⟩ hfields⟩
    rw [Record.texts?, List.mapM_cons, ← Record.texts?, hkey.text?, hentries]
    rfl

lemma keys_of_delivers {entries : List (String × Reading)} {fields : List (String × Document)}
    (h : List.Forall₂ DeliversField entries fields) :
    entries.map Prod.fst = fields.map Prod.fst := by
  induction h with
  | nil => rfl
  | cons hfield _ ih => rw [List.map_cons, List.map_cons, hfield.1, ih]

/-- The record of a delivered document has the fields of the document, those that the record knows
in the order of its names, and the others. -/
theorem Delivers.mapRecord? {names : List String} {known others : List (String × Document)}
    (h : node.Delivers (.ofFields (known ++ others)))
    (hknown : (known.map Prod.fst).Sublist names) (hnames : names.Nodup)
    (hothers : ∀ f ∈ others, f.1 ∉ names) :
    ∃ record, node.mapRecord? names = some record ∧
      List.Forall₂ DeliversField record.known known ∧
      List.Forall₂ DeliversField record.others others := by
  obtain ⟨nodes, rfl, hnodes⟩ := h.map_cases
  obtain ⟨entries, hentries, hfields⟩ := texts?_of_delivers hnodes
  have hbefore := List.forall₂_take_append entries known others hfields
  have hafter := List.forall₂_drop_append entries known others hfields
  have hkeys := keys_of_delivers hbefore
  have hin : ∀ e ∈ entries.take known.length, e.1 ∈ names := by
    intro e he
    exact hknown.subset (hkeys ▸ List.mem_map_of_mem he)
  have hout : ∀ e ∈ entries.drop known.length, e.1 ∉ names := by
    intro e he
    obtain ⟨f, hf, hfe⟩ := List.mem_map.1 (keys_of_delivers hafter ▸ List.mem_map_of_mem he)
    exact hfe ▸ hothers f hf
  have hsplit := Record.split_append hin hout
  rw [List.take_append_drop] at hsplit
  refine ⟨_, mapRecord?_eq_some_iff.2 ⟨nodes, entries, rfl, hentries, ?_, hsplit.symm⟩,
    hbefore, hafter⟩
  rw [hsplit, Record.KnownOnce, hkeys]
  exact hnames.sublist hknown

/-- The node of a field delivers the field, and is missing if there is none. -/
lemma find?_of_delivers {entries : List (String × Reading)} {fields : List (String × Document)}
    (h : List.Forall₂ DeliversField entries fields) (name : String) :
    Option.Rel Delivers ((entries.find? (·.1 == name)).map Prod.snd) (Fields.get? fields name) := by
  induction h with
  | nil => exact .none
  | @cons e f entries rest hfield _ ih =>
    obtain ⟨k, d⟩ := f
    obtain ⟨hkey, hvalue⟩ := hfield
    obtain rfl : e.1 = k := hkey
    rw [Fields.get?, List.find?_cons]
    by_cases hname : e.1 = name
    · have hbeq : (e.1 == name) = true := by simpa using hname
      rw [if_pos hname, hbeq]
      exact .some hvalue
    · have hbeq : (e.1 == name) = false := by simpa using hname
      rw [if_neg hname, hbeq]
      exact ih

section Read

variable {α : Type} {record : Record} {fields : List (String × Document)} {name : String} {a : α}
  {read : Reading → Option α}

/-- A field that is delivered is read. -/
lemma required?_of_delivers {d : Document}
    (h : List.Forall₂ DeliversField record.known fields)
    (hfield : Fields.get? fields name = some d)
    (hread : ∀ node : Reading, node.Delivers d → read node = some a) :
    record.required? name read = some a := by
  have hrel := find?_of_delivers h name
  rw [hfield, ← Record.field?] at hrel
  rw [Record.required?]
  cases hnode : record.field? name with
  | none =>
    rw [hnode] at hrel
    cases hrel
  | some node =>
    rw [hnode] at hrel
    cases hrel with
    | some hdelivers => exact hread node hdelivers

/-- A field that is delivered is read, also if it has a default. -/
lemma withDefault?_of_delivers {d : Document}
    (h : List.Forall₂ DeliversField record.known fields)
    (hfield : Fields.get? fields name = some d) (default : α)
    (hread : ∀ node : Reading, node.Delivers d → read node = some a) :
    record.withDefault? name default read = some a := by
  obtain ⟨node, hnode, hread⟩ := Option.bind_eq_some_iff.1 (required?_of_delivers h hfield hread)
  exact Record.withDefault?_eq_some_iff.2 (.inr ⟨node, hnode, hread⟩)

/-- A field that is missing has its default. -/
lemma withDefault?_of_missing (h : List.Forall₂ DeliversField record.known fields)
    (hfield : Fields.get? fields name = none) (default : α) (read : Reading → Option α) :
    record.withDefault? name default read = some default := by
  have hrel := find?_of_delivers h name
  rw [hfield, ← Record.field?] at hrel
  cases hnode : record.field? name with
  | none => exact Record.withDefault?_eq_some_iff.2 (.inl ⟨hnode, rfl⟩)
  | some node =>
    rw [hnode] at hrel
    cases hrel

/-- A field that is written unless it has its default. -/
def writtenUnless (absent : Bool) (name : String) (d : Document) : List (String × Document) :=
  if absent then [] else [(name, d)]

lemma keys_writtenUnless (absent : Bool) (name : String) (d : Document) :
    ((writtenUnless absent name d).map Prod.fst).Sublist [name] := by
  cases absent with
  | true => exact List.nil_sublist _
  | false => exact List.Sublist.refl _

/-- A field that is written unless it has its default is read. -/
lemma withDefault?_of_writtenUnless {absent : Bool} {d : Document} {default : α}
    (h : List.Forall₂ DeliversField record.known fields)
    (hfield : Fields.get? fields name = Fields.get? (writtenUnless absent name d) name)
    (habsent : absent = true → default = a)
    (hread : ∀ node : Reading, node.Delivers d → read node = some a) :
    record.withDefault? name default read = some a := by
  cases absent with
  | true =>
    rw [← habsent rfl]
    exact withDefault?_of_missing h hfield default read
  | false =>
    refine withDefault?_of_delivers h ?_ default hread
    rw [hfield]
    simp [writtenUnless, Fields.get?]

/-- Items that are delivered are read one by one. -/
lemma Delivers.list? {items : List Document} {as : List α} (h : node.Delivers (.seq items))
    (hread : List.Forall₂ (fun d a => ∀ node : Reading, node.Delivers d → read node = some a)
      items as) :
    node.list? read = some as := by
  obtain ⟨nodes, rfl, hnodes⟩ := h.seq_cases
  have hitems : (Reading.seq nodes).items? = some nodes := rfl
  rw [Reading.list?, hitems, Option.bind_some, mapM_eq_some_iff]
  clear h hitems
  induction hnodes generalizing as with
  | nil => cases hread; exact .nil
  | cons hnode _ ih =>
    obtain _ | ⟨hfirst, hrest⟩ := hread
    exact .cons (hfirst _ hnode) (ih hrest)

end Read

/-- Fields that were kept are delivered as fields to keep. -/
lemma extra?_of_delivers {record : Record} {extra : List (String × Document)}
    (h : List.Forall₂ DeliversField record.others extra) (hsorted : Fields.Sorted extra)
    (hdata : ∀ f ∈ extra, f.2.toReading.document? = some f.2) : record.extra? = some extra := by
  refine Record.extra?_eq_some_iff.2 ⟨extra, ?_, (Fields.ofList_of_sorted hsorted).symm⟩
  clear hsorted
  generalize record.others = others at h ⊢
  induction h with
  | nil => exact .nil
  | cons hfield _ ih =>
    obtain ⟨hfirst, hrest⟩ := List.forall_mem_cons.1 hdata
    have hkept := Record.kept?_eq_some_iff.2 ⟨hfield.1.symm, hfield.2.buffered?, hfirst⟩
    exact .cons hkept (ih hrest)

end Reading

end PropertyTree
