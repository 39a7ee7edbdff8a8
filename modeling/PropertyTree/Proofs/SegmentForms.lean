import Mathlib.Data.Nat.Digits.Defs
import PropertyTree.Path.Access

/-!
# The forms of a segment

`SegmentClass.ofText` finds the form of a segment by cutting it at its `=` and by looking at its
characters.  Here the forms are said without the cutting: a query is a key and a value with the only
`=` between them (`IsQuery`), an index is a decimal numeral (`IsNumeral`), of any length and with
any number of zeros in front, and every other segment is a key.

`pieces_eq_iff` is the law of cutting: the pieces are the texts free of the separator that give back
the whole when they are joined.
-/

namespace PropertyTree

/-! ## Cutting at a separator -/

section Pieces

variable {separator : Char} {cs first : List Char} {others : List (List Char)}

/-- Pieces with separators between them. -/
def joinedPieces (separator : Char) (first : List Char) (others : List (List Char)) : List Char :=
  first ++ others.flatMap (separator :: ·)

lemma pieces_cons (separator c : Char) (rest : List Char) :
    pieces separator (c :: rest) =
      if c = separator then ([], (pieces separator rest).1 :: (pieces separator rest).2)
      else (c :: (pieces separator rest).1, (pieces separator rest).2) :=
  rfl

lemma pieces_of_not_mem (h : separator ∉ cs) : pieces separator cs = (cs, []) := by
  induction cs with
  | nil => rfl
  | cons c rest ih =>
    obtain ⟨hc, hrest⟩ : separator ≠ c ∧ separator ∉ rest := by simpa using h
    rw [pieces_cons, ih hrest, if_neg hc.symm]

lemma pieces_append (h : separator ∉ first) (rest : List Char) :
    pieces separator (first ++ separator :: rest) =
      (first, (pieces separator rest).1 :: (pieces separator rest).2) := by
  induction first with
  | nil => rw [List.nil_append, pieces_cons, if_pos rfl]
  | cons c first ih =>
    obtain ⟨hc, hfirst⟩ : separator ≠ c ∧ separator ∉ first := by simpa using h
    rw [List.cons_append, pieces_cons, ih hfirst, if_neg hc.symm]

/-- Joining free pieces and cutting again gives back the pieces. -/
lemma pieces_joinedPieces (hfirst : separator ∉ first)
    (hothers : ∀ piece ∈ others, separator ∉ piece) :
    pieces separator (joinedPieces separator first others) = (first, others) := by
  induction others generalizing first with
  | nil => rw [joinedPieces, List.flatMap_nil, List.append_nil, pieces_of_not_mem hfirst]
  | cons next rest ih =>
    obtain ⟨hnext, hrest⟩ := List.forall_mem_cons.1 hothers
    have hjoined : joinedPieces separator first (next :: rest) =
        first ++ separator :: joinedPieces separator next rest := by
      rw [joinedPieces, List.flatMap_cons, List.cons_append, joinedPieces]
    rw [hjoined, pieces_append hfirst, ih hnext hrest]

/-- The pieces of a text are free of the separator and join to the text. -/
lemma joinedPieces_pieces (separator : Char) (cs : List Char) :
    joinedPieces separator (pieces separator cs).1 (pieces separator cs).2 = cs ∧
      separator ∉ (pieces separator cs).1 ∧
      ∀ piece ∈ (pieces separator cs).2, separator ∉ piece := by
  induction cs with
  | nil => simp [pieces, joinedPieces]
  | cons c rest ih =>
    obtain ⟨hjoin, hfirst, hothers⟩ := ih
    rw [pieces_cons]
    split
    case isTrue hc =>
      subst hc
      refine ⟨?_, List.not_mem_nil, List.forall_mem_cons.2 ⟨hfirst, hothers⟩⟩
      rw [joinedPieces, List.flatMap_cons, List.nil_append, List.cons_append, ← joinedPieces, hjoin]
    case isFalse hc =>
      refine ⟨?_, ?_, hothers⟩
      · rw [joinedPieces, List.cons_append, ← joinedPieces, hjoin]
      · simpa [Ne.symm hc] using hfirst

theorem pieces_eq_iff : pieces separator cs = (first, others) ↔
    cs = joinedPieces separator first others ∧ separator ∉ first ∧
      ∀ piece ∈ others, separator ∉ piece := by
  constructor
  · intro h
    obtain ⟨hjoin, hfirst, hothers⟩ := joinedPieces_pieces separator cs
    rw [h] at hjoin hfirst hothers
    exact ⟨hjoin.symm, hfirst, hothers⟩
  · rintro ⟨rfl, hfirst, hothers⟩
    exact pieces_joinedPieces hfirst hothers

end Pieces

/-! ## Queries -/

/-- A segment `key=value` with no other `=` in it. -/
def IsQuery (segment key value : String) : Prop :=
  segment = key ++ "=" ++ value ∧ '=' ∉ key.toList ∧ '=' ∉ value.toList

variable {segment key value digits : String} {n : Nat}

theorem SegmentClass.ofText_eq_query_iff :
    ofText segment = query key value ↔ IsQuery segment key value := by
  have hjoined : ∀ name x : List Char, joinedPieces '=' name [x] = name ++ '=' :: x := by
    simp [joinedPieces]
  unfold ofText
  constructor
  · intro h
    split at h
    case h_1 name x hpieces =>
      obtain ⟨rfl, rfl⟩ : String.ofList name = key ∧ String.ofList x = value := by simpa using h
      obtain ⟨hjoin, hname, hx⟩ := pieces_eq_iff.1 hpieces
      rw [hjoined] at hjoin
      refine ⟨?_, by simpa using hname, by simpa using hx⟩
      rw [← String.toList_inj, hjoin]
      simp
    case h_2 => split at h <;> cases h
  · rintro ⟨rfl, hkey, hvalue⟩
    have hpieces : pieces '=' (key ++ "=" ++ value).toList = (key.toList, [value.toList]) := by
      refine pieces_eq_iff.2 ⟨?_, hkey, by simpa using hvalue⟩
      rw [hjoined]
      simp
    rw [hpieces]
    simp

/-! ## Indices -/

/-- A segment of ASCII digits, at least one, that is the decimal numeral of a number. -/
def IsNumeral (segment : String) (n : Nat) : Prop :=
  segment ≠ "" ∧ (∀ c ∈ segment.toList, '0' ≤ c ∧ c ≤ '9') ∧
    n = Nat.ofDigits 10 (segment.toList.reverse.map digitValue)

lemma decimalValue_eq_ofDigits (cs : List Char) :
    decimalValue cs = Nat.ofDigits 10 (cs.reverse.map digitValue) := by
  rw [Nat.ofDigits_eq_foldr, List.foldr_map, List.foldr_reverse, decimalValue]
  simp [Nat.add_comm]

lemma IsNumeral.decimalValue_eq (h : IsNumeral segment n) : decimalValue segment.toList = n := by
  rw [decimalValue_eq_ofDigits, h.2.2]

/-- A numeral has no `=`, so its form is not that of a query. -/
lemma IsNumeral.not_isQuery (h : IsNumeral segment n) : ¬ IsQuery segment key value := by
  rintro ⟨rfl, -, -⟩
  have hdigit := h.2.1 '=' (by simp)
  revert hdigit
  decide

theorem SegmentClass.ofText_eq_index_iff :
    ofText segment = index digits ↔ digits = segment ∧ ∃ n, IsNumeral segment n := by
  have hdigits : (segment.toList ≠ [] ∧ segment.toList.all isDigit = true) ↔
      ∃ n, IsNumeral segment n := by
    simp [IsNumeral, isDigit]
  constructor
  · intro h
    unfold ofText at h
    split at h
    case h_1 => cases h
    case h_2 =>
      split at h
      case isTrue hall =>
        obtain rfl : segment = digits := by simpa using h
        exact ⟨rfl, hdigits.1 hall⟩
      case isFalse => cases h
  · rintro ⟨rfl, n, hn⟩
    have hnot : ∀ key value, ofText digits ≠ query key value := fun key value h =>
      hn.not_isQuery (ofText_eq_query_iff.1 h)
    unfold ofText at hnot ⊢
    split
    case h_1 name x hpieces => simp [hpieces] at hnot
    case h_2 => rw [if_pos (hdigits.2 ⟨n, hn⟩)]

/-- Being a numeral is a matter of the characters alone. -/
lemma exists_isNumeral_iff :
    (∃ n, IsNumeral segment n) ↔ segment ≠ "" ∧ ∀ c ∈ segment.toList, '0' ≤ c ∧ c ≤ '9' := by
  constructor
  · rintro ⟨_, hne, hdigits, -⟩
    exact ⟨hne, hdigits⟩
  · rintro ⟨hne, hdigits⟩
    exact ⟨_, hne, hdigits, rfl⟩

/-! ## Keys -/

/-- A segment that is neither a query nor an index is a key, and the key is the whole segment. -/
theorem SegmentClass.ofText_eq_key_iff {name : String} :
    ofText segment = .key name ↔ name = segment ∧ (¬ ∃ k v, IsQuery segment k v) ∧
      ¬ ∃ n, IsNumeral segment n := by
  cases hform : ofText segment with
  | query k v =>
    have hquery := ofText_eq_query_iff.1 hform
    simp only [reduceCtorEq, false_iff]
    exact fun h => h.2.1 ⟨k, v, hquery⟩
  | index digits =>
    have hnumeral := (ofText_eq_index_iff.1 hform).2
    simp only [reduceCtorEq, false_iff]
    exact fun h => h.2.2 hnumeral
  | key whole =>
    have hwhole : segment = whole := by
      unfold ofText at hform
      split at hform
      case h_1 => cases hform
      case h_2 =>
        split at hform
        case isTrue => cases hform
        case isFalse => exact SegmentClass.key.inj hform
    have hquery : ¬ ∃ k v, IsQuery segment k v := by
      rintro ⟨k, v, h⟩
      rw [ofText_eq_query_iff.2 h] at hform
      cases hform
    have hnumeral : ¬ ∃ n, IsNumeral segment n := by
      intro h
      rw [ofText_eq_index_iff.2 ⟨rfl, h⟩] at hform
      cases hform
    rw [SegmentClass.key.injEq, ← hwhole, eq_comm]
    exact (and_iff_left ⟨hquery, hnumeral⟩).symm

end PropertyTree
