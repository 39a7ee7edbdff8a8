import PropertyTree.Proofs.PathReads

/-!
# Indices of sequences

The last segment of a path picks the item of a sequence by a decimal numeral.  A numeral may be of
any length and has any number as its value, while an index is read as a word of 64 bits, digit by
digit, with every product and every sum checked (`parseWord?`).  The two agree as far as a word
goes, whatever zeros stand in front (`parseWord?_of_isNumeral`): the loop gives up exactly on a
numeral of `2 ^ 64` or more, because what it has read so far only grows.  Such a numeral is past the
end of every sequence whose length fits a word, so the reading that fails and the index that is too
large end in the same failure, and `Value.lookup_seq_exact` can be said with numbers alone.

The loop takes a plus in front of the digits, and a segment with one does not get to it: it is no
numeral.
-/

namespace PropertyTree

variable {segment : String} {n : Nat}

/-! ## Reading a word digit by digit -/

/-- The number as a word of 64 bits, if it fits. -/
def inWord? (n : Nat) : Option Nat :=
  if n < 2 ^ 64 then some n else none

/-- The product of two words, if it fits. -/
def checkedMul (a b : UInt64) : Option UInt64 :=
  if a.toNat * b.toNat < 2 ^ 64 then some (a * b) else none

/-- The sum of two words, if it fits. -/
def checkedAdd (a b : UInt64) : Option UInt64 :=
  if a.toNat + b.toNat < 2 ^ 64 then some (a + b) else none

/-- One more digit at the end of the digits read so far. -/
def readDigit (word : UInt64) (c : Char) : Option UInt64 :=
  if isDigit c then (checkedMul word 10).bind (checkedAdd · (UInt64.ofNat (digitValue c))) else none

/-- The word that a text spells: at least one digit, after a plus or without a sign. -/
def parseWord? (text : String) : Option UInt64 :=
  match text.toList with
  | [] => none
  | ['+'] => none
  | '+' :: digits => digits.foldlM readDigit 0
  | digits => digits.foldlM readDigit 0

lemma digitValue_lt {c : Char} (h : isDigit c = true) : digitValue c < 10 := by
  obtain ⟨-, hnine⟩ : '0' ≤ c ∧ c ≤ '9' := by simpa [isDigit] using h
  have hbound : c.toNat ≤ 57 := hnine
  have hzero : '0'.toNat = 48 := rfl
  rw [digitValue]
  omega

/-- A word that stands for a number, or its absence, says whether the number fits. -/
lemma word_cases {word? : Option UInt64} (h : word?.map UInt64.toNat = inWord? n) :
    (word? = none ∧ 2 ^ 64 ≤ n) ∨ ∃ word, word? = some word ∧ word.toNat = n := by
  unfold inWord? at h
  split at h
  case isTrue => exact .inr (Option.map_eq_some_iff.1 h)
  case isFalse hlarge => exact .inl ⟨Option.map_eq_none_iff.1 h, Nat.le_of_not_lt hlarge⟩

lemma inWord?_of_le (h : 2 ^ 64 ≤ n) : inWord? n = none :=
  if_neg (Nat.not_lt.2 h)

lemma map_checkedMul (a b : UInt64) :
    (checkedMul a b).map UInt64.toNat = inWord? (a.toNat * b.toNat) := by
  unfold checkedMul inWord?
  split
  case isTrue h => rw [Option.map_some, UInt64.toNat_mul, Nat.mod_eq_of_lt h]
  case isFalse => rfl

lemma map_checkedAdd (a b : UInt64) :
    (checkedAdd a b).map UInt64.toNat = inWord? (a.toNat + b.toNat) := by
  unfold checkedAdd inWord?
  split
  case isTrue h => rw [Option.map_some, UInt64.toNat_add, Nat.mod_eq_of_lt h]
  case isFalse => rfl

/-- A step fails if and only if the number with the digit added does not fit: the digit cannot bring
a product back that was too large. -/
lemma map_readDigit {c : Char} (h : isDigit c = true) (word : UInt64) :
    (readDigit word c).map UInt64.toNat = inWord? (10 * word.toNat + digitValue c) := by
  have hdigit : (UInt64.ofNat (digitValue c)).toNat = digitValue c := by
    have hlt := digitValue_lt h
    rw [UInt64.toNat_ofNat', Nat.mod_eq_of_lt (by omega)]
  have hproduct : (checkedMul word 10).map UInt64.toNat = inWord? (10 * word.toNat) := by
    rw [map_checkedMul, Nat.mul_comm]
    rfl
  rw [readDigit, if_pos h]
  rcases word_cases hproduct with ⟨hnone, hlarge⟩ | ⟨product, hsome, hvalue⟩
  · rw [hnone, Option.bind_none, inWord?_of_le (by omega), Option.map_none]
  · rw [hsome, Option.bind_some, map_checkedAdd, hvalue, hdigit]

/-- Digits never make a number smaller. -/
lemma le_foldl_digits (digits : List Char) (n : Nat) :
    n ≤ digits.foldl (fun n c => 10 * n + digitValue c) n := by
  induction digits generalizing n with
  | nil => exact Nat.le_refl n
  | cons c rest ih => exact Nat.le_trans (by omega) (ih (10 * n + digitValue c))

/-- The loop finds the number of the digits if it fits, after any digits read before. -/
lemma map_foldlM_readDigit {digits : List Char} (h : ∀ c ∈ digits, isDigit c = true)
    (word : UInt64) :
    (digits.foldlM readDigit word).map UInt64.toNat =
      inWord? (digits.foldl (fun n c => 10 * n + digitValue c) word.toNat) := by
  induction digits generalizing word with
  | nil =>
    rw [List.foldlM_nil, List.foldl_nil, inWord?, if_pos word.toNat_lt]
    rfl
  | cons c rest ih =>
    obtain ⟨hc, hrest⟩ := List.forall_mem_cons.1 h
    rw [List.foldlM_cons, List.foldl_cons]
    rcases word_cases (map_readDigit hc word) with ⟨hnone, hlarge⟩ | ⟨next, hsome, hvalue⟩
    · have hgrows := le_foldl_digits rest (10 * word.toNat + digitValue c)
      rw [hnone, inWord?_of_le (Nat.le_trans hlarge hgrows)]
      rfl
    · rw [hsome, ← hvalue]
      exact ih hrest next

/-- The loop reads a numeral as the number it is, unless that takes more than 64 bits. -/
theorem parseWord?_of_isNumeral (h : IsNumeral segment n) :
    (parseWord? segment).map UInt64.toNat = inWord? n := by
  have hdigits : ∀ c ∈ segment.toList, isDigit c = true := by
    simpa [isDigit] using h.2.1
  have hloop : parseWord? segment = segment.toList.foldlM readDigit 0 := by
    unfold parseWord?
    split
    case h_1 hnil => exact absurd (String.toList_eq_nil_iff.1 hnil) h.1
    -- a plus is no digit
    case h_2 hplus => simp [hplus, isDigit] at hdigits
    case h_3 hplus => simp [hplus, isDigit] at hdigits
    case h_4 => rfl
  rw [hloop, map_foldlM_readDigit hdigits, ← h.decimalValue_eq]
  rfl

/-- The number that an index is taken for is the one that the loop reads. -/
lemma IsNumeral.wordIndex?_eq (h : IsNumeral segment n) :
    wordIndex? segment.toList = (parseWord? segment).map UInt64.toNat := by
  rw [parseWord?_of_isNumeral h, wordIndex?, h.decimalValue_eq]
  rfl

lemma IsNumeral.parseWord?_eq_none_iff (h : IsNumeral segment n) :
    parseWord? segment = none ↔ 2 ^ 64 ≤ n := by
  rw [← Option.map_eq_none_iff (f := UInt64.toNat), parseWord?_of_isNumeral h, inWord?]
  simp

/-! ## Looking up in a sequence -/

namespace Value

variable {items : List Value} {node : Value} {path : String} {failure : Failure}

/-- A text is a numeral unless it is empty or has a character that is no ASCII digit. -/
lemma not_isNumeral_iff : (∀ n, ¬ IsNumeral segment n) ↔
    segment = "" ∨ ∃ c ∈ segment.toList, ¬ ('0' ≤ c ∧ c ≤ '9') := by
  rw [← not_exists, exists_isNumeral_iff]
  by_cases hempty : segment = "" <;> simp [hempty]

lemma gives_seq_iff : Gives (seq items) segment node ↔
    ∃ n, ∃ h : n < items.length, IsNumeral segment n ∧ items[n] = node := by
  constructor
  · intro h
    cases h with
    | stored stored =>
      obtain ⟨_, _, hentries, _⟩ := stored
      cases hentries
    | missing lacks =>
      obtain ⟨_, hentries, _⟩ := lacks
      cases hentries
    | item form isItem =>
      obtain ⟨hn, hitem⟩ := List.getElem?_eq_some_iff.1 isItem
      exact ⟨_, hn, form, hitem⟩
  · rintro ⟨n, hn, form, rfl⟩
    exact .item form (List.getElem?_eq_getElem hn)

lemma refusesLast_seq_iff : RefusesLast path (seq items) segment failure ↔
    (∃ n, IsNumeral segment n ∧ items.length ≤ n ∧
      failure = .indexOutOfRange path segment items.length) ∨
    (segment = "" ∨ ∃ c ∈ segment.toList, ¬ ('0' ≤ c ∧ c ≤ '9')) ∧
      failure = .indexNotNumeric path segment := by
  rw [← not_isNumeral_iff]
  constructor
  · intro h
    cases h with
    | noIndex form => exact .inr ⟨form, rfl⟩
    | pastEnd form past => exact .inl ⟨_, form, past, rfl⟩
  · rintro (⟨n, form, past, rfl⟩ | ⟨form, rfl⟩)
    · exact .pastEnd form past
    · exact .noIndex form

/-- A sequence whose length fits 64 bits is indexed by the numbers that digits spell, however many
digits there are.  A segment gives an item if and only if it is the numeral of the item's position;
it is out of range, with its text and the length, if and only if it is a numeral of the length or
more; and it is no index if and only if it is empty or has a character that is no ASCII digit, such
as a sign or a `=`.  The loop that reads the index gives up on the numerals from `2 ^ 64` on and on
no others. -/
theorem lookup_seq_exact (fits : items.length < 2 ^ 64) (segment path : String) :
    (∀ node, (seq items).lookup segment path = .ok node ↔
      ∃ n, ∃ h : n < items.length, IsNumeral segment n ∧ items[n] = node) ∧
    (∀ failure, (seq items).lookup segment path = .error failure ↔
      (∃ n, IsNumeral segment n ∧ items.length ≤ n ∧
        failure = .indexOutOfRange path segment items.length) ∨
      (segment = "" ∨ ∃ c ∈ segment.toList, ¬ ('0' ≤ c ∧ c ≤ '9')) ∧
        failure = .indexNotNumeric path segment) ∧
    ∀ n, IsNumeral segment n →
      wordIndex? segment.toList = (parseWord? segment).map UInt64.toNat ∧
        (parseWord? segment = none ↔ 2 ^ 64 ≤ n) := by
  have hgives : ∀ node, Gives (seq items) segment node →
      (seq items).lookup segment path = .ok node := by
    intro node h
    refine h.lookup (fun others hothers => ?_) path
    obtain rfl : items = others := by simpa using hothers
    exact fits.le
  have hexact := exact_of_total hgives (fun failure h => RefusesLast.lookup h)
    (gives_or_refuses path (seq items) segment)
  refine ⟨fun node => ?_, fun failure => ?_, fun n h => ⟨h.wordIndex?_eq, h.parseWord?_eq_none_iff⟩⟩
  · rw [hexact.1 node, gives_seq_iff]
  · rw [hexact.2 failure, refusesLast_seq_iff]

/-- Twenty zeros in front of an index change nothing, and a numeral that no word can hold is past
the end of two items. -/
theorem lookup_seq_exact_long :
    let ports := [int 80, int 443]
    let padded := "000000000000000000001"
    let huge := "18446744073709551616"
    ports.length < 2 ^ 64 ∧ IsNumeral padded 1 ∧ (seq ports).lookup padded "ports" = .ok (int 443) ∧
      IsNumeral huge (2 ^ 64) ∧ parseWord? huge = none ∧
      (seq ports).lookup huge "ports" = .error (.indexOutOfRange "ports" huge 2) ∧
      (seq ports).lookup "+1" "ports" = .error (.indexNotNumeric "ports" "+1") := by
  intro ports padded huge
  have fits : ports.length < 2 ^ 64 := by decide
  have hpadded : IsNumeral padded 1 := ⟨by decide, by simp [padded], by decide +kernel⟩
  have hhuge : IsNumeral huge (2 ^ 64) := ⟨by decide, by simp [huge], by decide +kernel⟩
  refine ⟨fits, hpadded, ?_, hhuge, ?_, ?_, ?_⟩
  · exact ((lookup_seq_exact fits padded "ports").1 _).2 ⟨1, by decide, hpadded, rfl⟩
  · exact ((lookup_seq_exact fits huge "ports").2.2 _ hhuge).2.2 (Nat.le_refl _)
  · exact ((lookup_seq_exact fits huge "ports").2.1 _).2 (.inl ⟨_, hhuge, by decide, rfl⟩)
  · have hplus : ∃ c ∈ "+1".toList, ¬ ('0' ≤ c ∧ c ≤ '9') := ⟨'+', by decide, by decide⟩
    exact ((lookup_seq_exact fits "+1" "ports").2.1 _).2 (.inr ⟨.inr hplus, rfl⟩)

end Value

end PropertyTree
