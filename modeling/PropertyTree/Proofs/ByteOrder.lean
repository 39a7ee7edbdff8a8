import Mathlib.Tactic.ByContra
import Mathlib.Tactic.Lemma
import Mathlib.Tactic.SplitIfs
import PropertyTree.Fields

/-!
# The order of bytes

Texts are kept in the order of their code points.  The order that a sort of bytes gives is the same
one (`utf8Bytes_lt_iff`), because UTF-8 was made so.  The first byte of a character tells how many
bytes it has, and a longer encoding, which belongs to a larger code point, starts with a larger
byte.  Among encodings of one length the bytes are the digits of the code point in base 64, the most
significant one first.  So two characters that differ are told apart within their own bytes,
whatever comes after them (`utf8EncodeChar_append_lt`).
-/

namespace PropertyTree

/-- The bytes of a text in UTF-8. -/
def utf8Bytes (s : String) : List UInt8 :=
  s.toUTF8.data.toList

lemma utf8Bytes_eq_flatMap (s : String) : utf8Bytes s = s.toList.flatMap String.utf8EncodeChar := by
  rw [utf8Bytes, String.toUTF8_eq_toByteArray, ← String.utf8Encode_toList, List.utf8Encode]
  simp

/-- A comparison of bytes that are given as numbers. -/
lemma ofNat_cons_lt_iff {a b : Nat} (ha : a < 256) (hb : b < 256) {x y : List UInt8} :
    UInt8.ofNat a :: x < UInt8.ofNat b :: y ↔ a < b ∨ a = b ∧ x < y := by
  rw [List.cons_lt_cons_iff, UInt8.lt_iff_toNat_lt, ← UInt8.toNat_inj, UInt8.toNat_ofNat',
    UInt8.toNat_ofNat', Nat.mod_eq_of_lt ha, Nat.mod_eq_of_lt hb]

/-- The bytes of a smaller character are smaller, whatever follows them. -/
theorem utf8EncodeChar_append_lt {c d : Char} (h : c < d) (x y : List UInt8) :
    String.utf8EncodeChar c ++ x < String.utf8EncodeChar d ++ y := by
  have hlt : c.val.toNat < d.val.toNat := h
  have hd : d.val.toNat < 0x110000 := by
    rcases d.valid with h | h <;> omega
  -- the digits in base 64, and the room that the first of four bytes has for the leading one
  have hdigits : ∀ n : Nat, n / 64 / 64 = n / 4096 ∧ n / 4096 / 64 = n / 262144 := by
    intro n
    exact ⟨Nat.div_div_eq_div_mul n 64 64, Nat.div_div_eq_div_mul n 4096 64⟩
  have hlead : ∀ n : Nat, n < 0x110000 → n / 262144 % 8 = n / 262144 := by
    intro n hn
    exact Nat.mod_eq_of_lt (by omega)
  have hdigits_c := hdigits c.val.toNat
  have hdigits_d := hdigits d.val.toNat
  have hlead_c := hlead c.val.toNat (Nat.lt_trans hlt hd)
  have hlead_d := hlead d.val.toNat hd
  simp only [String.utf8EncodeChar]
  generalize c.val.toNat = v at *
  generalize d.val.toNat = w at *
  -- a case for each pair of lengths
  split_ifs
  all_goals
    simp only [List.cons_append, List.nil_append]
    simp (disch := omega) only [ofNat_cons_lt_iff]
    omega

lemma flatMap_utf8EncodeChar_lt {cs ds : List Char} (h : cs < ds) :
    cs.flatMap String.utf8EncodeChar < ds.flatMap String.utf8EncodeChar := by
  induction cs generalizing ds with
  | nil =>
    cases ds with
    | nil => cases h
    | cons d ds =>
      obtain ⟨b, rest, hbytes⟩ := List.exists_cons_of_ne_nil (String.utf8EncodeChar_ne_nil (c := d))
      rw [List.flatMap_cons, hbytes]
      exact List.nil_lt_cons b _
  | cons c cs ih =>
    cases ds with
    | nil => cases h
    | cons d ds =>
      rw [List.flatMap_cons, List.flatMap_cons]
      rcases List.cons_lt_cons_iff.1 h with hlt | ⟨rfl, hrest⟩
      · exact utf8EncodeChar_append_lt hlt _ _
      · exact List.append_left_lt (ih hrest)

lemma text_lt_of_le_of_ne {s t : String} (hle : s ≤ t) (hne : s ≠ t) : s < t := by
  by_contra hnot
  exact hne (String.le_antisymm hle (String.not_lt.1 hnot))

/-- Texts compare as their bytes do. -/
theorem utf8Bytes_lt_iff {s t : String} : utf8Bytes s < utf8Bytes t ↔ s < t := by
  have hmono : ∀ {s t : String}, s < t → utf8Bytes s < utf8Bytes t := by
    intro s t h
    rw [utf8Bytes_eq_flatMap, utf8Bytes_eq_flatMap]
    exact flatMap_utf8EncodeChar_lt (String.lt_iff.1 h)
  refine ⟨fun h => ?_, hmono⟩
  by_contra hnot
  by_cases heq : t = s
  · subst heq
    exact List.lt_irrefl _ h
  · exact List.lt_asymm h (hmono (text_lt_of_le_of_ne (String.not_lt.1 hnot) heq))

theorem utf8Bytes_le_iff {s t : String} : utf8Bytes s ≤ utf8Bytes t ↔ s ≤ t := by
  rw [← List.not_lt, utf8Bytes_lt_iff, String.not_lt]

end PropertyTree
