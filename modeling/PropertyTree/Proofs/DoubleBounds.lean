import Mathlib.Tactic.NormNum
import Mathlib.Tactic.Ring
import PropertyTree.Double.Arithmetic

/-!
# Which roundings stay finite

Rounding gives an infinity only past the largest double.  A quotient below `2 ^ k` has a double
that is finite, if `k` is not too large, and that lies below `2 ^ (k + 4)`
(`ofRatio_below`).  The bound is not sharp: it has to survive a few roundings, such as those of a
number that is read digit by digit and then divided by powers of ten, which are at least one
(`le_exponent_ofRatio`).
-/

namespace PropertyTree

namespace Double

variable {num den k : Nat}

lemma le_scaleOf (num den : Nat) :
    (num.log2 : Int) - den.log2 - 53 ≤ scaleOf num den ∧ -1074 ≤ scaleOf num den := by
  unfold scaleOf
  dsimp only
  split <;> constructor <;> omega

lemma scaleOf_le (num den : Nat) :
    scaleOf num den ≤ max (-1073) ((num.log2 : Int) - den.log2 - 52) := by
  unfold scaleOf
  dsimp only
  split <;> omega

/-- The significand of a rounding has at most 54 bits. -/
lemma unscale_lt (hden : den ≠ 0) {e : Int} (he : (num.log2 : Int) - den.log2 - 53 ≤ e) :
    (unscale num den e).1 < 2 ^ 54 * (unscale num den e).2 := by
  calc num * 2 ^ (-e).toNat
      < 2 ^ (num.log2 + 1) * 2 ^ (-e).toNat :=
        Nat.mul_lt_mul_of_pos_right Nat.lt_log2_self (Nat.two_pow_pos _)
    _ = 2 ^ (num.log2 + 1 + (-e).toNat) := (Nat.pow_add ..).symm
    _ ≤ 2 ^ (54 + (den.log2 + e.toNat)) := Nat.pow_le_pow_right (by omega) (by omega)
    _ = 2 ^ 54 * (2 ^ den.log2 * 2 ^ e.toNat) := by rw [Nat.pow_add, Nat.pow_add]
    _ ≤ 2 ^ 54 * (den * 2 ^ e.toNat) :=
        Nat.mul_le_mul_left _ (Nat.mul_le_mul_right _ (Nat.log2_self_le hden))

lemma roundHalfEven_le (num den : Nat) : roundHalfEven num den ≤ num / den + 1 := by
  unfold roundHalfEven
  dsimp only
  split
  · omega
  · split <;> omega

/-- A quotient below `2 ^ 54` is rounded to at most four times as many fractions as there are. -/
lemma roundHalfEven_le_of_lt (h : num < 2 ^ 54 * den) : roundHalfEven num den ≤ 4 * fractions := by
  have hsame : 2 ^ 54 = 4 * fractions := by norm_num [fractions]
  rw [hsame] at h
  have hdiv : num / den < 4 * fractions := Nat.div_lt_of_lt_mul (Nat.mul_comm _ _ ▸ h)
  exact (roundHalfEven_le num den).trans hdiv

lemma exponent_ofCode {negative : Bool} {code : Nat} (h : code < 2047 * fractions) :
    (ofCode negative code).exponent.val = code / fractions := by
  have hdiv : code / fractions < 2047 := Nat.div_lt_of_lt_mul (Nat.mul_comm _ _ ▸ h)
  rw [ofCode, if_pos h]
  exact Nat.mod_eq_of_lt (hdiv.trans (by decide))

/-- The code of a rounding, over any number `f` of fractions. -/
lemma code_le {f e r : Nat} (he : e ≤ k + 1022) (hr : r ≤ 4 * f) :
    e * f + r ≤ f * (k + 1026) :=
  calc e * f + r ≤ (k + 1022) * f + 4 * f := Nat.add_le_add (Nat.mul_le_mul_right f he) hr
    _ = f * (k + 1026) := by ring

lemma ofRatio_eq_ofCode (negative : Bool) (hnum : num ≠ 0) (den : Nat) :
    ofRatio negative num den =
      ofCode negative ((scaleOf num den + 1074).toNat * fractions +
        roundHalfEven (unscale num den (scaleOf num den)).1
          (unscale num den (scaleOf num den)).2) := by
  rw [ofRatio, if_neg hnum]

/-- The exponent field of the double of a quotient below `2 ^ k`. -/
lemma exponent_ofRatio_le (negative : Bool) (hden : den ≠ 0) (hlt : num < 2 ^ k * den)
    (hk : k ≤ 1000) : (ofRatio negative num den).exponent.val ≤ k + 1026 := by
  by_cases hnum : num = 0
  · rw [ofRatio, if_pos hnum]
    exact Nat.zero_le _
  · rw [ofRatio_eq_ofCode negative hnum]
    have hlog : num.log2 < den.log2 + 1 + k := by
      refine (Nat.log2_lt hnum).2 ?_
      calc num < 2 ^ k * den := hlt
        _ ≤ 2 ^ k * 2 ^ (den.log2 + 1) := Nat.mul_le_mul_left _ Nat.lt_log2_self.le
        _ = 2 ^ (den.log2 + 1 + k) := by rw [← Nat.pow_add, Nat.add_comm]
    obtain ⟨hscale, hleast⟩ := le_scaleOf num den
    have hmost := scaleOf_le num den
    have hexp : (scaleOf num den + 1074).toNat ≤ k + 1022 := by omega
    have hround := roundHalfEven_le_of_lt (unscale_lt hden hscale)
    have hcode := code_le hexp hround
    have hfinite : fractions * (k + 1026) < 2047 * fractions := by
      rw [Nat.mul_comm]
      exact Nat.mul_lt_mul_of_pos_right (by omega) (by decide)
    rw [exponent_ofCode (hcode.trans_lt hfinite)]
    exact Nat.div_le_of_le_mul hcode

/-- The magnitude of a finite double lies below `2 ^ k`. -/
def Below (k : Nat) (x : Double) : Prop :=
  x.quotient.1 < 2 ^ k * x.quotient.2

lemma mantissa_lt (x : Double) : x.mantissa < 2 ^ 53 := by
  have hlt : x.fraction.val < 4503599627370496 := x.fraction.isLt
  unfold mantissa fractions
  split <;> omega

/-- A double whose exponent field is not past that of `2 ^ k` lies below `2 ^ k`. -/
lemma below_of_exponent_le {x : Double} (h : x.exponent.val ≤ k + 1022) : x.Below k := by
  have hscale : x.scale ≤ k - 53 ∨ x.scale = -1074 := by
    unfold scale
    split <;> omega
  calc x.mantissa * 2 ^ x.scale.toNat
      < 2 ^ 53 * 2 ^ x.scale.toNat := Nat.mul_lt_mul_of_pos_right x.mantissa_lt (Nat.two_pow_pos _)
    _ = 2 ^ (53 + x.scale.toNat) := (Nat.pow_add ..).symm
    _ ≤ 2 ^ (k + (-x.scale).toNat) := Nat.pow_le_pow_right (by omega) (by omega)
    _ = 2 ^ k * 2 ^ (-x.scale).toNat := Nat.pow_add ..

/-- A quotient that is far from the largest double is rounded to a finite one of its size. -/
theorem ofRatio_below (negative : Bool) (hden : den ≠ 0) (hlt : num < 2 ^ k * den)
    (hk : k ≤ 1000) :
    (ofRatio negative num den).isFinite ∧ (ofRatio negative num den).Below (k + 4) := by
  have hle := exponent_ofRatio_le negative hden hlt hk
  refine ⟨?_, below_of_exponent_le hle⟩
  have : (ofRatio negative num den).exponent.val ≠ 2047 := by omega
  simpa [isFinite] using this

/-- A natural number far below the largest double is rounded to a finite one of its size. -/
theorem ofNat_below {n : Nat} (h : n < 2 ^ k) (hk : k ≤ 1000) :
    (ofNat n).isFinite ∧ (ofNat n).Below (k + 4) :=
  ofRatio_below false (by omega) (by omega) hk

/-! ## Numbers that are at least one -/

lemma le_roundHalfEven (num den : Nat) : num / den ≤ roundHalfEven num den := by
  unfold roundHalfEven
  dsimp only
  split
  · exact le_rfl
  · split <;> omega

lemma le_exponent_ofCode {negative : Bool} {code : Nat} (h : 1023 * fractions ≤ code) :
    1023 ≤ (ofCode negative code).exponent.val := by
  by_cases hlt : code < 2047 * fractions
  · rw [exponent_ofCode hlt]
    exact (Nat.le_div_iff_mul_le (by decide)).2 h
  · rw [ofCode, if_neg hlt]
    exact (by decide : 1023 ≤ 2047)

lemma pow_le_div (hden : den ≠ 0) (h : den ≤ num) (bits : Nat) :
    2 ^ bits ≤ num * Nat.pow 2 bits / (den * Nat.pow 2 0) := by
  have hden : den * Nat.pow 2 0 = den := Nat.mul_one den
  rw [hden, Nat.le_div_iff_mul_le (by omega), Nat.mul_comm]
  exact Nat.mul_le_mul_right _ h

/-- The scale of a quotient that is at least one leaves 52 bits after the point at most. -/
lemma le_scaleOf_of_le (hden : den ≠ 0) (h : den ≤ num) : -52 ≤ scaleOf num den := by
  have hlog : den.log2 ≤ num.log2 := (Nat.le_log2 (by omega)).2 ((Nat.log2_self_le hden).trans h)
  obtain ⟨hscale, -⟩ := le_scaleOf num den
  by_contra hlow
  -- then the first guess is taken, and it leaves more bits than it may
  have hguess : max (-1074) ((num.log2 : Int) - den.log2 - 53) = -53 := by omega
  have hdiv : 2 * fractions ≤ num * Nat.pow 2 53 / (den * Nat.pow 2 0) :=
    pow_le_div hden h 53
  have hscaleOf : scaleOf num den =
      if (num * Nat.pow 2 53) / (den * Nat.pow 2 0) < 2 * fractions then -53 else -53 + 1 := by
    unfold scaleOf
    rw [hguess]
    rfl
  rw [if_neg (Nat.not_lt.2 hdiv)] at hscaleOf
  omega

/-- A quotient that is at least one has a double whose exponent field is at least that of one. -/
theorem le_exponent_ofRatio (negative : Bool) (hden : den ≠ 0) (h : den ≤ num) :
    1023 ≤ (ofRatio negative num den).exponent.val := by
  rw [ofRatio_eq_ofCode negative (by omega)]
  refine le_exponent_ofCode ?_
  have hscale := le_scaleOf_of_le hden h
  rcases hscale.lt_or_eq with hlarge | hleast
  · have hexp : 1023 ≤ (scaleOf num den + 1074).toNat := by omega
    exact (Nat.mul_le_mul_right fractions hexp).trans (Nat.le_add_right _ _)
  · rw [← hleast]
    have hdiv : fractions ≤ num * Nat.pow 2 52 / (den * Nat.pow 2 0) := pow_le_div hden h 52
    have hround := hdiv.trans (le_roundHalfEven _ _)
    calc 1023 * fractions = 1022 * fractions + fractions := by decide
      _ ≤ 1022 * fractions + roundHalfEven (num * Nat.pow 2 52) (den * Nat.pow 2 0) :=
          Nat.add_le_add_left hround _

/-- A finite double whose exponent field is at least that of one is at least one. -/
lemma one_le_of_exponent {x : Double} (h : 1023 ≤ x.exponent.val) :
    x.quotient.2 ≤ x.quotient.1 := by
  have hmantissa : 2 ^ 52 ≤ x.mantissa := by
    unfold mantissa fractions
    split <;> omega
  have hscale : x.scale = x.exponent.val - 1075 := by
    unfold scale
    split <;> omega
  calc 2 ^ (-x.scale).toNat
      ≤ 2 ^ (52 + x.scale.toNat) := Nat.pow_le_pow_right (by omega) (by omega)
    _ = 2 ^ 52 * 2 ^ x.scale.toNat := Nat.pow_add ..
    _ ≤ x.mantissa * 2 ^ x.scale.toNat := Nat.mul_le_mul_right _ hmantissa

/-- Dividing by a number that is at least one keeps a double finite and of its size. -/
theorem dividedBy_below {x y : Double} (hx : x.Below k) (hy : 1023 ≤ y.exponent.val)
    (hk : k ≤ 1000) : (x.dividedBy y).isFinite ∧ (x.dividedBy y).Below (k + 4) := by
  have hone := one_le_of_exponent hy
  have hposx : 0 < x.quotient.2 := Nat.two_pow_pos _
  have hposy : 0 < y.quotient.2 := Nat.two_pow_pos _
  refine ofRatio_below false (Nat.mul_ne_zero hposx.ne' (by omega)) ?_ hk
  calc x.quotient.1 * y.quotient.2
      < 2 ^ k * x.quotient.2 * y.quotient.2 := Nat.mul_lt_mul_of_pos_right hx hposy
    _ ≤ 2 ^ k * x.quotient.2 * y.quotient.1 := Nat.mul_le_mul_left _ hone
    _ = 2 ^ k * (x.quotient.2 * y.quotient.1) := Nat.mul_assoc ..

end Double

end PropertyTree
