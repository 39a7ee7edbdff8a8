import PropertyTree.Double.Basic

/-!
# Rounding a quotient to the nearest double

`Double.ofRatio` rounds an exact quotient of natural numbers to the nearest number of the format, an
exact half going to the even neighbour, and to an infinity past the largest finite number.
`Double.ofDecimal` does the same for `digits · 10 ^ exponent`, and `Double.ofNat` for an integer.

All arithmetic is on natural numbers of unbounded size.  The exponent of a decimal is cut off where
the answer no longer depends on it, so that a short text such as `1e999999999` costs nothing.
-/

namespace PropertyTree

/-- The integer nearest to `num / den`; an exact half goes to the even neighbour. -/
def roundHalfEven (num den : Nat) : Nat :=
  let whole := num / den
  let rest := num % den
  if 2 * rest < den then whole
  else if den < 2 * rest then whole + 1
  else whole + whole % 2

namespace Double

/-- The numerator and denominator of `num / (den · 2 ^ e)`. -/
def unscale (num den : Nat) (e : Int) : Nat × Nat :=
  (num * Nat.pow 2 (-e).toNat, den * Nat.pow 2 e.toNat)

/-- The power of two that leaves a significand of 53 bits of `num / den`, or the least power of the
format if that is greater. -/
def scaleOf (num den : Nat) : Int :=
  let guess : Int := max (-1074) ((num.log2 : Int) - den.log2 - 53)
  let (n, d) := unscale num den guess
  if n / d < 2 * fractions then guess else guess + 1

/-- The double nearest to `num / den`, an exact half going to the even significand. -/
def ofRatio (negative : Bool) (num den : Nat) : Double :=
  if num = 0 then zero negative
  else
    let e := scaleOf num den
    let (n, d) := unscale num den e
    ofCode negative ((e + 1074).toNat * fractions + roundHalfEven n d)

/-- The double nearest to `digits · 10 ^ exponent`.  An exponent above 310 gives an infinity, and
one that leaves the value below `10 ^ (-330)` gives a zero. -/
def ofDecimal (negative : Bool) (digits : Nat) (exponent : Int) : Double :=
  if digits = 0 then zero negative
  else if 310 < exponent then infinity negative
  else if exponent < -331 - (digits.log2 : Int) then zero negative
  else ofRatio negative (digits * Nat.pow 10 exponent.toNat) (Nat.pow 10 (-exponent).toNat)

/-- The double nearest to a natural number. -/
def ofNat (n : Nat) : Double :=
  ofRatio false n 1

/-- The double nearest to an integer. -/
def ofInt (n : Int) : Double :=
  ofRatio (n < 0) n.natAbs 1

/-! ## Values at the edges of the format -/

example : ofNat 1 = ⟨false, 1023, 0⟩ := by decide +kernel
example : ofDecimal true 0 5 = zero true := by decide +kernel
example : ofNat (2 ^ 53 + 1) = ofNat (2 ^ 53) := by decide +kernel
example : ofDecimal false 5 (-324) = ⟨false, 0, 1⟩ := by decide +kernel
example : ofDecimal false 2 (-324) = zero false := by decide +kernel
example : ofDecimal false 17976931348623157 292 = ⟨false, 2046, 4503599627370495⟩ := by
  decide +kernel
example : ofDecimal false 17976931348623159 292 = infinity false := by decide +kernel

end Double

end PropertyTree
