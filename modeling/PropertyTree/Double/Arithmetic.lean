import PropertyTree.Double.Rounding

/-!
# Products and quotients of doubles

Each operation takes the exact value of its operands and rounds the exact result once.  The operands
are magnitudes of finite numbers; the sign is left out.
-/

namespace PropertyTree

namespace Double

/-- The magnitude of a finite double as an exact quotient. -/
def quotient (x : Double) : Nat × Nat :=
  (x.mantissa * Nat.pow 2 x.scale.toNat, Nat.pow 2 (-x.scale).toNat)

/-- The product of two magnitudes, rounded once. -/
def times (x y : Double) : Double :=
  ofRatio false (x.quotient.1 * y.quotient.1) (x.quotient.2 * y.quotient.2)

/-- The quotient of two magnitudes, of which the second is not zero, rounded once. -/
def dividedBy (x y : Double) : Double :=
  ofRatio false (x.quotient.1 * y.quotient.2) (x.quotient.2 * y.quotient.1)

/-- The number with a sign in place of its own. -/
def withSign (negative : Bool) (x : Double) : Double :=
  { x with negative }

example : (ofNat 1).dividedBy (ofNat 10) = ofDecimal false 1 (-1) := by decide +kernel
example : (ofNat 3).times (ofNat 7) = ofNat 21 := by decide +kernel

end Double

end PropertyTree
