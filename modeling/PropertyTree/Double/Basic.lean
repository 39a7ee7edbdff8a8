/-!
# Double-precision numbers by their bit fields

A `Double` is the three fields of the binary64 format: a sign, an 11-bit exponent and a 52-bit
fraction.  Every combination of fields is a number of the format, so the type needs no invariant,
and structural equality on it is equality of bit patterns.

The library never computes with doubles.  It compares them (`Double.equal`), reads them from
decimal text (`Double/Rounding.lean`) and writes them with the fewest digits
(`Double/Shortest.lean`), so the operations here are the classification of the fields, the
comparison, and the exact magnitude `mantissa · 2 ^ scale` of a finite number.
-/

namespace PropertyTree

/-- How many fractions there are: `2 ^ 52`. -/
abbrev Double.fractions : Nat := 4503599627370496

/-- A number of the binary64 format, by its sign, exponent and fraction fields. -/
structure Double where
  negative : Bool
  exponent : Fin 2048
  fraction : Fin Double.fractions
deriving DecidableEq, Repr

namespace Double

/-! ## Classes of numbers -/

/-- Not a number: the greatest exponent with a fraction that is not zero. -/
def isNaN (x : Double) : Bool :=
  x.exponent.val == 2047 && x.fraction.val != 0

/-- An infinity: the greatest exponent with a zero fraction. -/
def isInfinite (x : Double) : Bool :=
  x.exponent.val == 2047 && x.fraction.val == 0

/-- A finite number, zero included. -/
def isFinite (x : Double) : Bool :=
  x.exponent.val != 2047

/-- One of the two zeros. -/
def isZero (x : Double) : Bool :=
  x.exponent.val == 0 && x.fraction.val == 0

/-- The quiet number that is not a number. -/
def nan : Double := ⟨false, 2047, 2251799813685248⟩

/-- The infinity of a sign. -/
def infinity (negative : Bool) : Double := ⟨negative, 2047, 0⟩

/-- The zero of a sign. -/
def zero (negative : Bool) : Double := ⟨negative, 0, 0⟩

/-- Numeric equality: a number that is not a number equals nothing, not even itself, and the two
zeros are equal. -/
def equal (x y : Double) : Bool :=
  !x.isNaN && !y.isNaN && (x == y || x.isZero && y.isZero)

/-- Numeric equality that also holds between any two numbers that are not numbers. -/
def equalOrBothNaN (x y : Double) : Bool :=
  x.equal y || x.isNaN && y.isNaN

/-! ## Magnitude of a finite number -/

/-- The integer significand of a finite number: below exponent 1 the leading bit is not implied. -/
def mantissa (x : Double) : Nat :=
  if x.exponent.val = 0 then x.fraction.val else fractions + x.fraction.val

/-- The power of two that the significand is multiplied by. -/
def scale (x : Double) : Int :=
  if x.exponent.val = 0 then -1074 else (x.exponent.val : Int) - 1075

/-- The double whose exponent and fraction fields, read as one number, are `code`; a code past the
largest finite number gives the infinity. -/
def ofCode (negative : Bool) (code : Nat) : Double :=
  if code < 2047 * fractions then
    ⟨negative, Fin.ofNat 2048 (code / fractions), Fin.ofNat fractions code⟩
  else
    infinity negative

/-! ## Laws of the comparison -/

theorem equal_comm (x y : Double) : x.equal y = y.equal x := by
  unfold equal
  rw [Bool.and_comm (!x.isNaN), Bool.and_comm x.isZero, Bool.beq_comm]

theorem equal_self_iff (x : Double) : x.equal x = true ↔ x.isNaN = false := by
  simp [equal]

end Double

end PropertyTree
