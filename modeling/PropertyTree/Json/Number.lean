import PropertyTree.Document.Basic
import PropertyTree.Double.Arithmetic
import PropertyTree.Double.Literal

/-!
# JSON numbers

The reader keeps as many leading digits of a number as fit 64 bits, its significand, and drops the
others.  Without a fraction, an exponent and dropped digits the number is an integer, if it also
fits with its sign; minus zero is a float.

Every other number is a float, made in two roundings: the significand as a double, and then one
product or quotient with a power of ten as a double.  So the result is near the number that was
written, but not always the nearest.  A number past the largest float has no value.
-/

namespace PropertyTree

namespace Json

/-- The greatest significand. -/
def maxSignificand : Nat := 18446744073709551615

/-- Takes digits into a significand while it fits: the significand, how many digits were taken, and
how many are left. -/
def takeDigits (significand : Nat) : List Char → Nat × Nat × Nat
  | [] => (significand, 0, 0)
  | c :: rest =>
    let next := significand * 10 + digitValue c
    if maxSignificand < next then (significand, 0, rest.length + 1)
    else
      let (significand, taken, left) := takeDigits next rest
      (significand, taken + 1, left)

/-- The power of ten as a double. -/
def powerOfTen (e : Nat) : Double :=
  Double.ofDecimal false 1 e

/-- `significand · 10 ^ exponent` as a float, in two roundings; `none` past the largest float.  A
negative exponent below -308 is divided off in two steps. -/
def scaled? (significand : Nat) (exponent : Int) : Option Double :=
  let x := Double.ofNat significand
  let e := exponent.natAbs
  if 0 ≤ exponent then
    if significand = 0 then some x
    else if 308 < e then none
    else (some (x.times (powerOfTen e))).filter Double.isFinite
  else if e ≤ 308 then some (x.dividedBy (powerOfTen e))
  else if e ≤ 616 then some ((x.dividedBy (powerOfTen 308)).dividedBy (powerOfTen (e - 308)))
  else some (.zero false)

/-- The parts of a written number: the digits of the whole part, those of the fraction, and sign and
digits of the exponent. -/
structure Parts where
  negative : Bool
  whole : List Char
  fraction : Option (List Char)
  exponent : Option (Bool × List Char)

/-- The float of a significand that is scaled by a power of ten and by the written exponent.  A
written exponent of `2 ^ 31` or more is past every float, and below every float if it is
negative. -/
def Parts.float? (parts : Parts) (significand : Nat) (exponent : Int) : Option Double :=
  let magnitude := match parts.exponent with
    | none => scaled? significand exponent
    | some (negative, digits) =>
      let written := decimalValue digits
      if 2147483648 ≤ written then
        if significand ≠ 0 ∧ !negative then none else some (.zero false)
      else scaled? significand (if negative then exponent - written else exponent + written)
  magnitude.map (Double.withSign parts.negative)

/-- The atom of a written number; `none` if it is past the largest float. -/
def Parts.atom? (parts : Parts) : Option Atom :=
  let (significand, _, dropped) := takeDigits 0 parts.whole
  match parts.fraction with
  | some digits =>
    let (significand, taken, _) := takeDigits significand digits
    (parts.float? significand ((dropped : Int) - taken)).map .float
  | none =>
    if parts.exponent.isSome || dropped ≠ 0 then
      (parts.float? significand dropped).map .float
    else if !parts.negative then some (.int significand)
    else if significand = 0 || 9223372036854775808 < significand then
      some (.float ((Double.ofNat significand).withSign true))
    else some (.int (-significand))

end Json

end PropertyTree
