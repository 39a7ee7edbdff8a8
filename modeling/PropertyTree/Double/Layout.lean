import PropertyTree.Double.Shortest

/-!
# Where the point stands

A `DoubleLayout` is the list of choices that a written form makes once the shortest digits are
known: which numbers are written without an exponent, whether an integer keeps a `.0`, and the
texts of the numbers that have no digits.  `Double.render` is the one function that applies them,
so each output format of the library is a value of this type beside the code that writes it.
-/

namespace PropertyTree

/-- The choices of a written form of doubles.  `positional` holds the least and the greatest `point`
written without an exponent; `none` is no bound at all. -/
structure DoubleLayout where
  positional : Option (Int × Int)
  keepsPointZero : Bool
  plusInExponent : Bool
  tie : Tie
  nan : String
  infinity : String
deriving Repr

namespace Double

/-- Digits with the point after the first `point` of them, filled up with zeros on either side. -/
def placePoint (pointZero : Bool) (d : Decimal) : String :=
  let zeros (n : Nat) : List Char := List.replicate n '0'
  let count := d.digits.length
  let chars :=
    if d.point ≤ 0 then
      '0' :: '.' :: zeros (-d.point).toNat ++ d.digits
    else
      let whole := d.point.toNat
      if count ≤ whole then
        d.digits ++ zeros (whole - count) ++ (if pointZero then ['.', '0'] else [])
      else
        d.digits.take whole ++ '.' :: d.digits.drop whole
  String.ofList chars

/-- One digit, the point and the others if there are any, then the exponent of ten. -/
def scientific (plus : Bool) (d : Decimal) : String :=
  let significand := match d.digits with
    | [] => []
    | [c] => [c]
    | c :: rest => c :: '.' :: rest
  let e := d.point - 1
  let sign := if e < 0 then "-" else if plus then "+" else ""
  String.ofList significand ++ "e" ++ sign ++ toString e.natAbs

/-- The text of a double in a layout. -/
def render (layout : DoubleLayout) (x : Double) : String :=
  if x.isNaN then layout.nan
  else
    let sign := if x.negative then "-" else ""
    if x.isInfinite then sign ++ layout.infinity
    else
      let d := x.shortest layout.tie
      let isPositional := match layout.positional with
        | none => true
        | some (least, greatest) => least ≤ d.point && d.point ≤ greatest
      sign ++ (if isPositional then placePoint layout.keepsPointZero d
        else scientific layout.plusInExponent d)

end Double

end PropertyTree
