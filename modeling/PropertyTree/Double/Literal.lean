import PropertyTree.Double.Rounding

/-!
# Reading decimal text

`Double.ofText?` reads a decimal literal: an optional sign, digits with at most one point, and an
optional exponent.  At least one digit must stand before or after the point.  The words `inf`,
`infinity` and `nan` are read in any case.  The result is the nearest double, so a literal past the
largest finite number is an infinity.
-/

namespace PropertyTree

/-- An ASCII decimal digit. -/
def isDigit (c : Char) : Bool :=
  '0' ≤ c && c ≤ '9'

/-- The value of a decimal digit. -/
def digitValue (c : Char) : Nat :=
  c.toNat - '0'.toNat

/-- The number that a list of decimal digits spells. -/
def decimalValue (cs : List Char) : Nat :=
  cs.foldl (fun n c => 10 * n + digitValue c) 0

/-- The text without a sign in front, and whether the sign was a minus. -/
def splitSign : List Char → Bool × List Char
  | '-' :: rest => (true, rest)
  | '+' :: rest => (false, rest)
  | rest => (false, rest)

namespace Double

/-- An exponent after its mark: an optional sign and at least one digit, up to the end of the
text. -/
def exponentOf? (cs : List Char) : Option Int :=
  let (negative, digits) := splitSign cs
  if digits.isEmpty || !digits.all isDigit then none
  else
    let n : Int := decimalValue digits
    some (if negative then -n else n)

/-- A literal without its sign that is made of digits. -/
def ofDigits? (negative : Bool) (cs : List Char) : Option Double :=
  let (whole, rest) := cs.span isDigit
  let (fraction, rest) := match rest with
    | '.' :: rest => rest.span isDigit
    | rest => ([], rest)
  if whole.isEmpty && fraction.isEmpty then none
  else
    let exponent? := match rest with
      | [] => some 0
      | c :: rest => if c = 'e' || c = 'E' then exponentOf? rest else none
    exponent?.map fun exponent =>
      ofDecimal negative (decimalValue (whole ++ fraction)) (exponent - fraction.length)

/-- The double that a decimal literal denotes. -/
def ofText? (text : String) : Option Double :=
  let (negative, cs) := splitSign text.toList
  let word := String.ofList (cs.map Char.toLower)
  if word == "inf" || word == "infinity" then some (infinity negative)
  else if word == "nan" then some { nan with negative }
  else ofDigits? negative cs

end Double

end PropertyTree
