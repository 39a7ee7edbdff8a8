import PropertyTree.Double.Rounding

/-!
# The fewest digits that read back as the same double

Every finite double is `m · 2 ^ q` exactly, and the reals that round to it form an interval around
it, whose ends belong to it when `m` is even.  `Double.shortest` walks the decimal grids of one
significant digit, two, and so on up to seventeen, and takes the first grid on which one of the two
neighbours of the number lies in that interval.  When both neighbours do, the nearer one is taken;
`Tie` says which one when the number is exactly between them.

The digits come as a `Decimal`, that is without a choice of notation: `Double/Layout.lean` places
the point.
-/

namespace PropertyTree

/-- What is done with a number exactly half way between two candidates. -/
inductive Tie where
  | toEven
  | up
deriving DecidableEq, Repr

/-- The number `0.d₁d₂…dₙ · 10 ^ point` by its decimal digits. -/
structure Decimal where
  digits : List Char
  point : Int
deriving DecidableEq, Repr

namespace Double

/-- The interval of reals that round to a positive finite double, over one denominator: the number
itself is `center / denominator`, and the interval reaches from `low` to `high`. -/
structure Neighbourhood where
  low : Nat
  center : Nat
  high : Nat
  denominator : Nat
  closed : Bool

/-- The neighbourhood of the magnitude of a finite double.  Below a power of two the gap to the next
smaller double is half as wide. -/
def neighbourhood (x : Double) : Neighbourhood :=
  let up := Nat.pow 2 x.scale.toNat
  let narrow := x.fraction.val = 0 ∧ 1 < x.exponent.val
  { low := (4 * x.mantissa - if narrow then 1 else 2) * up
    center := 4 * x.mantissa * up
    high := (4 * x.mantissa + 2) * up
    denominator := 4 * Nat.pow 2 (-x.scale).toNat
    closed := x.mantissa % 2 == 0 }

namespace Neighbourhood

/-- Whether `num / den` lies in the interval. -/
def contains (b : Neighbourhood) (num den : Nat) : Bool :=
  let value := num * b.denominator
  if b.closed then b.low * den ≤ value && value ≤ b.high * den
  else b.low * den < value && value < b.high * den

/-- Whether the centre is below `10 ^ e`. -/
def belowPower (b : Neighbourhood) (e : Int) : Bool :=
  b.center * Nat.pow 10 (-e).toNat < b.denominator * Nat.pow 10 e.toNat

/-- The exponent `p` with `10 ^ (p - 1) ≤ center < 10 ^ p`, by a guess from the binary length that
is one to three too small. -/
def decimalExponent (b : Neighbourhood) : Int :=
  let guess := ((b.center.log2 : Int) - b.denominator.log2) * 30103 / 100000 - 1
  if b.belowPower guess then guess
  else if b.belowPower (guess + 1) then guess + 1
  else if b.belowPower (guess + 2) then guess + 2
  else guess + 3

/-- The candidate on the grid of multiples of `10 ^ k`, if the interval holds one. -/
def onGrid (b : Neighbourhood) (tie : Tie) (k : Int) : Option Nat :=
  let num := b.center * Nat.pow 10 (-k).toNat
  let den := b.denominator * Nat.pow 10 k.toNat
  let below := num / den
  let rest := num % den
  let holds (n : Nat) : Bool := b.contains (n * Nat.pow 10 k.toNat) (Nat.pow 10 (-k).toNat)
  match holds below, holds (below + 1) with
  | false, false => none
  | true, false => some below
  | false, true => some (below + 1)
  | true, true =>
    if 2 * rest < den then some below
    else if den < 2 * rest then some (below + 1)
    else match tie with
      | .up => some (below + 1)
      | .toEven => some (below + below % 2)

/-- The candidate of the coarsest of the next `fuel` grids that has one, with its grid. -/
def coarsest (b : Neighbourhood) (tie : Tie) (k : Int) : Nat → Nat × Int
  | 0 => (b.center * Nat.pow 10 (-k).toNat / (b.denominator * Nat.pow 10 k.toNat), k)
  | fuel + 1 =>
    match b.onGrid tie k with
    | some n => (n, k)
    | none => b.coarsest tie (k - 1) fuel

end Neighbourhood

/-- The digits of `n · 10 ^ k` without trailing zeros. -/
def Decimal.ofScaled (n : Nat) (k : Int) : Decimal :=
  let digits := Nat.toDigits 10 n
  { digits := (digits.reverse.dropWhile (· == '0')).reverse
    point := digits.length + k }

/-- The shortest decimal that reads back as the magnitude of a finite double; zero is the digit
`0` before the point. -/
def shortest (tie : Tie) (x : Double) : Decimal :=
  if x.isZero then ⟨['0'], 1⟩
  else
    let b := x.neighbourhood
    let (n, k) := b.coarsest tie (b.decimalExponent - 1) 17
    Decimal.ofScaled n k

example : (ofNat 1).shortest .toEven = ⟨['1'], 1⟩ := by decide +kernel
example : (ofDecimal false 1 (-1)).shortest .toEven = ⟨['1'], 0⟩ := by decide +kernel
example : (⟨false, 0, 1⟩ : Double).shortest .up = ⟨['5'], -323⟩ := by decide +kernel
example : (ofNat (2 ^ 53)).shortest .up = ⟨"9007199254740992".toList, 16⟩ := by decide +kernel

end Double

end PropertyTree
