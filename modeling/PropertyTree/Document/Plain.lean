import PropertyTree.Document.Basic
import PropertyTree.Double.Literal

/-!
# Plain scalars: what unquoted text means

A plain scalar has no type of its own.  Where any value is welcome its text decides: a few words
are null and the truth values, decimal, hexadecimal, octal and binary digits are integers, what
reads as a finite decimal literal is a float, and everything else is a string.

Digits after a leading zero, as in `012`, are a string.  Integers are those of 64 bits, signed or
unsigned.  One that needs more than 64 bits but not more than 128 has no value at all, and one that
needs more than 128 bits is read as a float.
-/

namespace PropertyTree

namespace Plain

/-- The words for null. -/
def isNull (text : String) : Bool :=
  text == "~" || text == "null" || text == "Null" || text == "NULL"

/-- The words for the truth values. -/
def bool? (text : String) : Option Bool :=
  if text == "true" || text == "True" || text == "TRUE" then some true
  else if text == "false" || text == "False" || text == "FALSE" then some false
  else none

/-! ## Integers -/

/-- Digits after a leading zero: not a number, though made of digits. -/
def isZeroPadded (cs : List Char) : Bool :=
  match (splitSign cs).2 with
  | '0' :: c :: rest => (c :: rest).all isDigit
  | _ => false

/-- The value of a digit in any base up to sixteen. -/
def hexValue? (c : Char) : Option Nat :=
  if isDigit c then some (digitValue c)
  else if 'a' ≤ c ∧ c ≤ 'f' then some (c.toNat - 'a'.toNat + 10)
  else if 'A' ≤ c ∧ c ≤ 'F' then some (c.toNat - 'A'.toNat + 10)
  else none

/-- The number that at least one digit in a base spells. -/
def inBase? (base : Nat) (cs : List Char) : Option Nat :=
  if cs.isEmpty then none
  else
    cs.foldl (fun n? c =>
      match n?, hexValue? c with
      | some n, some d => if d < base then some (base * n + d) else none
      | _, _ => none) (some 0)

/-- The number that digits without a sign spell, after the mark of their base if they have one. -/
def natural? : List Char → Option Nat
  | '0' :: 'x' :: rest => inBase? 16 rest
  | '0' :: 'o' :: rest => inBase? 8 rest
  | '0' :: 'b' :: rest => inBase? 2 rest
  | cs => if isZeroPadded cs then none else inBase? 10 cs

/-- What a text is as an integer. -/
inductive IntegerReading where
  /-- An integer of 64 bits. -/
  | fits (n : Int)
  /-- An integer of more than 64 bits and at most 128. -/
  | tooWide
  /-- Not an integer, or one of more than 128 bits. -/
  | other
deriving DecidableEq, Repr

/-- Reads a text as an integer. -/
def integer (text : String) : IntegerReading :=
  let (negative, digits) := splitSign text.toList
  match natural? digits with
  | none => .other
  | some n =>
    if negative then
      if n ≤ 9223372036854775808 then .fits (-n)
      else if n ≤ 170141183460469231731687303715884105728 then .tooWide else .other
    else
      if n < 18446744073709551616 then .fits n
      else if n < 340282366920938463463374607431768211456 then .tooWide else .other

/-! ## Floats -/

/-- The words for infinity, without a sign. -/
def isInfinity (text : String) : Bool :=
  text == ".inf" || text == ".Inf" || text == ".INF"

/-- The words for what is not a number. -/
def isNaN (text : String) : Bool :=
  text == ".nan" || text == ".NaN" || text == ".NAN"

/-- A finite decimal literal; a plus in front must be the only sign. -/
def finite? (text : String) : Option Double :=
  match text.toList with
  | '+' :: '+' :: _ | '+' :: '-' :: _ => none
  | _ => (Double.ofText? text).filter Double.isFinite

/-- Reads a text as a float. -/
def float? (text : String) : Option Double :=
  let (negative, rest) := splitSign text.toList
  if isInfinity (String.ofList rest) then some (.infinity negative)
  else if isNaN text then some .nan
  else finite? text

/-! ## Any value -/

/-- What a plain scalar means where any value is welcome; `none` for an integer that is too wide. -/
def atom? (text : String) : Option Atom :=
  if text.isEmpty || isNull text then some .null
  else
    match bool? text with
    | some b => some (.bool b)
    | none =>
      match integer text with
      | .fits n => some (.int n)
      | .tooWide => none
      | .other =>
        match if isZeroPadded text.toList then none else float? text with
        | some x => some (.float x)
        | none => some (.text text)

example : atom? "-0" = some (.int 0) := by decide +kernel
example : atom? "-0x10" = some (.int (-16)) := by decide +kernel
example : atom? "012" = some (.text "012") := by decide +kernel
example : atom? "18446744073709551616" = none := by decide +kernel
example : atom? "1e400" = some (.text "1e400") := by decide +kernel

end Plain

end PropertyTree
