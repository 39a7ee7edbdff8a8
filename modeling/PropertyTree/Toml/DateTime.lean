import PropertyTree.Double.Literal

/-!
# Dates and times of TOML

A date, a time of day, or both with an optional offset, is checked and written in one form: a
capital `T` between date and time, a fraction of a second without zeros at its end and with at
most nine digits, and an offset as `Z` or with a sign.
-/

namespace PropertyTree

namespace Toml

namespace DateTime

/-- Reads a number of some width within bounds. -/
def field? (width least greatest : Nat) (cs : List Char) : Option (Nat × List Char) :=
  let digits := cs.take width
  let n := decimalValue digits
  if digits.length = width ∧ digits.all isDigit ∧ least ≤ n ∧ n ≤ greatest then
    some (n, cs.drop width)
  else none

/-- Reads one character. -/
def mark? (c : Char) : List Char → Option (List Char)
  | d :: rest => if c = d then some rest else none
  | [] => none

/-- A leap year. -/
def isLeap (year : Nat) : Bool :=
  year % 4 == 0 && (year % 100 != 0 || year % 400 == 0)

/-- The number of days of a month. -/
def daysIn (year month : Nat) : Nat :=
  if month = 2 then (if isLeap year then 29 else 28)
  else if month = 4 ∨ month = 6 ∨ month = 9 ∨ month = 11 then 30
  else 31

/-- A number with zeros in front up to a width. -/
def padded (width n : Nat) : String :=
  let digits := Nat.toDigits 10 n
  String.ofList (List.replicate (width - digits.length) '0' ++ digits)

/-- Reads a date. -/
def date? (cs : List Char) : Option (String × List Char) := do
  let (year, cs) ← field? 4 0 9999 cs
  let (month, cs) ← field? 2 1 12 (← mark? '-' cs)
  let (day, cs) ← field? 2 1 (daysIn year month) (← mark? '-' cs)
  return (padded 4 year ++ "-" ++ padded 2 month ++ "-" ++ padded 2 day, cs)

/-- Reads the fraction of a second. -/
def fraction (cs : List Char) : String × List Char :=
  match cs with
  | '.' :: rest =>
    let digits := rest.takeWhile isDigit
    if digits.isEmpty then ("", cs)
    else
      let kept := ((digits.take 9).reverse.dropWhile (· == '0')).reverse
      (if kept.isEmpty then "" else String.ofList ('.' :: kept), rest.drop digits.length)
  | _ => ("", cs)

/-- Reads a time of day. -/
def time? (cs : List Char) : Option (String × List Char) := do
  let (hour, cs) ← field? 2 0 23 cs
  let (minute, cs) ← field? 2 0 59 (← mark? ':' cs)
  let (second, cs) ← field? 2 0 60 (← mark? ':' cs)
  let (fraction, cs) := fraction cs
  return (padded 2 hour ++ ":" ++ padded 2 minute ++ ":" ++ padded 2 second ++ fraction, cs)

/-- Reads the offset of a time, if there is one.  An offset of zero has a plus. -/
def offset (cs : List Char) : Option (String × List Char) :=
  match cs with
  | 'Z' :: rest | 'z' :: rest => some ("Z", rest)
  | sign :: rest =>
    if sign = '+' ∨ sign = '-' then do
      let (hour, rest) ← field? 2 0 23 rest
      let (minute, rest) ← field? 2 0 59 (← mark? ':' rest)
      let mark := if sign = '-' ∧ (hour ≠ 0 ∨ minute ≠ 0) then "-" else "+"
      return (mark ++ padded 2 hour ++ ":" ++ padded 2 minute, rest)
    else some ("", cs)
  | [] => some ("", cs)

/-- Reads the time after a date, if there is one. -/
def timeAfterDate? : List Char → Option (String × List Char)
  | c :: rest =>
    if c = 'T' ∨ c = 't' ∨ c = ' ' then do
      let (time, rest) ← time? rest
      let (offset, rest) ← offset rest
      return ("T" ++ time ++ offset, rest)
    else none
  | [] => none

/-- Reads a date, a time of day, or both. -/
def read? (cs : List Char) : Option (String × List Char) :=
  match date? cs with
  | some (date, rest) =>
    match timeAfterDate? rest with
    | some (time, rest) => some (date ++ time, rest)
    | none => some (date, rest)
  | none => time? cs

end DateTime

end Toml

end PropertyTree
