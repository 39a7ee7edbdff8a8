import PropertyTree.Document.Plain
import PropertyTree.Toml.DateTime

/-!
# Scalars of TOML

Strings, numbers and truth values.  Each function reads one scalar in front of a text and returns it
with the text after it, or `none` if there is none or it is malformed.
-/

namespace PropertyTree

namespace Toml

/-! ## Characters -/

/-- A blank within a line. -/
def isBlank (c : Char) : Bool :=
  c == ' ' || c == '\t'

/-- The text without blanks in front. -/
def skipBlanks (cs : List Char) : List Char :=
  cs.dropWhile isBlank

/-- A character that strings and comments may hold: a tab, or no control character. -/
def isText (c : Char) : Bool :=
  c == '\t' || ' ' ≤ c && c ≤ '~' || '\u0080' ≤ c

/-- The text after a line break in front. -/
def newline? : List Char → Option (List Char)
  | '\n' :: rest => some rest
  | '\r' :: '\n' :: rest => some rest
  | _ => none

/-- The text without blanks and line breaks in front. -/
def skipSpace : Nat → List Char → List Char
  | 0, cs => cs
  | fuel + 1, cs =>
    let cs := skipBlanks cs
    match newline? cs with
    | some rest => skipSpace fuel rest
    | none => cs

/-! ## Strings -/

/-- The character that a one-letter escape stands for. -/
def escaped? : Char → Option Char
  | 'b' => some '\x08'
  | 't' => some '\t'
  | 'n' => some '\n'
  | 'f' => some '\x0c'
  | 'r' => some '\r'
  | '"' => some '"'
  | '\\' => some '\\'
  | _ => none

/-- The character of a number in hexadecimal digits. -/
def codePoint? (width : Nat) (cs : List Char) : Option (Char × List Char) := do
  let digits := cs.take width
  if digits.length ≠ width then none
  let n ← Plain.inBase? 16 digits
  if n < 0xD800 ∨ 0xDFFF < n ∧ n ≤ 0x10FFFF then return (Char.ofNat n, cs.drop width) else none

/-- The character that an escape after its backslash stands for. -/
def escape? : List Char → Option (Char × List Char)
  | 'u' :: rest => codePoint? 4 rest
  | 'U' :: rest => codePoint? 8 rest
  | c :: rest => (escaped? c).map (·, rest)
  | [] => none

/-- Reads a string of one line in double quotes, after the opening quote. -/
def basicString? : Nat → List Char → Option (List Char × List Char)
  | 0, _ => none
  | fuel + 1, cs =>
    match cs with
    | '"' :: rest => some ([], rest)
    | '\\' :: rest => do
      let (c, rest) ← escape? rest
      let (text, rest) ← basicString? fuel rest
      return (c :: text, rest)
    | c :: rest =>
      if isText c then (basicString? fuel rest).map fun (text, rest) => (c :: text, rest) else none
    | [] => none

/-- Reads a string of one line in single quotes, after the opening quote. -/
def literalString? (cs : List Char) : Option (List Char × List Char) :=
  let text := cs.takeWhile fun c => isText c && c ≠ '\''
  match cs.drop text.length with
  | '\'' :: rest => some (text, rest)
  | _ => none

/-- The text after an escaped line break, which swallows the space after it. -/
def lineContinuation? (cs : List Char) : Option (List Char) :=
  (newline? (skipBlanks cs)).map fun rest => skipSpace (rest.length + 1) rest

/-- The quotes that close a string of several lines: three of them, and up to two before them that
belong to the string. -/
def closing? (quote : Char) (cs : List Char) : Option (List Char × List Char) :=
  let quotes := cs.takeWhile (· == quote)
  let own := min (quotes.length - 3) 2
  if quotes.length < 3 then none else some (quotes.take own, cs.drop (own + 3))

/-- Reads a string of several lines, after the opening quotes. -/
def multilineString? (quote : Char) : Nat → List Char → Option (List Char × List Char)
  | 0, _ => none
  | fuel + 1, cs =>
    match closing? quote cs with
    | some found => some found
    | none =>
      match newline? cs with
      | some rest => (multilineString? quote fuel rest).map fun (text, rest) => ('\n' :: text, rest)
      | none =>
        match cs with
        | [] => none
        | c :: rest =>
          if quote = '"' ∧ c = '\\' then
            match lineContinuation? rest with
            | some rest => multilineString? quote fuel rest
            | none => do
              let (c, rest) ← escape? rest
              let (text, rest) ← multilineString? quote fuel rest
              return (c :: text, rest)
          else if isText c then
            (multilineString? quote fuel rest).map fun (text, rest) => (c :: text, rest)
          else none

/-- The text after the line break that may follow the opening quotes of several lines. -/
def skipFirstBreak (cs : List Char) : List Char :=
  (newline? cs).getD cs

/-- Reads a string. -/
def string? (cs : List Char) : Option (String × List Char) :=
  let read := match cs with
    | '"' :: '"' :: '"' :: rest => multilineString? '"' (rest.length + 1) (skipFirstBreak rest)
    | '\'' :: '\'' :: '\'' :: rest => multilineString? '\'' (rest.length + 1) (skipFirstBreak rest)
    | '"' :: rest => basicString? (rest.length + 1) rest
    | '\'' :: rest => literalString? rest
    | _ => none
  read.map fun (text, rest) => (String.ofList text, rest)

/-! ## Numbers -/

/-- Reads digits of a base, with single underscores between them; the underscores are dropped. -/
def digitRun (isMember : Char → Bool) : List Char → List Char × List Char
  | '_' :: c :: rest =>
    if isMember c then
      let (digits, rest) := digitRun isMember rest
      (c :: digits, rest)
    else ([], '_' :: c :: rest)
  | c :: rest =>
    if isMember c then
      let (digits, rest) := digitRun isMember rest
      (c :: digits, rest)
    else ([], c :: rest)
  | [] => ([], [])

/-- Reads at least one digit. -/
def digits? (isMember : Char → Bool) (cs : List Char) : Option (List Char × List Char) :=
  match cs with
  | c :: rest =>
    if isMember c then
      let (digits, rest) := digitRun isMember rest
      some (c :: digits, rest)
    else none
  | [] => none

/-- Whether a character is a digit of a base. -/
def isDigitOf (base : Nat) (c : Char) : Bool :=
  (Plain.hexValue? c).any (· < base)

/-- Reads the digits of a decimal number without a zero in front, or one zero. -/
def decimal? (cs : List Char) : Option (List Char × List Char) :=
  match cs with
  | '0' :: rest => some (['0'], rest)
  | cs => digits? isDigit cs

/-- An integer of 64 bits with its sign. -/
def word? (n : Int) : Option Atom :=
  if -9223372036854775808 ≤ n ∧ n < 9223372036854775808 then some (.int n) else none

/-- Reads an integer in a base after the mark of the base. -/
def integerIn? (base : Nat) (cs : List Char) : Option (Atom × List Char) := do
  let (digits, rest) ← digits? (isDigitOf base) cs
  return (← word? (← Plain.inBase? base digits), rest)

/-- Reads an integer. -/
def integer? (cs : List Char) : Option (Atom × List Char) :=
  match cs with
  | '0' :: 'x' :: rest => integerIn? 16 rest
  | '0' :: 'o' :: rest => integerIn? 8 rest
  | '0' :: 'b' :: rest => integerIn? 2 rest
  | _ => do
    let (negative, cs) := splitSign cs
    let (digits, rest) ← decimal? cs
    let n : Int := decimalValue digits
    return (← word? (if negative then -n else n), rest)

/-- Reads the exponent of a float. -/
def exponent? (cs : List Char) : Option (Int × List Char) :=
  match cs with
  | c :: rest =>
    if c = 'e' ∨ c = 'E' then do
      let (negative, rest) := splitSign rest
      let (digits, rest) ← digits? isDigit rest
      let n : Int := decimalValue digits
      return (if negative then -n else n, rest)
    else none
  | [] => none

/-- Reads a float that is made of digits; it must have a fraction or an exponent.  One that is too
large is a fault if it is positive, and the negative infinity otherwise. -/
def digitFloat? (cs : List Char) : Option (Double × List Char) := do
  let (negative, cs) := splitSign cs
  let (whole, rest) ← decimal? cs
  let (fraction, exponent, rest) ← match rest with
    | '.' :: rest =>
      (digits? isDigit rest).map fun (fraction, rest) =>
        match exponent? rest with
        | some (exponent, rest) => (fraction, exponent, rest)
        | none => (fraction, 0, rest)
    | rest => (exponent? rest).map fun (exponent, rest) => ([], exponent, rest)
  let x := Double.ofDecimal negative (decimalValue (whole ++ fraction)) (exponent - fraction.length)
  if x = .infinity false then none else return (x, rest)

/-- Reads a float. -/
def float? (cs : List Char) : Option (Double × List Char) :=
  let (negative, word) := splitSign cs
  match word with
  | 'i' :: 'n' :: 'f' :: rest => some (.infinity negative, rest)
  | 'n' :: 'a' :: 'n' :: rest => some ({ Double.nan with negative }, rest)
  | _ => digitFloat? cs

/-! ## Scalars -/

/-- The key under which a date or time is kept, as a map of one entry. -/
def dateTimeKey : String := "$__toml_private_datetime"

/-- A date or time as a document. -/
def dateTimeNode (text : String) : Document :=
  .map [(.text dateTimeKey, .text text)]

/-- Reads a scalar. -/
def scalar? (cs : List Char) : Option (Document × List Char) :=
  match cs with
  | '"' :: _ | '\'' :: _ => (string? cs).map fun (s, rest) => (.text s, rest)
  | 't' :: 'r' :: 'u' :: 'e' :: rest => some (.atom (.bool true), rest)
  | 'f' :: 'a' :: 'l' :: 's' :: 'e' :: rest => some (.atom (.bool false), rest)
  | _ =>
    match DateTime.read? cs with
    | some (text, rest) => some (dateTimeNode text, rest)
    | none =>
      match float? cs with
      | some (x, rest) => some (.atom (.float x), rest)
      | none => (integer? cs).map fun (a, rest) => (.atom a, rest)

end Toml

end PropertyTree
