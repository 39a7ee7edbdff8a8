import PropertyTree.Document.Reading
import PropertyTree.Json.Number

/-!
# Reading JSON

`Json.read?` reads a text that is one JSON value with blanks around it, and nothing else.  The
grammar is the strict one: no comments, no trailing commas, no leading zeros, no raw control
characters in strings.

A text that keeps to the grammar can still hold nodes without a value: numbers past the largest
float, strings with half a surrogate pair, and containers nested more than 127 deep.  They are
`unreadable`, and so harm only what reads them.
-/

namespace PropertyTree

namespace Json

/-! ## Blanks and words -/

/-- The characters that may stand between tokens. -/
def isBlank (c : Char) : Bool :=
  c == ' ' || c == '\n' || c == '\t' || c == '\r'

/-- The text without blanks in front. -/
def skipBlanks (cs : List Char) : List Char :=
  cs.dropWhile isBlank

/-- The text after a word. -/
def dropWord? : List Char → List Char → Option (List Char)
  | [], cs => some cs
  | w :: ws, c :: cs => if w = c then dropWord? ws cs else none
  | _ :: _, [] => none

/-! ## Strings -/

/-- The number that four hexadecimal digits spell, with the text after them. -/
def hex4? : List Char → Option (Nat × List Char)
  | a :: b :: c :: d :: rest => (Plain.inBase? 16 [a, b, c, d]).map (·, rest)
  | _ => none

/-- The character that a one-letter escape stands for. -/
def escaped? : Char → Option Char
  | '"' => some '"'
  | '\\' => some '\\'
  | '/' => some '/'
  | 'b' => some '\x08'
  | 'f' => some '\x0c'
  | 'n' => some '\n'
  | 'r' => some '\r'
  | 't' => some '\t'
  | _ => none

/-- One character of a string after the opening quote. -/
inductive StringStep where
  /-- The closing quote. -/
  | close (rest : List Char)
  /-- A character. -/
  | char (c : Char) (rest : List Char)
  /-- Half a surrogate pair. -/
  | half (rest : List Char)

/-- The character of a surrogate pair. -/
def pairChar (high low : Nat) : Char :=
  Char.ofNat (0x10000 + (high - 0xD800) * 0x400 + (low - 0xDC00))

/-- The low half of a surrogate pair in front of a text. -/
def lowHalf? : List Char → Option (Nat × List Char)
  | '\\' :: 'u' :: rest =>
    (hex4? rest).filter fun (low, _) => 0xDC00 ≤ low && low ≤ 0xDFFF
  | _ => none

/-- Reads one character of a string. -/
def stringStep? : List Char → Option StringStep
  | [] => none
  | '"' :: rest => some (.close rest)
  | '\\' :: 'u' :: rest => do
    let (n, rest) ← hex4? rest
    if 0xD800 ≤ n ∧ n ≤ 0xDBFF then
      match lowHalf? rest with
      | some (low, rest) => return .char (pairChar n low) rest
      | none => return .half rest
    else if 0xDC00 ≤ n ∧ n ≤ 0xDFFF then return .half rest
    else return .char (Char.ofNat n) rest
  | '\\' :: c :: rest => (escaped? c).map (.char · rest)
  | '\\' :: [] => none
  | c :: rest => if c.toNat < 0x20 then none else some (.char c rest)

/-- Reads a string after the opening quote: its characters so far, in reverse, and whether all of
them are whole. -/
def string? : Nat → List Char → Bool → List Char → Option (Option String × List Char)
  | 0, _, _, _ => none
  | fuel + 1, read, whole, cs =>
    match stringStep? cs with
    | none => none
    | some (.close rest) =>
      some (if whole then some (String.ofList read.reverse) else none, rest)
    | some (.char c rest) => string? fuel (c :: read) whole rest
    | some (.half rest) => string? fuel read false rest

/-- A string as a node. -/
def textNode : Option String → Reading
  | some s => .atom (.text s)
  | none => .unreadable

/-! ## Numbers -/

/-- The digits in front of a text, of which there must be one. -/
def digits? (cs : List Char) : Option (List Char × List Char) :=
  let (digits, rest) := cs.span isDigit
  if digits.isEmpty then none else some (digits, rest)

/-- The whole part of a number: a zero, or digits that do not start with one. -/
def whole? (cs : List Char) : Option (List Char × List Char) := do
  let (digits, rest) ← digits? cs
  match digits with
  | '0' :: _ :: _ => none
  | _ => return (digits, rest)

/-- The fraction of a number, if it has one. -/
def fraction? : List Char → Option (Option (List Char) × List Char)
  | '.' :: rest => (digits? rest).map fun (digits, rest) => (some digits, rest)
  | rest => some (none, rest)

/-- The exponent of a number, if it has one. -/
def exponent? : List Char → Option (Option (Bool × List Char) × List Char)
  | c :: rest =>
    if c = 'e' ∨ c = 'E' then
      let (negative, rest) := splitSign rest
      (digits? rest).map fun (digits, rest) => (some (negative, digits), rest)
    else some (none, c :: rest)
  | [] => some (none, [])

/-- Reads a number after its sign. -/
def number? (negative : Bool) (cs : List Char) : Option (Reading × List Char) := do
  let (whole, rest) ← whole? cs
  let (fraction, rest) ← fraction? rest
  let (exponent, rest) ← exponent? rest
  let node := match Parts.atom? { negative, whole, fraction, exponent } with
    | some a => .atom a
    | none => .unreadable
  return (node, rest)

/-! ## Values -/

/-- How many containers may be open around a value. -/
def maxDepth : Nat := 127

/-- A container that lies `depth` containers deep, unless that is too deep. -/
def nested (depth : Nat) (node : Reading) : Reading :=
  if depth < maxDepth then node else .unreadable

mutual

/-- Reads a value that lies in `depth` containers. -/
def value? : Nat → Nat → List Char → Option (Reading × List Char)
  | 0, _, _ => none
  | fuel + 1, depth, cs =>
    match skipBlanks cs with
    | '"' :: rest =>
      (string? (rest.length + 1) [] true rest).map fun (s, rest) => (textNode s, rest)
    | '[' :: rest =>
      match skipBlanks rest with
      | ']' :: rest => some (nested depth (.seq []), rest)
      | rest => (items? fuel (depth + 1) rest).map fun (items, rest) =>
          (nested depth (.seq items), rest)
    | '\x7b' :: rest =>
      match skipBlanks rest with
      | '\x7d' :: rest => some (nested depth (.map []), rest)
      | rest => (members? fuel (depth + 1) rest).map fun (members, rest) =>
          (nested depth (.map members), rest)
    | 't' :: rest => (dropWord? ['r', 'u', 'e'] rest).map (.atom (.bool true), ·)
    | 'f' :: rest => (dropWord? ['a', 'l', 's', 'e'] rest).map (.atom (.bool false), ·)
    | 'n' :: rest => (dropWord? ['u', 'l', 'l'] rest).map (.atom .null, ·)
    | '-' :: rest => number? true rest
    | rest => number? false rest

/-- Reads the items of an array up to its end. -/
def items? : Nat → Nat → List Char → Option (List Reading × List Char)
  | 0, _, _ => none
  | fuel + 1, depth, cs => do
    let (item, rest) ← value? fuel depth cs
    match skipBlanks rest with
    | ',' :: rest =>
      let (items, rest) ← items? fuel depth rest
      return (item :: items, rest)
    | ']' :: rest => return ([item], rest)
    | _ => none

/-- Reads the members of an object up to its end. -/
def members? : Nat → Nat → List Char → Option (List (Reading × Reading) × List Char)
  | 0, _, _ => none
  | fuel + 1, depth, cs => do
    let (key, rest) ← match skipBlanks cs with
      | '"' :: rest => string? (rest.length + 1) [] true rest
      | _ => none
    let rest ← match skipBlanks rest with
      | ':' :: rest => some rest
      | _ => none
    let (value, rest) ← value? fuel depth rest
    let member := (textNode key, value)
    match skipBlanks rest with
    | ',' :: rest =>
      let (members, rest) ← members? fuel depth rest
      return (member :: members, rest)
    | '\x7d' :: rest => return ([member], rest)
    | _ => none

end

/-- Reads a text that is one JSON value. -/
def read? (text : String) : Option Reading := do
  let cs := text.toList
  let (node, rest) ← value? (2 * cs.length + 2) 0 cs
  if (skipBlanks rest).isEmpty then return node else none

end Json

end PropertyTree
