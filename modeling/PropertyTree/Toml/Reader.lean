import PropertyTree.Document.Reading
import PropertyTree.Toml.Scalar
import PropertyTree.Toml.Table

/-!
# Reading TOML

`Toml.read?` reads a text line by line: blank lines and comments, keys with values, and headers.
Arrays may take several lines, inline tables may not.  Values and keys may be nested less than 80
deep.

A date or time is read as a map with its text under one key.
-/

namespace PropertyTree

namespace Toml

/-- How deep values may be nested, and how many parts a key may have, exclusively. -/
def depthLimit : Nat := 80

/-! ## Keys -/

/-- A character of a key without quotes. -/
def isKeyChar (c : Char) : Bool :=
  'a' ≤ c && c ≤ 'z' || 'A' ≤ c && c ≤ 'Z' || '0' ≤ c && c ≤ '9' || c == '-' || c == '_'

/-- Reads one part of a key. -/
def simpleKey? (cs : List Char) : Option (String × List Char) :=
  match cs with
  | '"' :: rest =>
    (basicString? (rest.length + 1) rest).map fun (s, rest) => (String.ofList s, rest)
  | '\'' :: rest => (literalString? rest).map fun (s, rest) => (String.ofList s, rest)
  | cs =>
    let key := cs.takeWhile isKeyChar
    if key.isEmpty then none else some (String.ofList key, cs.drop key.length)

/-- Reads a key: parts with dots between them, and blanks around them.  The last part is returned
apart from the others. -/
def key? : Nat → List Char → Option (List String × String × List Char)
  | 0, _ => none
  | fuel + 1, cs => do
    let (part, rest) ← simpleKey? (skipBlanks cs)
    match skipBlanks rest with
    | '.' :: rest =>
      let (path, last, rest) ← key? fuel rest
      return (part :: path, last, rest)
    | rest => return ([], part, rest)

/-! ## Comments and line ends -/

/-- The text after a comment in front, if there is one; a comment holds no control characters. -/
def skipComment (cs : List Char) : List Char :=
  match cs with
  | '#' :: rest => rest.dropWhile isText
  | cs => cs

/-- The text after the end of a line, which may have a comment. -/
def lineEnd? (cs : List Char) : Option (List Char) :=
  match skipComment (skipBlanks cs) with
  | [] => some []
  | rest => newline? rest

/-- The text without blanks, line breaks and comments in front. -/
def skipLines : Nat → List Char → List Char
  | 0, cs => cs
  | fuel + 1, cs =>
    let cs := skipComment (skipBlanks cs)
    match newline? cs with
    | some rest => skipLines fuel rest
    | none => cs

/-! ## Values -/

mutual

/-- Reads a value inside `depth` others. -/
def value? : Nat → Nat → List Char → Option (Document × List Char)
  | 0, _, _ => none
  | fuel + 1, depth, cs =>
    match cs with
    | '[' :: rest =>
      if depthLimit ≤ depth + 1 then none
      else (items? fuel (depth + 1) rest).map fun (items, rest) => (.seq items, rest)
    | '\x7b' :: rest =>
      if depthLimit ≤ depth + 1 then none
      else
        match skipBlanks rest with
        | '\x7d' :: rest => some (.map [], rest)
        | rest => (inlineTable? fuel (depth + 1) .empty rest).map fun (t, rest) =>
            (t.toDocument, rest)
    | cs => scalar? cs

/-- Reads the items of an array up to its end. -/
def items? : Nat → Nat → List Char → Option (List Document × List Char)
  | 0, _, _ => none
  | fuel + 1, depth, cs =>
    match skipLines (cs.length + 1) cs with
    | ']' :: rest => some ([], rest)
    | cs => do
      let (item, rest) ← value? fuel depth cs
      match skipLines (rest.length + 1) rest with
      | ',' :: rest =>
        let (items, rest) ← items? fuel depth rest
        return (item :: items, rest)
      | ']' :: rest => return ([item], rest)
      | _ => none

/-- Reads the entries of an inline table up to its end; at least one must follow. -/
def inlineTable? : Nat → Nat → Table → List Char → Option (Table × List Char)
  | 0, _, _, _ => none
  | fuel + 1, depth, t, cs => do
    let (path, last, rest) ← key? (depthLimit - 1) cs
    let rest ← DateTime.mark? '=' rest
    let (node, rest) ← value? fuel depth (skipBlanks rest)
    let t ← t.assign? path last node
    match skipBlanks rest with
    | ',' :: rest => inlineTable? fuel depth t rest
    | '\x7d' :: rest => return (t, rest)
    | _ => none

end

/-! ## Lines -/

/-- Reads a header after its opening brackets. -/
def header? (closing : List Char) (cs : List Char) :
    Option (List String × String × List Char) := do
  let (path, last, rest) ← key? (depthLimit - 1) cs
  if closing.isPrefixOf rest then return (path, last, ← lineEnd? (rest.drop closing.length))
  else none

/-- Reads one line that is not blank. -/
def line? (b : Builder) (cs : List Char) : Option (Builder × List Char) :=
  match cs with
  | '[' :: '[' :: rest => do
    let (path, last, rest) ← header? [']', ']'] rest
    return (← b.openArray? path last, rest)
  | '[' :: rest => do
    let (path, last, rest) ← header? [']'] rest
    return (← b.openTable? path last, rest)
  | cs => do
    let (path, last, rest) ← key? (depthLimit - 1) cs
    let rest ← DateTime.mark? '=' rest
    let (node, rest) ← value? (2 * rest.length + 2) 0 (skipBlanks rest)
    return (← b.assign? path last node, ← lineEnd? rest)

/-- Reads the lines of a text. -/
def lines? : Nat → Builder → List Char → Option Builder
  | 0, _, _ => none
  | fuel + 1, b, cs =>
    match skipLines (cs.length + 1) cs with
    | [] => some b
    | cs => do
      let (b, rest) ← line? b cs
      lines? fuel b rest

/-- Reads a text.  A byte order mark in front of it is passed over. -/
def read? (text : String) : Option Reading := do
  let cs := text.toList
  let cs := if cs.head? = some '\ufeff' then cs.tail else cs
  let b ← lines? (cs.length + 1) .start cs
  return (← b.close?).toDocument.toReading

end Toml

end PropertyTree
