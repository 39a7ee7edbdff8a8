import PropertyTree.Document.Basic
import PropertyTree.Double.Layout

/-!
# Writing JSON

`Json.write` writes a document as JSON, on one line or with every item and member on a line of its
own, indented by two blanks for each level.

JSON has only strings as keys.  A key that is an integer, a truth value or a finite float is
written as its text in quotes; any other key makes the document unwritable.  A float that is not
finite is written as null.  Of several faults the first in the order of the text is reported.
-/

namespace PropertyTree

namespace Json

/-- Why a document has no JSON form. -/
inductive WriteError where
  /-- A key is null or a container. -/
  | keyNotText
  /-- A key is a float that is not finite. -/
  | keyNotFinite
deriving DecidableEq, Repr

/-- The text of an error. -/
def WriteError.message : WriteError → String
  | keyNotText => "key must be a string"
  | keyNotFinite => "float key must be finite (got NaN or +/-inf)"

/-- Numbers have a point or an exponent: from `0.00001` to `10 ^ 16` they are written with a point,
and an exponent has a sign. -/
def floatLayout : DoubleLayout where
  positional := some (-4, 16)
  keepsPointZero := true
  plusInExponent := true
  tie := .toEven
  nan := "null"
  infinity := "null"

/-- How containers are laid out. -/
inductive Layout where
  | compact
  | pretty
deriving DecidableEq, Repr

/-! ## Strings -/

/-- A character below 32 that has no escape of one letter. -/
def controlEscape (c : Char) : List Char :=
  let hex := Nat.toDigits 16 c.toNat
  ['\\', 'u'] ++ List.replicate (4 - hex.length) '0' ++ hex

/-- A character as it stands in a string. -/
def escape (c : Char) : List Char :=
  match c with
  | '"' => ['\\', '"']
  | '\\' => ['\\', '\\']
  | '\n' => ['\\', 'n']
  | '\r' => ['\\', 'r']
  | '\t' => ['\\', 't']
  | '\x08' => ['\\', 'b']
  | '\x0c' => ['\\', 'f']
  | c => if c.toNat < 0x20 then controlEscape c else [c]

/-- A string in quotes. -/
def quote (s : String) : String :=
  String.ofList ('"' :: s.toList.flatMap escape ++ ['"'])

/-! ## Atoms and keys -/

/-- The text of an atom. -/
def atomText : Atom → String
  | .null => "null"
  | .bool b => if b then "true" else "false"
  | .int n => toString n
  | .float x => if x.isFinite then x.render floatLayout else "null"
  | .text s => quote s

/-- The text of a key. -/
def keyText : Document → Except WriteError String
  | .atom (.text s) => .ok (quote s)
  | .atom (.float x) =>
    if x.isFinite then .ok (quote (x.render floatLayout)) else .error .keyNotFinite
  | .atom .null => .error .keyNotText
  | .atom a => .ok (quote (atomText a))
  | _ => .error .keyNotText

/-! ## Containers -/

/-- A line break and the indentation of a level, when lines are broken at all. -/
def lineBreak (layout : Layout) (level : Nat) : String :=
  match layout with
  | .compact => ""
  | .pretty => "\n" ++ String.ofList (List.replicate (2 * level) ' ')

/-- The parts of a container between its brackets, at the level of the container. -/
def bracket (layout : Layout) (level : Nat) (opening closing : String) (parts : List String) :
    String :=
  if parts.isEmpty then opening ++ closing
  else
    opening ++ lineBreak layout (level + 1) ++
      ("," ++ lineBreak layout (level + 1)).intercalate parts ++
      lineBreak layout level ++ closing

/-- What stands between a key and its value. -/
def colon : Layout → String
  | .compact => ":"
  | .pretty => ": "

mutual

/-- The text of a document at a level.  A tagged node is an object whose one key is its tag. -/
def text (layout : Layout) (level : Nat) : Document → Except WriteError String
  | .atom a => .ok (atomText a)
  | .seq items => do return bracket layout level "[" "]" (← itemTexts layout (level + 1) items)
  | .map entries => do
    return bracket layout level "\x7b" "\x7d" (← entryTexts layout (level + 1) entries)
  | .tagged tag content => do
    let content ← text layout (level + 1) content
    return bracket layout level "\x7b" "\x7d" [quote tag ++ colon layout ++ content]

/-- The texts of items. -/
def itemTexts (layout : Layout) (level : Nat) : List Document → Except WriteError (List String)
  | [] => .ok []
  | item :: rest => do
    let first ← text layout level item
    return first :: (← itemTexts layout level rest)

/-- The texts of entries. -/
def entryTexts (layout : Layout) (level : Nat) :
    List (Document × Document) → Except WriteError (List String)
  | [] => .ok []
  | (key, value) :: rest => do
    let key ← keyText key
    let value ← text layout level value
    return (key ++ colon layout ++ value) :: (← entryTexts layout level rest)

end

/-- The text of a document. -/
def write (layout : Layout) (document : Document) : Except WriteError String :=
  text layout 0 document

end Json

end PropertyTree
