import PropertyTree.Document.Basic
import PropertyTree.Double.Layout
import PropertyTree.Yaml.Style

/-!
# Writing YAML

`Yaml.write` writes a document in block style: an item of a sequence after a hyphen, an entry of a
map on a line of its own, and two more blanks of indentation for what lies deeper.  A sequence
under a key is not indented further.  Empty containers are written `[]` and `{}`.

A key is written in front of a colon if it is short and has one line; any other key, such as a
container, goes after a question mark, and its value after a colon on the next line.

Every part is written with the line break at its end, so that parts can be put after one another.
-/

namespace PropertyTree

namespace Yaml

/-- Numbers have a point or an exponent: from `0.00001` to `10 ^ 16` they are written with a point,
and a positive exponent has no sign. -/
def floatLayout : DoubleLayout where
  positional := some (-4, 16)
  keepsPointZero := true
  plusInExponent := false
  tie := .toEven
  nan := ".nan"
  infinity := ".inf"

/-- The text of an atom. -/
def atomText (indent : Nat) : Atom → String
  | .null => "null"
  | .bool b => if b then "true" else "false"
  | .int n => toString n
  | .float x => x.render floatLayout
  | .text s => (Style.ofText s).render indent s

/-- The text with a line break at its end, unless it ends with one. -/
def closeLine (text : String) : String :=
  if text.toList.getLast?.any isBreak then text else text ++ "\n"

/-- Blanks as a text. -/
def pad (n : Nat) : String := String.ofList (blanks n)

/-- How long a key in front of a colon may be, in bytes. -/
def maxKeyLength : Nat := 128

/-- The text of a key that can stand in front of a colon. -/
def simpleKey? (indent : Nat) : Document → Option String
  | .atom (.text s) =>
    if s.toList.any isBreak || maxKeyLength < s.utf8ByteSize then none
    else some (atomText indent (.text s))
  | .atom a => some (atomText indent a)
  | .seq [] => some "[]"
  | .map [] => some "\x7b\x7d"
  | _ => none

/-- Parts in a column, the first of which starts where it is put. -/
def column (indent : Nat) (parts : List String) : String :=
  (pad indent).intercalate parts

mutual

/-- A node that starts in a line already begun, with its other lines indented. -/
def inline (indent : Nat) : Document → String
  | .atom a => closeLine (atomText indent a)
  | .seq [] => "[]\n"
  | .map [] => "\x7b\x7d\n"
  | .seq items => column indent (itemTexts indent items)
  | .map entries => column indent (entryTexts indent entries)
  | .tagged tag content => "!" ++ tag ++ " " ++ inline indent content

/-- The items of a sequence, each after its hyphen. -/
def itemTexts (indent : Nat) : List Document → List String
  | [] => []
  | item :: rest => ("- " ++ inline (indent + 2) item) :: itemTexts indent rest

/-- The entries of a map. -/
def entryTexts (indent : Nat) : List (Document × Document) → List String
  | [] => []
  | (key, value) :: rest =>
    let entry := match simpleKey? (indent + 2) key with
      | some key => key ++ ":" ++ afterColon indent value
      | none =>
        "? " ++ inline (indent + 2) key ++ pad indent ++ ": " ++ inline (indent + 2) value
    entry :: entryTexts indent rest

/-- The value of an entry after the colon: what has lines of its own starts on the next one. -/
def afterColon (indent : Nat) : Document → String
  | .atom a => " " ++ closeLine (atomText (indent + 2) a)
  | .seq [] => " []\n"
  | .map [] => " \x7b\x7d\n"
  | .seq items => "\n" ++ pad indent ++ column indent (itemTexts indent items)
  | .map entries =>
    "\n" ++ pad (indent + 2) ++ column (indent + 2) (entryTexts (indent + 2) entries)
  | .tagged tag content => " !" ++ tag ++ afterColon indent content

end

/-- The text of a document.  A string that is the whole document counts as indented once. -/
def write : Document → String
  | .atom a => closeLine (atomText 2 a)
  | document => inline 0 document

end Yaml

end PropertyTree
