import PropertyTree.Double.Layout
import PropertyTree.Value.Table

/-!
# Values as text in messages

`Value.display` writes a value on one line, for messages: strings as they are, sequences in square
brackets, mappings in braces.  Fields come in the order of their keys, in whichever order the list
has them, and entries of an any-keyed mapping in their own order.
-/

namespace PropertyTree

/-- Messages write doubles without an exponent and integers without a point; of two shortest forms
equally near, the upper one. -/
def Value.floatLayout : DoubleLayout where
  positional := none
  keepsPointZero := false
  plusInExponent := false
  tie := .up
  nan := "NaN"
  infinity := "inf"

/-- The text of a leaf. -/
def Scalar.display : Scalar → String
  | null => "null"
  | bool b => if b then "true" else "false"
  | int i => toString i.toInt
  | float x => x.render Value.floatLayout
  | text s => s

namespace Value

/-- Texts in brackets, with a comma and a blank between them. -/
def bracket (opening closing : String) (parts : List String) : String :=
  opening ++ ", ".intercalate parts ++ closing

mutual

/-- The text of a value. -/
def display : Value → String
  | scalar s => s.display
  | seq items => bracket "[" "]" (displayItems items)
  | strMap fields =>
    bracket "\x7b" "\x7d" ((Fields.ofList (displayFields fields)).map fun f => f.1 ++ ": " ++ f.2)
  | anyMap entries => bracket "\x7b" "\x7d" (displayEntries entries)

/-- The texts of items. -/
def displayItems : List Value → List String
  | [] => []
  | item :: rest => item.display :: displayItems rest

/-- The fields with the texts of their values. -/
def displayFields : List (String × Value) → List (String × String)
  | [] => []
  | (key, value) :: rest => (key, value.display) :: displayFields rest

/-- The texts of entries. -/
def displayEntries : List (Value × Value) → List String
  | [] => []
  | (key, value) :: rest => (key.display ++ ": " ++ value.display) :: displayEntries rest

end

/-- The text of the items of a sequence. -/
def displaySequence (items : List Value) : String :=
  (seq items).display

end Value

end PropertyTree
