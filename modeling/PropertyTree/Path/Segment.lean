import PropertyTree.Double.Literal

/-!
# Segments of a path

A segment is one step of a path.  What it means depends on the node it is applied to: mappings take
any segment as a key, a sequence on the way is searched with a query `key=value`, and a sequence at
the end is indexed by decimal digits.  `SegmentClass.ofText` tells the three forms apart by the
segment alone.

`pieces` splits at a separator and is shared with the splitting of a path; it returns the first
piece apart from the others because there always is one.
-/

namespace PropertyTree

/-- The pieces of a text between separators: the first one, and the others in order. -/
def pieces (separator : Char) : List Char → List Char × List (List Char)
  | [] => ([], [])
  | c :: rest =>
    let (first, others) := pieces separator rest
    if c = separator then ([], first :: others) else (c :: first, others)

/-- The form of a segment. -/
inductive SegmentClass where
  | query (key value : String)
  | index (digits : String)
  | key (name : String)
deriving DecidableEq, Repr

namespace SegmentClass

/-- A segment with exactly one `=` is a query, one made of ASCII digits is an index, and every other
one is a key. -/
def ofText (segment : String) : SegmentClass :=
  match pieces '=' segment.toList with
  | (name, [value]) => query (String.ofList name) (String.ofList value)
  | _ =>
    if segment.toList ≠ [] ∧ segment.toList.all isDigit then index segment else key segment

example : ofText "name=x" = query "name" "x" := by decide +kernel
example : ofText "a=b=c" = key "a=b=c" := by decide +kernel
example : ofText "007" = index "007" := by decide +kernel
example : ofText "" = key "" := by decide +kernel

end SegmentClass

end PropertyTree
