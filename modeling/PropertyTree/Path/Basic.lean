import PropertyTree.Path.Segment

/-!
# Paths

A path is a text cut at its slashes.  Its last segment says what to read, set or remove; the
segments before it, the parents, lead to the container where that is done.  Only the empty text is
no path: doubled, leading and trailing slashes make empty segments, which are ordinary keys.

A `Path` keeps the parents and the last segment, so it has a segment by construction, and its text
is the segments joined again.
-/

namespace PropertyTree

/-- A path that leads through `parents` to the container of `last`. -/
structure Path where
  parents : List String
  last : String
deriving DecidableEq, Repr

namespace Path

/-- All segments in order. -/
def segments (path : Path) : List String :=
  path.parents ++ [path.last]

/-- The text of a path: its segments with slashes between them. -/
def text (path : Path) : String :=
  "/".intercalate path.segments

/-- The path made of a first segment and the ones after it. -/
def ofSegments : String → List String → Path
  | first, [] => ⟨[], first⟩
  | first, next :: rest =>
    let path := ofSegments next rest
    { path with parents := first :: path.parents }

/-- The path that a text spells; the empty text spells none. -/
def ofText? (text : String) : Option Path :=
  if text.isEmpty then none
  else
    let (first, others) := pieces '/' text.toList
    some (ofSegments (String.ofList first) (others.map String.ofList))

example : (ofText? "a//b").map segments = some ["a", "", "b"] := by decide +kernel
example : ofText? "" = none := by decide +kernel

end Path

end PropertyTree
