import PropertyTree.Yaml.Char

/-!
# Positions in a YAML text

Indentation decides the structure of YAML, so the reader knows in which line and column it stands.
A `Cursor` is the text that is left, with its position.
-/

namespace PropertyTree

namespace Yaml

/-- The text that is left and where it starts. -/
structure Cursor where
  rest : List Char
  index : Nat
  line : Nat
  column : Nat

namespace Cursor

/-- The start of a text. -/
def start (cs : List Char) : Cursor := ⟨cs, 0, 0, 0⟩

/-- Past some characters of a line. -/
def advance (c : Cursor) (count : Nat) : Cursor :=
  { c with
    rest := c.rest.drop count
    index := c.index + count
    column := c.column + count }

/-- The characters in front that pass a test, none of which breaks a line, and the cursor past
them. -/
def takeWhile (test : Char → Bool) (c : Cursor) : List Char × Cursor :=
  let taken := c.rest.takeWhile test
  (taken, c.advance taken.length)

/-- Past the characters in front that pass a test. -/
def skipWhile (test : Char → Bool) (c : Cursor) : Cursor :=
  (c.takeWhile test).2

/-- The line break in front, as it counts in a scalar, and the cursor on the next line.  Carriage
return, line feed, both together and next line all count as a line feed. -/
def break? (c : Cursor) : Option (Char × Cursor) :=
  let nextLine (count : Nat) : Cursor :=
    { rest := c.rest.drop count, index := c.index + count, line := c.line + 1, column := 0 }
  match c.rest with
  | '\r' :: '\n' :: _ => some ('\n', nextLine 2)
  | b :: _ =>
    if b = '\u2028' ∨ b = '\u2029' then some (b, nextLine 1)
    else if isBreak b then some ('\n', nextLine 1)
    else none
  | [] => none

/-- Past the comment in front, if there is one, up to the end of the line. -/
def skipComment (c : Cursor) : Cursor :=
  if c.rest.head? = some '#' then c.skipWhile (!isBreak ·) else c

/-- Whether a mark between documents stands here, at the start of a line. -/
def atDocumentMark (c : Cursor) : Bool :=
  c.column = 0 &&
    match c.rest with
    | '-' :: '-' :: '-' :: rest => isBlankOrEnd rest
    | '.' :: '.' :: '.' :: rest => isBlankOrEnd rest
    | _ => false

end Cursor

end Yaml

end PropertyTree
