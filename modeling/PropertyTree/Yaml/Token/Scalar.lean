import PropertyTree.Document.Plain
import PropertyTree.Yaml.Cursor

/-!
# Scalars in a YAML text

The four ways in which a scalar is spelled: plain, in single or double quotes, and as a literal or
folded block.  Each function here reads one scalar and returns its text with the cursor past it, or
`none` if the text is malformed.

Within plain and quoted scalars a line break is read as a space, and of several all but the first
are kept.  Blanks around a line break are dropped.  `Gap` is what lies between two runs of
characters of such a scalar.
-/

namespace PropertyTree

namespace Yaml

/-! ## Gaps between the runs of a scalar -/

/-- Blanks and line breaks within a scalar. -/
structure Gap where
  /-- Blanks in front of the first line break. -/
  blanks : List Char
  /-- Whether the line was broken. -/
  broken : Bool
  /-- The first line break, unless it was escaped. -/
  first : Option Char
  /-- The other line breaks. -/
  others : List Char

/-- A gap with nothing in it. -/
def Gap.empty : Gap := ⟨[], false, none, []⟩

/-- A gap that starts with an escaped line break. -/
def Gap.escaped : Gap := ⟨[], true, none, []⟩

/-- The characters that a gap stands for. -/
def Gap.fold (gap : Gap) : List Char :=
  if gap.broken then
    match gap.first with
    | some '\n' => if gap.others.isEmpty then [' '] else gap.others
    | some b => b :: gap.others
    | none => gap.others
  else gap.blanks

/-- Reads a gap.  At the start of a line a tab may be forbidden left of some column. -/
def readGap (tabLimit : Nat) : Nat → Gap → Cursor → Option (Gap × Cursor)
  | 0, _, _ => none
  | fuel + 1, gap, cursor =>
    match cursor.break? with
    | some (b, next) =>
      if gap.broken then readGap tabLimit fuel { gap with others := gap.others ++ [b] } next
      else readGap tabLimit fuel { gap with blanks := [], broken := true, first := some b } next
    | none =>
      match cursor.rest with
      | c :: _ =>
        if isBlank c then
          if gap.broken then
            if c = '\t' ∧ cursor.column < tabLimit then none
            else readGap tabLimit fuel gap (cursor.advance 1)
          else readGap tabLimit fuel { gap with blanks := gap.blanks ++ [c] } (cursor.advance 1)
        else some (gap, cursor)
      | [] => some (gap, cursor)

/-! ## Plain scalars -/

/-- The indicators of flow collections. -/
def isFlowIndicator (c : Char) : Bool :=
  c == ',' || c == '[' || c == ']' || c == '\x7b' || c == '\x7d'

/-- The characters of a plain scalar up to a blank, a line break, or an indicator that ends it.
In a flow collection a colon in front of an indicator is malformed. -/
def plainRun? (inFlow : Bool) : List Char → Option (List Char)
  | [] => some []
  | c :: rest =>
    if isBlank c || isBreak c then some []
    else if inFlow && c == ':' && rest.head?.any fun d => isFlowIndicator d || d == '?' then none
    else if c == ':' && isBlankOrEnd rest then some []
    else if inFlow && isFlowIndicator c then some []
    else (plainRun? inFlow rest).map (c :: ·)

/-- A plain scalar: its text, the cursor past it, and whether a line was broken behind it. -/
structure PlainScalar where
  text : List Char
  cursor : Cursor
  broken : Bool

/-- Reads the runs of a plain scalar that follow a gap.  In block collections they must be indented
up to some column. -/
def plainRuns? (inFlow : Bool) (indent : Nat) :
    Nat → List Char → Gap → Cursor → Option PlainScalar
  | 0, _, _, _ => none
  | fuel + 1, text, gap, cursor => do
    if cursor.atDocumentMark || cursor.rest.head? = some '#' then
      return ⟨text, cursor, gap.broken⟩
    let run ← plainRun? inFlow cursor.rest
    if run.isEmpty then return ⟨text, cursor, gap.broken⟩
    let text := text ++ gap.fold ++ run
    let cursor := cursor.advance run.length
    let (gap, next) ← readGap indent (cursor.rest.length + 1) .empty cursor
    if !inFlow && next.column < indent then return ⟨text, next, gap.broken⟩
    plainRuns? inFlow indent fuel text gap next

/-- Reads a plain scalar. -/
def plainScalar? (inFlow : Bool) (indent : Nat) (cursor : Cursor) : Option PlainScalar :=
  plainRuns? inFlow indent (cursor.rest.length + 1) [] .empty cursor

/-! ## Quoted scalars -/

/-- The character that a one-letter escape stands for. -/
def escaped? : Char → Option Char
  | '0' => some '\x00'
  | 'a' => some '\x07'
  | 'b' => some '\x08'
  | 't' | '\t' => some '\t'
  | 'n' => some '\n'
  | 'v' => some '\x0b'
  | 'f' => some '\x0c'
  | 'r' => some '\r'
  | 'e' => some '\x1b'
  | ' ' => some ' '
  | '"' => some '"'
  | '/' => some '/'
  | '\\' => some '\\'
  | 'N' => some '\u0085'
  | '_' => some '\u00a0'
  | 'L' => some '\u2028'
  | 'P' => some '\u2029'
  | _ => none

/-- How many hexadecimal digits follow the letter of an escape. -/
def escapeWidth? : Char → Option Nat
  | 'x' => some 2
  | 'u' => some 4
  | 'U' => some 8
  | _ => none

/-- The character of a code point, if it is one. -/
def scalarValue? (n : Nat) : Option Char :=
  if n < 0xD800 ∨ 0xDFFF < n ∧ n ≤ 0x10FFFF then some (Char.ofNat n) else none

/-- The character that an escape after its backslash stands for, and the length of the escape. -/
def escape? : List Char → Option (Char × Nat)
  | [] => none
  | c :: rest =>
    match escapeWidth? c with
    | some width =>
      let digits := rest.take width
      if digits.length = width then
        (Plain.inBase? 16 digits).bind fun n => (scalarValue? n).map (·, width + 1)
      else none
    | none => (escaped? c).map (·, 1)

/-- What ends a run of characters of a quoted scalar. -/
inductive RunEnd where
  /-- The closing quote, a blank or a line break. -/
  | here
  /-- An escaped line break. -/
  | escapedBreak

/-- Reads the characters of a quoted scalar up to its closing quote, a blank or a line break. -/
def quotedRun? (single : Bool) :
    Nat → List Char → Cursor → Option (List Char × RunEnd × Cursor)
  | 0, _, _ => none
  | fuel + 1, run, cursor =>
    match cursor.rest with
    | [] => some (run.reverse, .here, cursor)
    | c :: rest =>
      if isBlank c || isBreak c then some (run.reverse, .here, cursor)
      else if single then
        if c = '\'' then
          if rest.head? = some '\'' then quotedRun? single fuel ('\'' :: run) (cursor.advance 2)
          else some (run.reverse, .here, cursor)
        else quotedRun? single fuel (c :: run) (cursor.advance 1)
      else if c = '"' then some (run.reverse, .here, cursor)
      else if c = '\\' then
        match (cursor.advance 1).break? with
        | some (_, next) => some (run.reverse, .escapedBreak, next)
        | none =>
          (escape? rest).bind fun (e, length) =>
            quotedRun? single fuel (e :: run) (cursor.advance (length + 1))
      else quotedRun? single fuel (c :: run) (cursor.advance 1)

/-- Reads the runs of a quoted scalar and the gaps between them, up to the closing quote. -/
def quotedRuns? (single : Bool) : Nat → List Char → Cursor → Option (List Char × Cursor)
  | 0, _, _ => none
  | fuel + 1, text, cursor => do
    if cursor.atDocumentMark || cursor.rest.isEmpty then none
    let (run, ending, cursor) ← quotedRun? single (cursor.rest.length + 1) [] cursor
    let text := text ++ run
    let gap := match ending with
      | .here => Gap.empty
      | .escapedBreak => Gap.escaped
    let quote := if single then '\'' else '"'
    if cursor.rest.head? = some quote then return (text, cursor.advance 1)
    let (gap, cursor) ← readGap 0 (cursor.rest.length + 1) gap cursor
    quotedRuns? single fuel (text ++ gap.fold) cursor

/-- Reads a quoted scalar after its opening quote. -/
def quotedScalar? (single : Bool) (cursor : Cursor) : Option (List Char × Cursor) :=
  quotedRuns? single (cursor.rest.length + 1) [] cursor

/-! ## Block scalars -/

/-- What becomes of the line breaks at the end of a block. -/
inductive Chomping where
  | strip
  | clip
  | keep
deriving DecidableEq

/-- The marks after the indicator of a block: chomping and indentation, in either order. -/
structure BlockHeader where
  chomping : Chomping
  indentation : Option Nat

/-- The chomping that a mark stands for. -/
def chomping? : Char → Option Chomping
  | '+' => some .keep
  | '-' => some .strip
  | _ => none

/-- Reads the marks after the indicator of a block; an indentation of zero is malformed. -/
def blockHeader? (cursor : Cursor) : Option (BlockHeader × Cursor) :=
  let indentation? (c : Char) : Option Nat := if isDigit c then some (digitValue c) else none
  let checked (header : BlockHeader) (length : Nat) : Option (BlockHeader × Cursor) :=
    if header.indentation = some 0 then none else some (header, cursor.advance length)
  match cursor.rest with
  | a :: rest =>
    match chomping? a, indentation? a with
    | some chomping, _ =>
      match rest.head?.bind indentation? with
      | some n => checked ⟨chomping, some n⟩ 2
      | none => checked ⟨chomping, none⟩ 1
    | none, some n =>
      match rest.head?.bind chomping? with
      | some chomping => checked ⟨chomping, some n⟩ 2
      | none => checked ⟨.clip, some n⟩ 1
    | none, none => checked ⟨.clip, none⟩ 0
  | [] => checked ⟨.clip, none⟩ 0

/-- The line breaks in front of a line of a block, the widest indentation met, and the cursor on
that line.  With a known indentation no more blanks than that are skipped. -/
def blockBreaks? (indent : Option Nat) :
    Nat → Nat → List Char → Cursor → Option (Nat × List Char × Cursor)
  | 0, _, _, _ => none
  | fuel + 1, widest, breaks, cursor =>
    let spaces := (cursor.rest.takeWhile (· == ' ')).length
    let wanted := match indent with
      | some n => min spaces (n - cursor.column)
      | none => spaces
    let cursor := cursor.advance wanted
    let widest := max widest cursor.column
    let isInside := indent.all fun n => cursor.column < n
    if isInside && cursor.rest.head? = some '\t' then none
    else
      match cursor.break? with
      | some (b, next) => blockBreaks? indent fuel widest (breaks ++ [b]) next
      | none => some (widest, breaks, cursor)

/-- The text of a block so far. -/
structure BlockText where
  text : List Char
  /-- The line break behind the last line. -/
  lineBreak : List Char
  /-- The line breaks after that. -/
  breaks : List Char
  /-- Whether the last line starts with a blank. -/
  afterBlank : Bool

/-- Reads the lines of a block at an indentation.  In a folded block the break between two lines
that do not start with a blank is read as a space. -/
def blockLines? (literal : Bool) (indent : Nat) :
    Nat → BlockText → Cursor → Option (BlockText × Cursor)
  | 0, _, _ => none
  | fuel + 1, block, cursor =>
    if cursor.column = indent ∧ !cursor.rest.isEmpty then do
      let startsBlank := cursor.rest.head?.any isBlank
      let isFolded := !literal && block.lineBreak = ['\n'] && !block.afterBlank && !startsBlank
      let joint :=
        if isFolded then (if block.breaks.isEmpty then [' '] else []) else block.lineBreak
      let (line, cursor) := cursor.takeWhile (!isBreak ·)
      let text := block.text ++ joint ++ block.breaks ++ line
      let (lineBreak, cursor) := match cursor.break? with
        | some (b, next) => ([b], next)
        | none => ([], cursor)
      let (_, breaks, cursor) ←
        blockBreaks? (some indent) (cursor.rest.length + 1) 0 [] cursor
      blockLines? literal indent fuel ⟨text, lineBreak, breaks, startsBlank⟩ cursor
    else some (block, cursor)

/-- Reads a block scalar after its indicator, in a collection that is indented to `outer` (-1 for
the whole text). -/
def blockScalar? (literal : Bool) (outer : Int) (cursor : Cursor) :
    Option (List Char × Cursor) := do
  let (header, cursor) ← blockHeader? cursor
  let cursor := (cursor.skipWhile isBlank).skipComment
  let cursor ← match cursor.break?, cursor.rest with
    | some (_, next), _ => some next
    | none, [] => some cursor
    | none, _ => none
  let given := header.indentation.map fun n => if 0 ≤ outer then outer.toNat + n else n
  let (widest, breaks, cursor) ← blockBreaks? given (cursor.rest.length + 1) 0 [] cursor
  let indent := given.getD (max widest (max (outer + 1).toNat 1))
  let (block, cursor) ←
    blockLines? literal indent (cursor.rest.length + 2) ⟨[], [], breaks, false⟩ cursor
  let tail := match header.chomping with
    | .strip => []
    | .clip => block.lineBreak
    | .keep => block.lineBreak ++ block.breaks
  return (block.text ++ tail, cursor)

end Yaml

end PropertyTree
