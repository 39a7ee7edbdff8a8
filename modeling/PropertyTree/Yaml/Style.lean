import PropertyTree.Document.Plain
import PropertyTree.Yaml.Char

/-!
# How a string is written in YAML

A string is written plain when the plain text reads back as the same string, and otherwise in single
quotes, in double quotes, or as a literal block if it has several lines.  `Style.ofText` makes the
choice from what the text holds (`TextTraits`), and `Style.render` writes the text in a style.

Lines are never folded.
-/

namespace PropertyTree

namespace Yaml

/-- What a text holds that decides how it can be written. -/
structure TextTraits where
  /-- An indicator stands where it would be read as one. -/
  indicator : Bool
  /-- Some character has to be escaped. -/
  special : Bool
  hasBreak : Bool
  startsBlank : Bool
  endsBlank : Bool
  endsSpace : Bool
  /-- A space follows a line break. -/
  breakSpace : Bool
  /-- A line break follows a space. -/
  spaceBreak : Bool

/-- The characters that no plain text starts with. -/
def leadingIndicators : List Char :=
  ['#', ',', '[', ']', '\x7b', '\x7d', '&', '*', '!', '|', '>', '\'', '"', '%', '@', '\u0060']

/-- Whether the first character of a text, with the text after it, is an indicator. -/
def isLeadingIndicator (c : Char) (rest : List Char) : Bool :=
  leadingIndicators.contains c || (c == '?' || c == ':' || c == '-') && isBlankOrEnd rest

/-- Whether an indicator stands after the first character, which is `before`. -/
def hasInnerIndicator (before : Char) : List Char → Bool
  | [] => false
  | c :: rest =>
    c == ':' && isBlankOrEnd rest || c == '#' && (isBlank before || isBreak before) ||
      hasInnerIndicator c rest

/-- Whether a character of one class is followed by one of another. -/
def hasPair (first second : Char → Bool) : List Char → Bool
  | a :: b :: rest => first a && second b || hasPair first second (b :: rest)
  | _ => false

/-- Whether a text has an indicator, or starts like a mark between documents. -/
def hasIndicator : List Char → Bool
  | [] => false
  | c :: rest =>
    ['-', '-', '-'].isPrefixOf (c :: rest) || ['.', '.', '.'].isPrefixOf (c :: rest) ||
      isLeadingIndicator c rest || hasInnerIndicator c rest

/-- The traits of a text. -/
def TextTraits.ofText (cs : List Char) : TextTraits :=
  let isSpace (c : Char) : Bool := c == ' '
  { indicator := hasIndicator cs
    special := cs.any fun c => !isPrintable c
    hasBreak := cs.any isBreak
    startsBlank := cs.head?.any fun c => isSpace c || isBreak c
    endsBlank := cs.getLast?.any fun c => isSpace c || isBreak c
    endsSpace := cs.getLast?.any isSpace
    breakSpace := hasPair isBreak isSpace cs
    spaceBreak := hasPair isSpace isBreak cs }

/-- Plain text that reads back as itself, if its type is not in doubt. -/
def TextTraits.allowsPlain (t : TextTraits) : Bool :=
  !(t.indicator || t.special || t.hasBreak || t.startsBlank || t.endsBlank)

/-- Text that single quotes keep. -/
def TextTraits.allowsSingle (t : TextTraits) : Bool :=
  !(t.special || t.spaceBreak || t.breakSpace)

/-- Text that a literal block keeps. -/
def TextTraits.allowsLiteral (t : TextTraits) : Bool :=
  !(t.special || t.spaceBreak || t.endsSpace)

/-- The ways to write a string. -/
inductive Style where
  | plain
  | single
  | double
  | literal
deriving DecidableEq, Repr

/-- Whether plain text would be read as something else than a string. -/
def isAmbiguous (text : String) : Bool :=
  match Plain.atom? text with
  | some (.text _) => Plain.isZeroPadded text.toList
  | _ => true

/-- The style of a string: a literal block for lines, quotes where plain text would not read
back. -/
def Style.ofText (text : String) : Style :=
  let traits := TextTraits.ofText text.toList
  if text.toList.contains '\n' then
    if traits.allowsLiteral then .literal else .double
  else if traits.allowsPlain && !isAmbiguous text then .plain
  else if traits.allowsSingle then .single
  else .double

/-! ## Writing in a style -/

/-- Blanks. -/
def blanks (n : Nat) : List Char := List.replicate n ' '

/-- Text in which every line after the first is indented. -/
def indentLines (indent : Nat) : Bool → List Char → List Char
  | _, [] => []
  | atStart, c :: rest =>
    if isBreak c then c :: indentLines indent true rest
    else (if atStart then blanks indent else []) ++ c :: indentLines indent false rest

/-- Text in single quotes: a quote is written twice, and lines after the first are indented. -/
def singleQuoted (indent : Nat) (cs : List Char) : List Char :=
  let doubled := cs.flatMap fun c => if c = '\'' then ['\'', '\''] else [c]
  let closing := if cs.getLast?.any isBreak then blanks indent else []
  '\'' :: indentLines indent false doubled ++ closing ++ ['\'']

/-- A number in hexadecimal capitals of some width. -/
def hexDigits (width n : Nat) : List Char :=
  let digits := (Nat.toDigits 16 n).map Char.toUpper
  List.replicate (width - digits.length) '0' ++ digits

/-- The escape of a character, after the backslash. -/
def escapeCode (c : Char) : List Char :=
  match c with
  | '\x00' => ['0']
  | '\x07' => ['a']
  | '\x08' => ['b']
  | '\t' => ['t']
  | '\n' => ['n']
  | '\x0b' => ['v']
  | '\x0c' => ['f']
  | '\r' => ['r']
  | '\x1b' => ['e']
  | '"' => ['"']
  | '\\' => ['\\']
  | '\u0085' => ['N']
  | '\u2028' => ['L']
  | '\u2029' => ['P']
  | c =>
    let n := c.toNat
    if n ≤ 0xff then 'x' :: hexDigits 2 n
    else if n ≤ 0xffff then 'u' :: hexDigits 4 n
    else 'U' :: hexDigits 8 n

/-- A character in double quotes. -/
def escape (c : Char) : List Char :=
  if isPrintable c && !isBreak c && c ≠ '"' && c ≠ '\\' then [c] else '\\' :: escapeCode c

/-- Text in double quotes. -/
def doubleQuoted (cs : List Char) : List Char :=
  '"' :: cs.flatMap escape ++ ['"']

/-- The mark that tells how many line breaks end a block: a hyphen for none, a plus for more than
one, and for a single break that is all there is. -/
def chompMark (cs : List Char) : List Char :=
  match cs.reverse with
  | [] => ['-']
  | [c] => if isBreak c then ['+'] else ['-']
  | c :: before :: _ =>
    if !isBreak c then ['-'] else if isBreak before then ['+'] else []

/-- A literal block.  Its indentation is given when the first line does not show it. -/
def literalBlock (indent : Nat) (cs : List Char) : List Char :=
  let hint := if cs.head?.any fun c => c == ' ' || isBreak c then ['2'] else []
  '|' :: hint ++ chompMark cs ++ '\n' :: indentLines indent true cs

/-- A string in a style, whose lines after the first are indented. -/
def Style.render (style : Style) (indent : Nat) (text : String) : String :=
  String.ofList <| match style with
    | .plain => text.toList
    | .single => singleQuoted indent text.toList
    | .double => doubleQuoted text.toList
    | .literal => literalBlock indent text.toList

end Yaml

end PropertyTree
