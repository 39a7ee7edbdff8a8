import PropertyTree.Yaml.Token.Basic
import PropertyTree.Yaml.Token.Scalar

/-!
# Cutting a YAML text into tokens

`Token.ofText?` cuts a text into tokens, or fails if some part of it is no token or stands where it
must not.

Two things are found out only later in the text.  A scalar, a flow collection or an alias can turn
out to be the key of a map when a colon follows it on its line, so every place where a key may
start is remembered (`PossibleKey`, one for each level of flow collections), and the token that
marks the key is put in front of it afterwards.  And a block collection starts when something is
indented more than what is around it, and ends when something is indented less.
-/

namespace PropertyTree

namespace Yaml

/-- A place where the key of a map may have started. -/
structure PossibleKey where
  /-- Nothing but a key can stand there. -/
  required : Bool
  /-- How many tokens come before it. -/
  token : Nat
  index : Nat
  line : Nat
  column : Nat

/-- A text that is cut up to some place. -/
structure Scanner where
  cursor : Cursor
  /-- The tokens so far, the newest first. -/
  tokens : List (Token String)
  /-- The indentation of the innermost block collection; -1 outside all of them. -/
  indent : Int
  /-- The indentations of the collections around it. -/
  outer : List Int
  /-- The possible key of each open flow collection, the innermost first, and of the block. -/
  keys : List (Option PossibleKey)
  /-- Whether the key of a map may start here. -/
  keyAllowed : Bool

namespace Scanner

/-- The start of a text. -/
def start (cs : List Char) : Scanner :=
  { cursor := .start cs, tokens := [], indent := -1, outer := [], keys := [none],
    keyAllowed := true }

/-- Whether a flow collection is open. -/
def inFlow (s : Scanner) : Bool :=
  1 < s.keys.length

/-- The column as an indentation. -/
def column (s : Scanner) : Int := s.cursor.column

/-- Adds a token. -/
def emit (s : Scanner) (token : Token String) : Scanner :=
  { s with tokens := token :: s.tokens }

/-- Adds a token with `before` tokens before it. -/
def emitAt (s : Scanner) (before : Nat) (token : Token String) : Scanner :=
  let later := s.tokens.length - before
  { s with tokens := s.tokens.take later ++ token :: s.tokens.drop later }

/-- Moves on in the line. -/
def advance (s : Scanner) (count : Nat) : Scanner :=
  { s with cursor := s.cursor.advance count }

/-! ## Possible keys -/

/-- Forgets the possible key of this level; one that was required is a fault. -/
def dropKey? (s : Scanner) : Option Scanner :=
  match s.keys with
  | some key :: rest => if key.required then none else some { s with keys := none :: rest }
  | _ => some s

/-- Remembers this place as a possible key, if one may start here. -/
def saveKey? (s : Scanner) : Option Scanner :=
  if s.keyAllowed then do
    let s ← s.dropKey?
    let key : PossibleKey := {
      required := !s.inFlow && s.indent = s.column
      token := s.tokens.length
      index := s.cursor.index
      line := s.cursor.line
      column := s.cursor.column }
    return { s with keys := some key :: s.keys.tail }
  else some s

/-- A key must lie on one line and within 1024 characters. -/
def isStale (cursor : Cursor) (key : PossibleKey) : Bool :=
  key.line < cursor.line || key.index + 1024 < cursor.index

/-- Forgets possible keys that are too far back; one that was required is a fault. -/
def dropStaleKeys? (s : Scanner) : Option Scanner := do
  let keys ← s.keys.mapM fun key? =>
    match key? with
    | none => some none
    | some key =>
      if !isStale s.cursor key then some (some key)
      else if key.required then none
      else some none
  return { s with keys }

/-! ## Block collections -/

/-- Starts a block collection in a column, if that is indented more than what is around it. -/
def roll (s : Scanner) (column : Int) (before : Nat) (token : Token String) : Scanner :=
  if !s.inFlow && s.indent < column then
    { s with outer := s.indent :: s.outer, indent := column }.emitAt before token
  else s

/-- Ends the block collections that are indented more than a column. -/
def unrollTo (column : Int) : List Int → Scanner → Scanner
  | [], s => s
  | indent :: outer, s =>
    if column < s.indent then
      unrollTo column outer ({ s with indent, outer }.emit .blockEnd)
    else s

/-- Ends the block collections that are indented more than a column, outside flow collections. -/
def unroll (s : Scanner) (column : Int) : Scanner :=
  if s.inFlow then s else unrollTo column s.outer s

/-! ## Blanks, comments and line breaks -/

/-- The blanks that may stand in front of a token: tabs only where no key may start. -/
def skipBlanks (s : Scanner) : Scanner :=
  let isSkipped (c : Char) : Bool := c == ' ' || c == '\t' && (s.inFlow || !s.keyAllowed)
  { s with cursor := (s.cursor.skipWhile isSkipped).skipComment }

/-- Moves to the next token.  Outside flow collections a key may start on a new line. -/
def toToken : Nat → Scanner → Scanner
  | 0, s => s
  | fuel + 1, s =>
    let s := if s.cursor.column = 0 ∧ s.cursor.rest.head? = some '\ufeff' then s.advance 1 else s
    let s := s.skipBlanks
    match s.cursor.break? with
    | some (_, next) =>
      toToken fuel { s with cursor := next, keyAllowed := s.keyAllowed || !s.inFlow }
    | none => s

/-! ## Tokens -/

/-- A mark between documents. -/
def documentMark? (s : Scanner) (token : Token String) : Option Scanner := do
  let s ← (s.unroll (-1)).dropKey?
  return ({ s with keyAllowed := false }.advance 3).emit token

/-- The start of a flow collection, which may be a key. -/
def flowStart? (s : Scanner) (token : Token String) : Option Scanner := do
  let s ← s.saveKey?
  return ({ s with keys := none :: s.keys, keyAllowed := true }.advance 1).emit token

/-- The end of a flow collection. -/
def flowEnd? (s : Scanner) (token : Token String) : Option Scanner := do
  let s ← s.dropKey?
  let keys := if s.inFlow then s.keys.tail else s.keys
  return ({ s with keys, keyAllowed := false }.advance 1).emit token

/-- The mark between the items of a flow collection. -/
def flowEntry? (s : Scanner) : Option Scanner := do
  let s ← s.dropKey?
  return ({ s with keyAllowed := true }.advance 1).emit .flowEntry

/-- The mark in front of an item of a block sequence. -/
def blockEntry? (s : Scanner) : Option Scanner := do
  if !s.inFlow && !s.keyAllowed then none
  let s ← (s.roll s.column s.tokens.length .blockSequenceStart).dropKey?
  return ({ s with keyAllowed := true }.advance 1).emit .blockEntry

/-- The mark in front of a key that is not simple. -/
def key? (s : Scanner) : Option Scanner := do
  if !s.inFlow && !s.keyAllowed then none
  let s ← (s.roll s.column s.tokens.length .blockMapStart).dropKey?
  return ({ s with keyAllowed := !s.inFlow }.advance 1).emit .key

/-- The mark in front of a value.  If a possible key came before it, that is marked as a key. -/
def value? (s : Scanner) : Option Scanner :=
  match s.keys with
  | some key :: rest =>
    let s := s.emitAt key.token .key
    let s := s.roll key.column key.token .blockMapStart
    some (({ s with keys := none :: rest, keyAllowed := false }.advance 1).emit .value)
  | _ =>
    if !s.inFlow && !s.keyAllowed then none
    else
      let s := s.roll s.column s.tokens.length .blockMapStart
      some (({ s with keyAllowed := !s.inFlow }.advance 1).emit .value)

/-- The characters that may follow the name of an anchor or alias. -/
def endsName : List Char → Bool
  | [] => true
  | c :: _ =>
    isBlank c || isBreak c || ['?', ':', ',', ']', '\x7d', '%', '@', '\u0060'].contains c

/-- An anchor or an alias: a name after its mark. -/
def name? (s : Scanner) (token : String → Token String) : Option Scanner := do
  let s ← s.saveKey?
  let (name, cursor) := (s.cursor.advance 1).takeWhile isWord
  if name.isEmpty || !endsName cursor.rest then none
  return { s with cursor, keyAllowed := false }.emit (token (String.ofList name))

/-! ## Tags -/

/-- The characters of a tag besides words; flow indicators only between angle brackets. -/
def isTagChar (verbatim : Bool) (c : Char) : Bool :=
  isWord c || (";/?:@&=+$.!~*'()".toList.contains c) ||
    verbatim && (c == ',' || c == '[' || c == ']')

/-- The bytes of a character that is spelled by escapes: how many follow the first one. -/
def followers? (first : Nat) : Option Nat :=
  if first < 0x80 then some 0
  else if 0xC0 ≤ first ∧ first < 0xE0 then some 1
  else if 0xE0 ≤ first ∧ first < 0xF0 then some 2
  else if 0xF0 ≤ first ∧ first < 0xF8 then some 3
  else none

/-- The byte that a percent sign and two digits in front of a text spell. -/
def escapedByte? : List Char → Option (UInt8 × List Char)
  | '%' :: a :: b :: rest => (Plain.inBase? 16 [a, b]).map fun n => (UInt8.ofNat n, rest)
  | _ => none

/-- Some bytes that are spelled by escapes. -/
def escapedBytes? : Nat → List Char → Option (List UInt8 × List Char)
  | 0, cs => some ([], cs)
  | count + 1, cs => do
    let (byte, cs) ← escapedByte? cs
    let (bytes, cs) ← escapedBytes? count cs
    return (byte :: bytes, cs)

/-- The character that escapes in front of a text spell, byte by byte. -/
def escapedChar? (cs : List Char) : Option (List Char × List Char) := do
  let (first, _) ← escapedByte? cs
  let (bytes, rest) ← escapedBytes? ((← followers? first.toNat) + 1) cs
  let text ← String.fromUTF8? ⟨bytes.toArray⟩
  return (text.toList, rest)

/-- The characters of a tag, with escapes replaced. -/
def tagText? (verbatim : Bool) : Nat → List Char → Option (List Char × List Char)
  | 0, _ => none
  | fuel + 1, cs =>
    match cs with
    | '%' :: _ => do
      let (text, rest) ← escapedChar? cs
      let (others, rest) ← tagText? verbatim fuel rest
      return (text ++ others, rest)
    | c :: rest =>
      if isTagChar verbatim c then
        (tagText? verbatim fuel rest).map fun (others, rest) => (c :: others, rest)
      else some ([], cs)
    | [] => some ([], [])

/-- The handle and the suffix of a tag after its exclamation mark, with the text after it. -/
def tagParts? (cs : List Char) : Option (String × String × List Char) :=
  match cs with
  | '<' :: rest => do
    let (suffix, rest) ← tagText? true (rest.length + 1) rest
    match suffix, rest with
    | _ :: _, '>' :: rest => return ("", String.ofList suffix, rest)
    | _, _ => none
  | _ => do
    let word := cs.takeWhile isWord
    match cs.drop word.length with
    | '!' :: rest =>
      let (suffix, rest) ← tagText? false (rest.length + 1) rest
      if suffix.isEmpty then none
      return ("!" ++ String.ofList word ++ "!", String.ofList suffix, rest)
    | rest =>
      let (suffix, rest) ← tagText? false (rest.length + 1) rest
      let suffix := word ++ suffix
      if suffix.isEmpty then return ("", "!", rest) else return ("!", String.ofList suffix, rest)

/-- A tag. -/
def tag? (s : Scanner) : Option Scanner := do
  let s ← s.saveKey?
  let after := s.cursor.rest.drop 1
  let (handle, suffix, rest) ← tagParts? after
  if !isBlankOrEnd rest && !(s.inFlow && rest.head? = some ',') then none
  let cursor := s.cursor.advance (1 + (after.length - rest.length))
  return { s with cursor, keyAllowed := false }.emit (.tag handle suffix)

/-! ## Scalars -/

/-- A literal or folded block. -/
def block? (s : Scanner) (literal : Bool) : Option Scanner := do
  let s ← s.dropKey?
  let (text, cursor) ← blockScalar? literal s.indent (s.cursor.advance 1)
  let style := if literal then ScalarStyle.literal else .quoted
  return { s with cursor, keyAllowed := true }.emit (.scalar (String.ofList text) style)

/-- A scalar in quotes. -/
def quoted? (s : Scanner) (single : Bool) : Option Scanner := do
  let s ← s.saveKey?
  let (text, cursor) ← quotedScalar? single (s.cursor.advance 1)
  return { s with cursor, keyAllowed := false }.emit (.scalar (String.ofList text) .quoted)

/-- A plain scalar.  A key may start behind it if it reaches to the end of a line. -/
def plain? (s : Scanner) : Option Scanner := do
  let s ← s.saveKey?
  let scalar ← plainScalar? s.inFlow (s.indent + 1).toNat s.cursor
  return { s with cursor := scalar.cursor, keyAllowed := scalar.broken }.emit
    (.scalar (String.ofList scalar.text) .plain)

/-- The characters that no plain scalar starts with, unless something follows some of them. -/
def isIndicator (c : Char) : Bool :=
  ['-', '?', ':', ',', '[', ']', '\x7b', '\x7d', '#', '&', '*', '!', '|', '>', '\'', '"', '%', '@',
    '\u0060'].contains c

/-- Whether a plain scalar starts with a character that has some text after it. -/
def startsPlain (inFlow : Bool) (c : Char) (rest : List Char) : Bool :=
  !(isBlank c || isBreak c || isIndicator c) ||
    c == '-' && !rest.head?.any isBlank ||
    !inFlow && (c == '?' || c == ':') && !isBlankOrEnd rest

/-! ## Directives -/

/-- A number of at most nine digits in front of a text. -/
def versionPart? (cs : List Char) : Option (Nat × List Char) :=
  let digits := cs.takeWhile isDigit
  if digits.isEmpty || 9 < digits.length then none
  else some (decimalValue digits, cs.drop digits.length)

/-- The version after the name of a version directive. -/
def version? (cs : List Char) : Option (Token String × List Char) := do
  let (major, rest) ← versionPart? (cs.dropWhile isBlank)
  match rest with
  | '.' :: rest =>
    let (minor, rest) ← versionPart? rest
    return (.versionDirective major minor, rest)
  | _ => none

/-- The handle of a tag directive: one exclamation mark, or a word between two. -/
def handle? (cs : List Char) : Option (String × List Char) :=
  match cs with
  | '!' :: rest =>
    let word := rest.takeWhile isWord
    match rest.drop word.length with
    | '!' :: rest => some ("!" ++ String.ofList word ++ "!", rest)
    | rest => if word.isEmpty then some ("!", rest) else none
  | _ => none

/-- The handle and the text it stands for, after the name of a tag directive. -/
def tagRule? (cs : List Char) : Option (Token String × List Char) := do
  let (handle, rest) ← handle? (cs.dropWhile isBlank)
  match rest with
  | c :: _ =>
    if !isBlank c then none
    let rest := rest.dropWhile isBlank
    let (start, rest) ← tagText? true (rest.length + 1) rest
    if start.isEmpty || !isBlankOrEnd rest then none
    return (.tagDirective handle (String.ofList start), rest)
  | [] => none

/-- A directive: a name after the percent sign, and what belongs to it, up to the end of the
line. -/
def directive? (s : Scanner) : Option Scanner := do
  let s ← (s.unroll (-1)).dropKey?
  let after := s.cursor.rest.drop 1
  let name := after.takeWhile isWord
  let rest := after.drop name.length
  if !isBlankOrEnd rest then none
  let (token, rest) ← match String.ofList name with
    | "YAML" => version? rest
    | "TAG" => tagRule? rest
    | _ => none
  let cursor := s.cursor.advance (1 + (after.length - rest.length))
  let cursor := (cursor.skipWhile isBlank).skipComment
  match cursor.break?, cursor.rest with
  | some (_, next), _ => return { s with cursor := next, keyAllowed := false }.emit token
  | none, [] => return { s with cursor, keyAllowed := false }.emit token
  | none, _ => none

/-! ## The whole text -/

/-- Cuts the token that a character starts. -/
def next? (s : Scanner) (c : Char) (rest : List Char) : Option Scanner :=
  if s.cursor.column = 0 ∧ c = '%' then s.directive?
  else if s.cursor.atDocumentMark then
    s.documentMark? (if c = '-' then .documentStart else .documentEnd)
  else if c = '[' then s.flowStart? .flowSequenceStart
  else if c = '\x7b' then s.flowStart? .flowMapStart
  else if c = ']' then s.flowEnd? .flowSequenceEnd
  else if c = '\x7d' then s.flowEnd? .flowMapEnd
  else if c = ',' then s.flowEntry?
  else if c = '-' ∧ isBlankOrEnd rest then s.blockEntry?
  else if c = '?' ∧ (s.inFlow || isBlankOrEnd rest) then s.key?
  else if c = ':' ∧ (s.inFlow || isBlankOrEnd rest) then s.value?
  else if c = '*' then s.name? .alias
  else if c = '&' then s.name? .anchor
  else if c = '!' then s.tag?
  else if c = '|' ∧ !s.inFlow then s.block? true
  else if c = '>' ∧ !s.inFlow then s.block? false
  else if c = '\'' then s.quoted? true
  else if c = '"' then s.quoted? false
  else if startsPlain s.inFlow c rest then s.plain?
  else none

/-- Cuts tokens up to the end of the text, where all open block collections end. -/
def finish? : Nat → Scanner → Option Scanner
  | 0, _ => none
  | fuel + 1, s => do
    let s := s.toToken (s.cursor.rest.length + 1)
    let s ← s.dropStaleKeys?
    let s := s.unroll s.column
    match s.cursor.rest with
    | [] => (s.unroll (-1)).dropKey?
    | c :: rest =>
      let s ← s.next? c rest
      finish? fuel s

end Scanner

/-- The tokens of a text.  A byte order mark in front of it is passed over, and a character that no
text may hold is a fault. -/
def Token.ofText? (text : String) : Option (List (Token String)) := do
  let cs := text.toList
  let cs := if cs.head? = some '\ufeff' then cs.tail else cs
  if !cs.all isAllowed then none
  let s ← (Scanner.start cs).finish? (cs.length + 1)
  return s.tokens.reverse

end Yaml

end PropertyTree
