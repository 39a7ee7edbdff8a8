/-!
# Characters of YAML texts

The classes of characters that reading and writing YAML share.
-/

namespace PropertyTree

namespace Yaml

/-- A line break: line feed, carriage return, next line, line separator, paragraph separator. -/
def isBreak (c : Char) : Bool :=
  c == '\n' || c == '\r' || c == '\u0085' || c == '\u2028' || c == '\u2029'

/-- A blank within a line. -/
def isBlank (c : Char) : Bool :=
  c == ' ' || c == '\t'

/-- A character that is written as it is: neither a control character other than the line feed, nor
the byte order mark, nor one of the two that are no characters. -/
def isPrintable (c : Char) : Bool :=
  c == '\n' || ' ' ≤ c && c ≤ '~' || '\u00a0' ≤ c && c ≠ '\ufeff' && c ≠ '\ufffe' && c ≠ '\uffff'

/-- A character that a text may hold. -/
def isAllowed (c : Char) : Bool :=
  c == '\t' || c == '\n' || c == '\r' || ' ' ≤ c && c ≤ '~' || c == '\u0085' ||
    '\u00a0' ≤ c && c ≠ '\ufffe' && c ≠ '\uffff'

/-- A character of a word: an ASCII letter or digit, a hyphen or an underscore. -/
def isWord (c : Char) : Bool :=
  'a' ≤ c && c ≤ 'z' || 'A' ≤ c && c ≤ 'Z' || '0' ≤ c && c ≤ '9' || c == '-' || c == '_'

/-- The end of a text, a blank or a line break in front of a text. -/
def isBlankOrEnd : List Char → Bool
  | [] => true
  | c :: _ => isBlank c || isBreak c

end Yaml

end PropertyTree
