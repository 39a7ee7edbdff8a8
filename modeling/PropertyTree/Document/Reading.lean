import PropertyTree.Document.Plain
import PropertyTree.Fields

/-!
# Readings: trees as a text delivers them

A `Reading` is a document before the kinds of its leaves are settled.  A leaf that a text spells
out without quotes can be read as a string, as a number or as a truth value, depending on what is
wanted; so it is kept with its spelling, and the functions here read it on demand:

* `Reading.text?`, `Reading.bool?`, `Reading.natural?`, `Reading.items?` and `Reading.entries?`
  read a node for a field of a known type;
* `Reading.document?` reads a node as data whose maps must not repeat a key, with its tags;
* `Reading.buffered?` reads a node as data without tags, whose maps may repeat keys.

A node that cannot be read for any purpose, such as a number out of every range, is `unreadable`.
It spoils what reads it, and nothing if the field that holds it is passed over.
-/

namespace PropertyTree

/-- How a scalar was written; a folded block counts as quoted. -/
inductive ScalarStyle where
  | plain
  | quoted
  | literal
deriving DecidableEq, Repr

/-- The types that a tag can give to a scalar; `other` stands for every other tag of the kind that
leaves a scalar a string. -/
inductive ScalarTag where
  | null
  | bool
  | int
  | float
  | other
deriving DecidableEq, Repr

/-- A tree as a text delivers it. -/
inductive Reading where
  /-- A leaf of a known type. -/
  | atom (a : Atom)
  /-- A leaf by its spelling. -/
  | spelled (text : String) (style : ScalarStyle) (tag : Option ScalarTag)
  | seq (items : List Reading)
  | map (entries : List (Reading × Reading))
  | tagged (tag : String) (content : Reading)
  /-- The node of a text that has none. -/
  | absent
  /-- A node without a value. -/
  | unreadable
deriving Repr, Inhabited

mutual

/-- A document as a reading of it. -/
def Document.toReading : Document → Reading
  | .atom a => .atom a
  | .seq items => .seq (toReadings items)
  | .map entries => .map (toReadingEntries entries)
  | .tagged tag content => .tagged tag content.toReading

/-- Items as readings of them. -/
def Document.toReadings : List Document → List Reading
  | [] => []
  | item :: rest => item.toReading :: toReadings rest

/-- Entries as readings of them. -/
def Document.toReadingEntries : List (Document × Document) → List (Reading × Reading)
  | [] => []
  | (key, value) :: rest => (key.toReading, value.toReading) :: toReadingEntries rest

end

namespace Reading

/-! ## Leaves where any value is welcome -/

/-- The value of a spelled leaf.  A tag of one of the known types must fit the text; another tag, or
quotes, make a string of it. -/
def spelledAtom? (text : String) (style : ScalarStyle) : Option ScalarTag → Option Atom
  | some .null => if Plain.isNull text then some .null else none
  | some .bool => (Plain.bool? text).map .bool
  | some .int =>
    match Plain.integer text with
    | .fits n => some (.int n)
    | _ => none
  | some .float => (Plain.float? text).map .float
  | some .other => some (.text text)
  | none => if style = .plain then Plain.atom? text else some (.text text)

/-! ## Fields of a known type -/

/-- A node without its tag; a field of a known type does not look at it. -/
def bare : Reading → Reading
  | tagged _ content => content
  | node => node

/-- The string of a leaf; a spelled leaf is its spelling, whatever that looks like. -/
def text? (node : Reading) : Option String :=
  match node.bare with
  | atom (.text s) => some s
  | spelled text .. => some text
  | _ => none

/-- Whether a spelled leaf may be read as a type: without quotes, or as a literal block under the
tag of that type. -/
def isOpenTo (type : ScalarTag) (style : ScalarStyle) (tag : Option ScalarTag) : Bool :=
  style = .plain || style = .literal && tag = some type

/-- The truth value of a leaf. -/
def bool? (node : Reading) : Option Bool :=
  match node.bare with
  | atom (.bool b) => some b
  | spelled text style tag => if isOpenTo .bool style tag then Plain.bool? text else none
  | _ => none

/-- The integer of a leaf, if it lies in the range of `UInt32`. -/
def natural? (node : Reading) : Option UInt32 :=
  let number := match node.bare with
    | atom (.int n) => some n
    | spelled text style tag =>
      if isOpenTo .int style tag then
        match Plain.integer text with
        | .fits n => some n
        | _ => none
      else none
    | _ => none
  number.bind fun n => if 0 ≤ n ∧ n < 4294967296 then some (UInt32.ofNat n.toNat) else none

/-- A node with nothing in it, which stands for an empty sequence or map. -/
def isBlank : Reading → Bool
  | spelled "" .plain _ => true
  | absent => true
  | _ => false

/-- The items of a sequence. -/
def items? (node : Reading) : Option (List Reading) :=
  match node.bare with
  | seq items => some items
  | node => if node.isBlank then some [] else none

/-- The entries of a map. -/
def entries? (node : Reading) : Option (List (Reading × Reading)) :=
  match node.bare with
  | map entries => some entries
  | node => if node.isBlank then some [] else none

/-- The node of a field that may be null: `none` if it cannot be read, `some none` if it is null. -/
def optional? (node : Reading) : Option (Option Reading) :=
  match node with
  | atom .null | absent => some none
  | spelled text .plain none => some (if text.isEmpty || Plain.isNull text then none else some node)
  | spelled text .plain (some .null) => if Plain.isNull text then some none else none
  | unreadable => none
  | node => some (some node)

/-! ## Data -/

/-- Whether one of the documents equals a key. -/
def isRepeated (entries : List (Document × Document)) (key : Document) : Bool :=
  entries.any fun e => e.1.equal key

/-- The map of entries after some others, unless a key is repeated. -/
def distinct? (before : List (Document × Document)) :
    List (Document × Document) → Option Document
  | [] => some (.map before)
  | e :: rest => if isRepeated before e.1 then none else distinct? (before ++ [e]) rest

mutual

/-- The node as data with its tags; no map may repeat a key, and no tag may be empty. -/
def document? : Reading → Option Document
  | atom a => some (.atom a)
  | spelled text style tag => (spelledAtom? text style tag).map .atom
  | seq items => (documents? items).map .seq
  | map entries => (documentEntries? entries).bind fun entries => distinct? [] entries
  | tagged tag content =>
    if tag.isEmpty then none else content.document?.map (.tagged tag)
  | absent => some (.atom .null)
  | unreadable => none

/-- Items as data. -/
def documents? : List Reading → Option (List Document)
  | [] => some []
  | item :: rest => do return (← item.document?) :: (← documents? rest)

/-- Entries as data. -/
def documentEntries? : List (Reading × Reading) → Option (List (Document × Document))
  | [] => some []
  | (key, value) :: rest => do
    return (← key.document?, ← value.document?) :: (← documentEntries? rest)

end

mutual

/-- The node as data without tags. -/
def buffered? : Reading → Option Document
  | atom a => some (.atom a)
  | spelled text style tag => (spelledAtom? text style tag).map .atom
  | seq items => (bufferedItems? items).map .seq
  | map entries => (bufferedEntries? entries).map .map
  | tagged .. => none
  | absent => some (.atom .null)
  | unreadable => none

/-- Items as data without tags. -/
def bufferedItems? : List Reading → Option (List Document)
  | [] => some []
  | item :: rest => do return (← item.buffered?) :: (← bufferedItems? rest)

/-- Entries as data without tags. -/
def bufferedEntries? : List (Reading × Reading) → Option (List (Document × Document))
  | [] => some []
  | (key, value) :: rest => do
    return (← key.buffered?, ← value.buffered?) :: (← bufferedEntries? rest)

end

end Reading

end PropertyTree
