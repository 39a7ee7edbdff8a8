import PropertyTree.Yaml.Token.Scanner

/-!
# Anchors and aliases

Anchors are numbered in the order of the text, and `Token.bind?` puts numbers in the place of
names: on an anchor its own number, on an alias the number of the anchor it refers to.

Between name and anchor there is a slot: a name takes the slot whose index is the number of
different names before it.  A name that is used again takes a new slot in the same way, and then a
later name can come to the same slot.  An alias refers to the last anchor of the slot that its
name has there, wherever in the text that anchor stands.
-/

namespace PropertyTree

namespace Yaml

/-- The slots of the names met so far. -/
abbrev Slots := List (String × Nat)

/-- The slots after a name was used for an anchor. -/
def Slots.add (slots : Slots) (name : String) : Slots :=
  (name, slots.length) :: slots.filter (·.1 != name)

namespace Token

/-- The slots of the anchors of a text, in order. -/
def anchorSlots (slots : Slots) : List (Token String) → List Nat
  | [] => []
  | .anchor name :: rest => slots.length :: anchorSlots (slots.add name) rest
  | _ :: rest => anchorSlots slots rest

/-- The number of the last anchor of a slot. -/
def lastOf? (anchors : List Nat) (slot : Nat) : Option Nat :=
  (anchors.zipIdx.reverse.find? (·.1 == slot)).map Prod.snd

/-- Puts numbers in the place of names, given the slots of all anchors and the number of the next
one. -/
def bindFrom? (anchors : List Nat) (slots : Slots) (next : Nat) :
    List (Token String) → Option (List (Token Nat))
  | [] => some []
  | token :: rest => do
    let (token, slots, next) ← match token with
      | .anchor name => some (Token.anchor next, slots.add name, next + 1)
      | .alias name =>
        ((slots.lookup name).bind (lastOf? anchors)).map fun number =>
          (Token.alias number, slots, next)
      | .versionDirective major minor => some (.versionDirective major minor, slots, next)
      | .tagDirective handle start => some (.tagDirective handle start, slots, next)
      | .documentStart => some (.documentStart, slots, next)
      | .documentEnd => some (.documentEnd, slots, next)
      | .blockSequenceStart => some (.blockSequenceStart, slots, next)
      | .blockMapStart => some (.blockMapStart, slots, next)
      | .blockEnd => some (.blockEnd, slots, next)
      | .flowSequenceStart => some (.flowSequenceStart, slots, next)
      | .flowSequenceEnd => some (.flowSequenceEnd, slots, next)
      | .flowMapStart => some (.flowMapStart, slots, next)
      | .flowMapEnd => some (.flowMapEnd, slots, next)
      | .blockEntry => some (.blockEntry, slots, next)
      | .flowEntry => some (.flowEntry, slots, next)
      | .key => some (.key, slots, next)
      | .value => some (.value, slots, next)
      | .tag handle suffix => some (.tag handle suffix, slots, next)
      | .scalar text style => some (.scalar text style, slots, next)
    return token :: (← bindFrom? anchors slots next rest)

/-- Puts numbers in the place of names; an alias whose name no anchor has before it is a fault. -/
def bind? (tokens : List (Token String)) : Option (List (Token Nat)) :=
  bindFrom? (anchorSlots [] tokens) [] 0 tokens

end Token

end Yaml

end PropertyTree
