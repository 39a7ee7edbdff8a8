import PropertyTree.Yaml.Token.Anchor

/-!
# Nodes of a YAML text

`Node.ofText?` reads the one document of a text as a `Node`: a scalar, a sequence, a map or an
alias, with the anchor and the tag that stand in front of it; an alias names the anchor it refers
to by its number.  A node that is left out, such as the value of a key with nothing behind the
colon, is an empty plain scalar.

The functions here follow the grammar on the tokens of the text; each returns what it read with the
tokens after it.
-/

namespace PropertyTree

namespace Yaml

/-- What can stand in front of a node. -/
structure Properties where
  anchor : Option Nat
  /-- The whole tag. -/
  tag : Option String
deriving Repr

/-- A node without properties. -/
def Properties.none : Properties := ⟨.none, .none⟩

/-- A node with its anchors and aliases. -/
inductive Node where
  | alias (target : Nat)
  | scalar (properties : Properties) (text : String) (style : ScalarStyle)
  | seq (properties : Properties) (items : List Node)
  | map (properties : Properties) (entries : List (Node × Node))
deriving Repr, Inhabited

/-- The node that stands for one that is left out. -/
def Node.empty (properties : Properties) : Node :=
  .scalar properties "" .plain

/-- What the handles of tags stand for. -/
abbrev TagRules := List (String × String)

/-- The handles that need no directive. -/
def TagRules.standard : TagRules := [("!", "!"), ("!!", "tag:yaml.org,2002:")]

/-- The whole tag of a handle and a suffix; a tag without a handle is whole. -/
def TagRules.expand? (rules : TagRules) (handle suffix : String) : Option String :=
  if handle.isEmpty then some suffix else (rules.lookup handle).map (· ++ suffix)

/-- Reads the properties in front of a node: an anchor and a tag, in either order. -/
def properties? (rules : TagRules) : List (Token Nat) → Option (Properties × List (Token Nat))
  | .anchor name :: .tag handle suffix :: rest | .tag handle suffix :: .anchor name :: rest =>
    (rules.expand? handle suffix).map fun tag => (⟨some name, some tag⟩, rest)
  | .anchor name :: rest => some (⟨some name, none⟩, rest)
  | .tag handle suffix :: rest =>
    (rules.expand? handle suffix).map fun tag => (⟨none, some tag⟩, rest)
  | rest => some (.none, rest)

/-! ## Where a node is left out -/

/-- Whether no node comes in front of what follows a hyphen. -/
def endsItem : List (Token Nat) → Bool
  | .blockEntry :: _ | .blockEnd :: _ => true
  | _ => false

/-- Whether no node comes in front of what follows a hyphen that is not indented. -/
def endsFlushItem : List (Token Nat) → Bool
  | .blockEntry :: _ | .key :: _ | .value :: _ | .blockEnd :: _ => true
  | _ => false

/-- Whether no node comes in front of what follows a key or a colon of a block map. -/
def endsEntry : List (Token Nat) → Bool
  | .key :: _ | .value :: _ | .blockEnd :: _ => true
  | _ => false

/-- Whether no node comes in front of what follows a question mark in a flow collection. -/
def endsFlowKey : List (Token Nat) → Bool
  | .value :: _ | .flowEntry :: _ | .flowSequenceEnd :: _ => true
  | _ => false

/-- Whether no node comes in front of what follows a colon in a flow collection. -/
def endsFlowValue : List (Token Nat) → Bool
  | .flowEntry :: _ | .flowSequenceEnd :: _ => true
  | _ => false

/-- Whether no node comes in front of what follows a question mark in a flow map. -/
def endsMapKey : List (Token Nat) → Bool
  | .value :: _ | .flowEntry :: _ | .flowMapEnd :: _ => true
  | _ => false

/-- Whether no node comes in front of what follows a colon in a flow map. -/
def endsMapValue : List (Token Nat) → Bool
  | .flowEntry :: _ | .flowMapEnd :: _ => true
  | _ => false

/-! ## The grammar -/

/-- Where a node stands, which decides the collections it can be. -/
inductive Place where
  /-- In a flow collection. -/
  | flow
  /-- In a block collection. -/
  | block
  /-- In a block map, where a sequence need not be indented. -/
  | entry
deriving DecidableEq

mutual

/-- Reads a node. -/
def node? (rules : TagRules) : Nat → Place → List (Token Nat) → Option (Node × List (Token Nat))
  | 0, _, _ => none
  | _ + 1, _, .alias target :: rest => some (.alias target, rest)
  | fuel + 1, place, tokens => do
    let (properties, tokens) ← properties? rules tokens
    let isMarked := properties.anchor.isSome || properties.tag.isSome
    match tokens with
    | .blockEntry :: _ =>
      if place = .entry then
        let (items, rest) ← flushItems? rules fuel tokens
        return (.seq properties items, rest)
      else if isMarked then return (.empty properties, tokens)
      else none
    | .scalar text style :: rest => return (.scalar properties text style, rest)
    | .flowSequenceStart :: rest =>
      let (items, rest) ← flowItems? rules fuel true rest
      return (.seq properties items, rest)
    | .flowMapStart :: rest =>
      let (entries, rest) ← flowEntries? rules fuel true rest
      return (.map properties entries, rest)
    | .blockSequenceStart :: rest =>
      if place ≠ .flow then
        let (items, rest) ← blockItems? rules fuel rest
        return (.seq properties items, rest)
      else if isMarked then return (.empty properties, tokens)
      else none
    | .blockMapStart :: rest =>
      if place ≠ .flow then
        let (entries, rest) ← blockEntries? rules fuel rest
        return (.map properties entries, rest)
      else if isMarked then return (.empty properties, tokens)
      else none
    | _ => if isMarked then return (.empty properties, tokens) else none

/-- Reads a node, unless it is left out. -/
def nodeUnless? (rules : TagRules) :
    Nat → Bool → Place → List (Token Nat) → Option (Node × List (Token Nat))
  | 0, _, _, _ => none
  | fuel + 1, isLeftOut, place, tokens =>
    if isLeftOut then some (.empty .none, tokens) else node? rules fuel place tokens

/-- Reads the items of a block sequence up to its end. -/
def blockItems? (rules : TagRules) : Nat → List (Token Nat) → Option (List Node × List (Token Nat))
  | 0, _ => none
  | fuel + 1, tokens =>
    match tokens with
    | .blockEntry :: rest => do
      let (item, rest) ← nodeUnless? rules fuel (endsItem rest) .block rest
      let (items, rest) ← blockItems? rules fuel rest
      return (item :: items, rest)
    | .blockEnd :: rest => some ([], rest)
    | _ => none

/-- Reads the items of a sequence in a block map that is not indented. -/
def flushItems? (rules : TagRules) : Nat → List (Token Nat) → Option (List Node × List (Token Nat))
  | 0, _ => none
  | fuel + 1, tokens =>
    match tokens with
    | .blockEntry :: rest => do
      let (item, rest) ← nodeUnless? rules fuel (endsFlushItem rest) .block rest
      let (items, rest) ← flushItems? rules fuel rest
      return (item :: items, rest)
    | _ => some ([], tokens)

/-- Reads the entries of a block map up to its end. -/
def blockEntries? (rules : TagRules) :
    Nat → List (Token Nat) → Option (List (Node × Node) × List (Token Nat))
  | 0, _ => none
  | fuel + 1, tokens =>
    match tokens with
    | .key :: rest => do
      let (key, rest) ← nodeUnless? rules fuel (endsEntry rest) .entry rest
      let (value, rest) ← blockValue? rules fuel rest
      let (entries, rest) ← blockEntries? rules fuel rest
      return ((key, value) :: entries, rest)
    | .blockEnd :: rest => some ([], rest)
    | _ => none

/-- Reads the value of an entry of a block map. -/
def blockValue? (rules : TagRules) : Nat → List (Token Nat) → Option (Node × List (Token Nat))
  | 0, _ => none
  | fuel + 1, tokens =>
    match tokens with
    | .value :: rest => nodeUnless? rules fuel (endsEntry rest) .entry rest
    | _ => some (.empty .none, tokens)

/-- Reads the items of a flow sequence up to its end; all but the first come after a comma. -/
def flowItems? (rules : TagRules) :
    Nat → Bool → List (Token Nat) → Option (List Node × List (Token Nat))
  | 0, _, _ => none
  | fuel + 1, isFirst, tokens =>
    match tokens with
    | .flowSequenceEnd :: rest => some ([], rest)
    | .flowEntry :: rest =>
      if isFirst then none
      else
        match rest with
        | .flowSequenceEnd :: rest => some ([], rest)
        | rest => flowItem? rules fuel rest
    | rest => if isFirst then flowItem? rules fuel rest else none

/-- Reads an item of a flow sequence and the ones after it.  An item with a question mark or a colon
is a map with one entry. -/
def flowItem? (rules : TagRules) : Nat → List (Token Nat) → Option (List Node × List (Token Nat))
  | 0, _ => none
  | fuel + 1, tokens =>
    match tokens with
    | .key :: rest => do
      let (key, rest) ←
        if endsFlowKey rest then some (.empty .none, rest.drop 1) else node? rules fuel .flow rest
      let (value, rest) ← match rest with
        | .value :: rest => nodeUnless? rules fuel (endsFlowValue rest) .flow rest
        | rest => some (.empty .none, rest)
      let (items, rest) ← flowItems? rules fuel false rest
      return (.map .none [(key, value)] :: items, rest)
    | _ => do
      let (item, rest) ← node? rules fuel .flow tokens
      let (items, rest) ← flowItems? rules fuel false rest
      return (item :: items, rest)

/-- Reads the entries of a flow map up to its end; all but the first come after a comma. -/
def flowEntries? (rules : TagRules) :
    Nat → Bool → List (Token Nat) → Option (List (Node × Node) × List (Token Nat))
  | 0, _, _ => none
  | fuel + 1, isFirst, tokens =>
    match tokens with
    | .flowMapEnd :: rest => some ([], rest)
    | .flowEntry :: rest =>
      if isFirst then none
      else
        match rest with
        | .flowMapEnd :: rest => some ([], rest)
        | rest => flowEntryOf? rules fuel rest
    | rest => if isFirst then flowEntryOf? rules fuel rest else none

/-- Reads an entry of a flow map and the ones after it.  A node without a colon is a key. -/
def flowEntryOf? (rules : TagRules) :
    Nat → List (Token Nat) → Option (List (Node × Node) × List (Token Nat))
  | 0, _ => none
  | fuel + 1, tokens => do
    let (key, rest) ← match tokens with
      | .key :: rest => nodeUnless? rules fuel (endsMapKey rest) .flow rest
      | _ => node? rules fuel .flow tokens
    let (value, rest) ← match tokens, rest with
      | .key :: _, .value :: rest => nodeUnless? rules fuel (endsMapValue rest) .flow rest
      | _, rest => some (.empty .none, rest)
    let (entries, rest) ← flowEntries? rules fuel false rest
    return ((key, value) :: entries, rest)

end

/-! ## Documents -/

/-- Reads the directives in front of a document: at most one version, and each handle at most
once. -/
def directives? : Bool → TagRules → List (Token Nat) → Option (TagRules × List (Token Nat))
  | hasVersion, rules, .versionDirective major minor :: rest =>
    if hasVersion || major ≠ 1 || (minor ≠ 1 && minor ≠ 2) then none
    else directives? true rules rest
  | hasVersion, rules, .tagDirective handle start :: rest =>
    if (rules.lookup handle).isSome then none
    else directives? hasVersion (rules ++ [(handle, start)]) rest
  | _, rules, rest => some (rules ++ TagRules.standard, rest)

/-- Whether a document without a node ends here. -/
def endsDocument : List (Token Nat) → Bool
  | [] => true
  | .documentStart :: _ | .documentEnd :: _ | .versionDirective .. :: _ | .tagDirective .. :: _ =>
    true
  | _ => false

/-- Reads the one document of the tokens; `some none` if there is none. -/
def Node.ofTokens? (tokens : List (Token Nat)) : Option (Option Node) :=
  let fuel := 4 * tokens.length + 4
  let isEnd (rest : List (Token Nat)) : Bool := rest.all (· == .documentEnd)
  match tokens with
  | [] => some none
  | .documentStart :: _ | .versionDirective .. :: _ | .tagDirective .. :: _ => do
    let (rules, rest) ← directives? false [] tokens
    match rest with
    | .documentStart :: rest =>
      let (node, rest) ← nodeUnless? rules fuel (endsDocument rest) .block rest
      if isEnd rest then return some node else none
    | _ => none
  | _ => do
    let (node, rest) ← node? .standard fuel .block tokens
    if isEnd rest then return some node else none

/-- Reads the one document of a text. -/
def Node.ofText? (text : String) : Option (Option Node) :=
  ((Token.ofText? text).bind Token.bind?).bind Node.ofTokens?

end Yaml

end PropertyTree
