import CrossTag.Yaml.Token

/-!
# Nodes of documents

The tokens of a document make up one node: a scalar, a sequence or a mapping. Where a value is
left out it is the empty plain scalar. A node may be given a name, an anchor, and later be
referred to by it.

The dialect is a small one: a text holds one document, and there are no directives.
-/

namespace CrossTag.Yaml

/-- A node of a document. -/
inductive Node
  | scalar (text : String) (plain tagged : Bool)
  | sequence (items : List Node)
  | mapping (pairs : List (Node × Node))
deriving Repr

/-- The node that is left out. -/
def Node.missing : Node :=
  .scalar "" true false

/-- The tokens that are still to be read, and the nodes with anchors so far. -/
structure Progress where
  tokens : List Token
  anchors : List (String × Node) := []

/-- A reader of nodes. -/
abbrev Builder := StateT Progress (Except Fault)

namespace Builder

/-- The next token. -/
def peek : Builder (Option Token) := do
  return (← get).tokens.head?

/-- Moves over the next token. -/
def advance : Builder Unit :=
  modify fun p => { p with tokens := p.tokens.drop 1 }

/-- Moves over the next token if it is the given one. -/
def accept (token : Token) : Builder Bool := do
  if (← peek) = some token then
    advance
    return true
  else return false

/-- True if the next token is one of those given, or there is none. -/
def atAny (tokens : List Token) : Builder Bool := do
  return (← peek).all tokens.contains

/-- Reads the anchor and the tag in front of a node, in either order: the anchor, and whether
there was a tag. -/
def properties : Builder (Option String × Bool) := do
  match ← peek with
  | some (.anchor name) =>
    advance
    return (some name, ← accept .tag)
  | some .tag =>
    advance
    match ← peek with
    | some (.anchor name) =>
      advance
      return (some name, true)
    | _ => return (none, true)
  | _ => return (none, false)

/-- Gives a node its anchor. -/
def define (anchor : Option String) (node : Node) : Builder Node := do
  match anchor with
  | some name =>
    modify fun p => { p with anchors := (name, node) :: p.anchors }
    return node
  | none => return node

mutual

/-- Reads a node. Blocks may be refused, and `loose` allows a sequence without a block of its
own, as the value of a key may be one. -/
def node : (fuel : Nat) → (block loose : Bool) → Builder Node
  | 0, _, _ => throw .tooDeep
  | fuel + 1, block, loose => do
    match ← peek with
    | some (.alias name) =>
      advance
      match (← get).anchors.lookup name with
      | some n => return n
      | none => throw (.unknownAnchor name)
    | _ =>
      let (anchor, tagged) ← properties
      match ← peek with
      | some (.scalar text plain) =>
        advance
        define anchor (.scalar text plain tagged)
      | some .flowSequence =>
        advance
        define anchor (.sequence (← flowItems fuel true))
      | some .flowMapping =>
        advance
        define anchor (.mapping (← flowPairs fuel true))
      | some .blockSequence =>
        if !block then throw .unbalanced
        advance
        define anchor (.sequence (← blockItems fuel))
      | some .blockMapping =>
        if !block then throw .unbalanced
        advance
        define anchor (.mapping (← blockPairs fuel))
      | some .item =>
        if loose then define anchor (.sequence (← looseItems fuel))
        else if anchor.isSome || tagged then define anchor (.scalar "" true tagged)
        else throw .unbalanced
      | _ =>
        if anchor.isSome || tagged then define anchor (.scalar "" true tagged)
        else throw .unbalanced

/-- Reads a node, unless one of the given tokens comes next. -/
def nodeUnless (tokens : List Token) : (fuel : Nat) → (block loose : Bool) → Builder Node
  | 0, _, _ => throw .tooDeep
  | fuel + 1, block, loose => do
    if ← atAny tokens then return .missing else node fuel block loose

/-- Reads the items of a block. -/
def blockItems : (fuel : Nat) → Builder (List Node)
  | 0 => throw .tooDeep
  | fuel + 1 => do
    if ← accept .item then
      let first ← nodeUnless [.item, .blockEnd] fuel true false
      return first :: (← blockItems fuel)
    else if ← accept .blockEnd then return []
    else throw .unbalanced

/-- Reads items as far as they go. -/
def looseItems : (fuel : Nat) → Builder (List Node)
  | 0 => throw .tooDeep
  | fuel + 1 => do
    if ← accept .item then
      let first ← nodeUnless [.item, .key, .value, .blockEnd] fuel true false
      return first :: (← looseItems fuel)
    else return []

/-- Reads the pairs of a block. -/
def blockPairs : (fuel : Nat) → Builder (List (Node × Node))
  | 0 => throw .tooDeep
  | fuel + 1 => do
    if ← accept .key then
      let key ← nodeUnless [.key, .value, .blockEnd] fuel true true
      let value ←
        if ← accept .value then nodeUnless [.key, .value, .blockEnd] fuel true true
        else pure .missing
      return (key, value) :: (← blockPairs fuel)
    else if ← accept .blockEnd then return []
    else throw .unbalanced

/-- Reads the items of a sequence in brackets. -/
def flowItems : (fuel : Nat) → (first : Bool) → Builder (List Node)
  | 0, _ => throw .tooDeep
  | fuel + 1, first => do
    if ← accept .flowSequenceEnd then return []
    if !first then
      if !(← accept .comma) then throw .unbalanced
    if ← accept .flowSequenceEnd then return []
    let item ←
      if ← accept .key then
        let key ← nodeUnless [.value, .comma, .flowSequenceEnd] fuel false false
        let value ←
          if ← accept .value then nodeUnless [.comma, .flowSequenceEnd] fuel false false
          else pure .missing
        pure (.mapping [(key, value)])
      else node fuel false false
    return item :: (← flowItems fuel false)

/-- Reads the pairs of a mapping in brackets. -/
def flowPairs : (fuel : Nat) → (first : Bool) → Builder (List (Node × Node))
  | 0, _ => throw .tooDeep
  | fuel + 1, first => do
    if ← accept .flowMappingEnd then return []
    if !first then
      if !(← accept .comma) then throw .unbalanced
    if ← accept .flowMappingEnd then return []
    let pair ←
      if ← accept .key then
        let key ← nodeUnless [.value, .comma, .flowMappingEnd] fuel false false
        let value ←
          if ← accept .value then nodeUnless [.comma, .flowMappingEnd] fuel false false
          else pure .missing
        pure (key, value)
      else
        pure (← node fuel false false, .missing)
    return pair :: (← flowPairs fuel false)

end

/-- Reads the one document of a text. -/
def document (fuel : Nat) : Builder Node := do
  let root ←
    if ← accept .documentStart then
      nodeUnless [.documentStart, .documentEnd] fuel true false
    else node fuel true false
  modify fun p => { p with tokens := p.tokens.dropWhile (· == .documentEnd) }
  match ← peek with
  | none => return root
  | some _ => throw .manyDocuments

end Builder

/-- The node of the one document in a text. -/
def parse (text : String) : Except Fault Node := do
  let tokens ← tokenize text.toList
  let (root, _) ← (Builder.document (3 * tokens.length + 3)).run { tokens := tokens }
  return root

end CrossTag.Yaml
