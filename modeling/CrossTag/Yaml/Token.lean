import CrossTag.Yaml.Scalar

/-!
# Tokens of documents

A document is read from left to right into tokens. Indentation becomes tokens too: a line that
is indented more than the block around it opens a block, and a line that is indented less closes
those that it leaves. Inside brackets indentation does not count.

Whether a text is a key shows only at the colon behind it. Until then its place is remembered,
and the colon puts the tokens for a key in front of it. A place is given up at the end of its
line, or after 1024 characters; a text that begins a line of a block must turn out to be a key.
-/

namespace CrossTag.Yaml

/-- A token of a document. -/
inductive Token
  | documentStart
  | documentEnd
  | blockSequence
  | blockMapping
  | blockEnd
  | flowSequence
  | flowSequenceEnd
  | flowMapping
  | flowMappingEnd
  /-- The dash in front of an item. -/
  | item
  | comma
  | key
  | value
  | alias (name : String)
  | anchor (name : String)
  | tag
  | scalar (text : String) (plain : Bool)
deriving DecidableEq, Repr

/-- A place where a key may have begun. -/
structure PendingKey where
  /-- The number of tokens before it. -/
  number : Nat
  index : Nat
  line : Nat
  column : Nat
  /-- True if there must be a key. -/
  required : Bool
deriving DecidableEq, Repr

/-- How far the tokens of a text have been read. -/
structure Scanner where
  rest : List Char
  index : Nat := 0
  line : Nat := 0
  column : Nat := 0
  /-- The columns of the open blocks, innermost first. -/
  indents : List Nat := []
  /-- The pending key outside of brackets and of every open bracket, innermost first. -/
  pending : List (Option PendingKey) := [none]
  /-- True if a key may begin here. -/
  keyAllowed : Bool := true
  tokens : List Token := []
deriving DecidableEq, Repr

namespace Scanner

/-- True inside brackets. -/
def inFlow (s : Scanner) : Bool :=
  1 < s.pending.length

/-! ### Moving on -/

/-- Moves over one character. -/
def move (s : Scanner) (c : Char) : Scanner :=
  if isBreak c then { s with index := s.index + 1, line := s.line + 1, column := 0 }
  else { s with index := s.index + 1, column := s.column + 1 }

/-- Moves on to a later place in the text. -/
def moveTo (s : Scanner) (rest : List Char) : Scanner :=
  { (s.rest.take (s.rest.length - rest.length)).foldl move s with rest := rest }

/-- What follows blanks and comments, and whether a key may begin there. -/
def skipGap (flow : Bool) : (comment allowed : Bool) → List Char → List Char × Bool
  | _, allowed, [] => ([], allowed)
  | comment, allowed, c :: cs =>
    if isBreak c then skipGap flow false (allowed || !flow) cs
    else if comment then skipGap flow true allowed cs
    else if c = ' ' then skipGap flow false allowed cs
    else if c = '\t' ∧ (flow ∨ !allowed) then skipGap flow false allowed cs
    else if c = '#' then skipGap flow true allowed cs
    else (c :: cs, allowed)

/-- Moves on to the next token. -/
def skip (s : Scanner) : Scanner :=
  let (rest, allowed) := skipGap s.inFlow false s.keyAllowed s.rest
  { s.moveTo rest with keyAllowed := allowed }

/-! ### Emitting tokens -/

/-- Adds a token at the end. -/
def emit (s : Scanner) (token : Token) : Scanner :=
  { s with tokens := s.tokens ++ [token] }

/-- Puts a token behind the first `n` tokens. -/
def insert (s : Scanner) (n : Nat) (token : Token) : Scanner :=
  { s with tokens := s.tokens.take n ++ token :: s.tokens.drop n }

/-- Adds a token and moves over the characters it takes up. -/
def take (s : Scanner) (width : Nat) (token : Token) : Scanner :=
  (s.emit token).moveTo (s.rest.drop width)

/-- Closes the blocks for which the given condition on their column holds, innermost first. -/
def closeWhile (s : Scanner) (closes : Nat → Bool) : Scanner :=
  if s.inFlow then s
  else
    let closed := s.indents.takeWhile closes
    { s with
      indents := s.indents.dropWhile closes
      tokens := s.tokens ++ List.replicate closed.length .blockEnd }

/-- Closes the blocks that a column leaves. -/
def closeAbove (s : Scanner) (column : Nat) : Scanner :=
  s.closeWhile (column < ·)

/-- Closes all blocks. -/
def closeAll (s : Scanner) : Scanner :=
  s.closeWhile fun _ => true

/-- Opens a block at a column that is deeper than the open blocks; its token goes behind the
first `n` tokens. -/
def openBlock (s : Scanner) (column n : Nat) (token : Token) : Scanner :=
  if !s.inFlow && s.indents.head?.all (· < column) then
    { s.insert n token with indents := column :: s.indents }
  else s

/-! ### Pending keys -/

/-- Gives up a pending key. -/
def dropKey (key : Option PendingKey) : Except Fault (Option PendingKey) :=
  if key.any (·.required) then .error .missingColon else .ok none

/-- Gives up the pending keys that lie too far back. -/
def dropStale (s : Scanner) : Except Fault Scanner := do
  let pending ← s.pending.mapM fun key =>
    if key.any fun k => k.line < s.line || k.index + 1024 < s.index then dropKey key
    else pure key
  return { s with pending := pending }

/-- Gives up the innermost pending key. -/
def forgetKey (s : Scanner) : Except Fault Scanner := do
  match s.pending with
  | [] => return s
  | key :: outer => return { s with pending := (← dropKey key) :: outer }

/-- Remembers that a key may begin here. -/
def rememberKey (s : Scanner) : Except Fault Scanner := do
  if s.keyAllowed then
    let s ← s.forgetKey
    let key : PendingKey :=
      { number := s.tokens.length
        index := s.index
        line := s.line
        column := s.column
        required := !s.inFlow && s.indents.head? == some s.column }
    return { s with pending := some key :: s.pending.drop 1 }
  else return s

/-! ### The kinds of tokens -/

/-- A marker between documents. -/
def takeMarker (s : Scanner) (token : Token) : Except Fault Scanner := do
  let s ← s.closeAll.forgetKey
  return { s.take 3 token with keyAllowed := false }

/-- An opening bracket. -/
def takeOpening (s : Scanner) (token : Token) : Except Fault Scanner := do
  let s ← s.rememberKey
  return { s.take 1 token with pending := none :: s.pending, keyAllowed := true }

/-- A closing bracket. -/
def takeClosing (s : Scanner) (token : Token) : Except Fault Scanner := do
  let s ← s.forgetKey
  let outer := if s.inFlow then s.pending.drop 1 else s.pending
  return { s.take 1 token with pending := outer, keyAllowed := false }

/-- A comma. -/
def takeComma (s : Scanner) : Except Fault Scanner := do
  let s ← s.forgetKey
  return { s.take 1 .comma with keyAllowed := true }

/-- A dash or question mark that opens an item or a key of a block. -/
def takeMark (s : Scanner) (block token : Token) : Except Fault Scanner := do
  if !s.inFlow && !s.keyAllowed then throw .misplaced
  let s ← (s.openBlock s.column s.tokens.length block).forgetKey
  return { s.take 1 token with keyAllowed := token == .item || !s.inFlow }

/-- A colon: what is pending becomes a key. -/
def takeColon (s : Scanner) : Except Fault Scanner := do
  match s.pending with
  | some key :: outer =>
    let s := (s.insert key.number .key).openBlock key.column key.number .blockMapping
    return { s.take 1 .value with pending := none :: outer, keyAllowed := false }
  | _ =>
    if !s.inFlow && !s.keyAllowed then throw .misplaced
    let s := s.openBlock s.column s.tokens.length .blockMapping
    return { s.take 1 .value with keyAllowed := !s.inFlow }

/-- The characters of anchors. -/
def isAnchorChar (c : Char) : Bool :=
  c.isAlphanum || c == '_' || c == '-'

/-- An anchor or a reference to one. -/
def takeAnchor (s : Scanner) (token : String → Token) : Except Fault Scanner := do
  let s ← s.rememberKey
  let name := (s.rest.drop 1).takeWhile isAnchorChar
  let rest := (s.rest.drop 1).dropWhile isAnchorChar
  if name.isEmpty || !(atGap rest || rest.head?.any "?:,]\x7d%@`".toList.contains) then
    throw .badAnchor
  return { (s.emit (token (String.ofList name))).moveTo rest with keyAllowed := false }

/-- The characters of tags. -/
def isTagChar (c : Char) : Bool :=
  isAnchorChar c || ";/?:@&=+$.!~*'()%".toList.contains c

/-- What follows the tag at the front of a text, after its exclamation mark. -/
def afterTag (cs : List Char) : Except Fault (List Char) :=
  match cs with
  | '<' :: cs =>
    let name := cs.takeWhile fun c => isTagChar c || isFlowMark c
    match cs.drop name.length with
    | '>' :: rest => if name.isEmpty then .error .badTag else .ok rest
    | _ => .error .badTag
  | cs =>
    let handle := cs.takeWhile isAnchorChar
    match cs.drop handle.length with
    | '!' :: rest =>
      let suffix := rest.takeWhile isTagChar
      if handle.isEmpty && !suffix.isEmpty then .ok (rest.drop suffix.length) else .error .badTag
    | _ => .ok (cs.dropWhile isTagChar)

/-- A tag. -/
def takeTag (s : Scanner) : Except Fault Scanner := do
  let s ← s.rememberKey
  let rest ← afterTag (s.rest.drop 1)
  if !(atGap rest || (s.inFlow && rest.head? == some ',')) then throw .badTag
  return { (s.emit .tag).moveTo rest with keyAllowed := false }

/-- A text between quotes. -/
def takeQuoted (s : Scanner) (double : Bool) : Except Fault Scanner := do
  let s ← s.rememberKey
  let (text, rest) ← readQuoted double {} (s.rest.drop 1)
  return { (s.emit (.scalar (String.ofList text) false)).moveTo rest with keyAllowed := false }

/-- A plain text. -/
def takePlain (s : Scanner) : Except Fault Scanner := do
  let s ← s.rememberKey
  let indent := (s.indents.head?.map (· + 1)).getD 0
  let (text, gap, rest) ← readPlain s.inFlow indent {} s.rest
  return { (s.emit (.scalar (String.ofList text) true)).moveTo rest with keyAllowed := gap.broken }

/-- A block of lines. -/
def takeBlock (s : Scanner) (literal : Bool) : Except Fault Scanner := do
  let s ← s.forgetKey
  let (text, rest) ← readBlock literal s.indents.head? (s.rest.drop 1)
  return { (s.emit (.scalar (String.ofList text) false)).moveTo rest with keyAllowed := true }

/-- The characters that have a meaning of their own at the start of a token. -/
def indicators : List Char :=
  "-?:,[]\x7b\x7d#&*!|>'\"%@`".toList

/-- True if a plain text can start with a character. -/
def startsPlain (flow : Bool) (c : Char) (cs : List Char) : Bool :=
  (!isSpacing c && !isBreak c && !indicators.contains c)
    || (c == '-' && !cs.head?.any isSpacing)
    || (!flow && (c == '?' || c == ':') && !atGap cs)

/-- Reads the token that starts with `c`. -/
def takeToken (s : Scanner) (c : Char) (cs : List Char) : Except Fault Scanner :=
  if s.column = 0 ∧ atMarker (c :: cs) then
    s.takeMarker (if c = '-' then .documentStart else .documentEnd)
  else if c = '[' then s.takeOpening .flowSequence
  else if c = '\x7b' then s.takeOpening .flowMapping
  else if c = ']' then s.takeClosing .flowSequenceEnd
  else if c = '\x7d' then s.takeClosing .flowMappingEnd
  else if c = ',' then s.takeComma
  else if c = '-' ∧ atGap cs then s.takeMark .blockSequence .item
  else if c = '?' ∧ (s.inFlow ∨ atGap cs) then s.takeMark .blockMapping .key
  else if c = ':' ∧ (s.inFlow ∨ atGap cs) then s.takeColon
  else if c = '*' then s.takeAnchor .alias
  else if c = '&' then s.takeAnchor .anchor
  else if c = '!' then s.takeTag
  else if c = '|' ∧ !s.inFlow then s.takeBlock true
  else if c = '>' ∧ !s.inFlow then s.takeBlock false
  else if c = '\'' then s.takeQuoted false
  else if c = '"' then s.takeQuoted true
  else if startsPlain s.inFlow c cs then s.takePlain
  else .error (.strayChar c)

/-- Reads tokens to the end of the text, given more steps than there are characters left. -/
def run : (steps : Nat) → Scanner → Except Fault (List Token)
  | 0, _ => .error .tooDeep
  | steps + 1, s => do
    let s ← s.skip.dropStale
    let s := s.closeAbove s.column
    match s.rest with
    | [] =>
      let s ← s.closeAll.forgetKey
      return s.tokens
    | c :: cs => run steps (← s.takeToken c cs)

end Scanner

/-! ### Texts -/

/-- Writes every line end but the rare ones as a line feed. -/
def unifyBreaks : List Char → List Char
  | '\r' :: '\n' :: cs => '\n' :: unifyBreaks cs
  | '\r' :: cs => '\n' :: unifyBreaks cs
  | '\u0085' :: cs => '\n' :: unifyBreaks cs
  | c :: cs => c :: unifyBreaks cs
  | [] => []

/-- True for the characters that may stand in a document. -/
def isAllowed (c : Char) : Bool :=
  c == '\t' || c == '\n' || c == '\r' || c == '\u0085'
    || (' ' ≤ c && c ≤ '~') || ('\u00a0' ≤ c && c ≤ '\ufffd') || '\uffff' < c

/-- The tokens of a text. -/
def tokenize (text : List Char) : Except Fault (List Token) :=
  match text.find? (!isAllowed ·) with
  | some c => .error (.forbiddenChar c)
  | none =>
    let text := unifyBreaks (if text.head? = some '\uFEFF' then text.drop 1 else text)
    Scanner.run (text.length + 1) { rest := text }

end CrossTag.Yaml
