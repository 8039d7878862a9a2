import CrossTag.Text.Digits

/-!
# Scalars of documents

The texts in a document are written plainly or between single or double quotes, and may go on
over several lines. A line break inside such a text is folded: blanks around it are dropped, a
single break becomes a space, and of several breaks all but the first are kept. Between single
quotes a quote is written twice; between double quotes a backslash starts an escape, and one at
the end of a line joins the lines.

A plain text ends before a comment, before a colon that ends a key, before a line that is not
indented enough, and inside brackets also before a comma or a bracket.

Outside of brackets a text may also be written as a block of indented lines, which are kept as
they are or folded. What becomes of the line breaks at its end is said in front of the block.
-/

namespace CrossTag.Yaml

/-- Why a text is not a document. -/
inductive Fault
  /-- A character that must not stand in a document. -/
  | forbiddenChar (c : Char)
  /-- A quote that is never closed. -/
  | unterminated
  | badEscape
  /-- A document marker between quotes. -/
  | markerInQuotes
  /-- A tab where indentation is expected. -/
  | tab
  /-- A colon in brackets with no blank after it. -/
  | tightColon
  /-- A line that should be a key has no colon. -/
  | missingColon
  /-- An item, a key or a value where none can stand. -/
  | misplaced
  | badAnchor
  | badTag
  /-- A block scalar does not start as it should. -/
  | badBlock
  /-- A character that starts nothing. -/
  | strayChar (c : Char)
  /-- A reference to an anchor that is not there. -/
  | unknownAnchor (name : String)
  /-- The parts of the document do not fit together. -/
  | unbalanced
  | manyDocuments
  | tooDeep
  /-- A value of another kind was expected. -/
  | wrongKind (expected : String)
  | repeatedKey (key : String)
deriving DecidableEq, Repr

def Fault.message : Fault → String
  | forbiddenChar _ => "control characters are not allowed"
  | unterminated => "found unexpected end of stream"
  | badEscape => "found unknown escape character"
  | markerInQuotes => "found unexpected document indicator"
  | tab => "found a tab character that violates indentation"
  | tightColon => "found unexpected ':'"
  | missingColon => "could not find expected ':'"
  | misplaced => "values are not allowed in this context"
  | badAnchor => "did not find expected alphabetic or numeric character"
  | badTag => "did not find expected tag"
  | badBlock => "did not find expected comment or line break"
  | strayChar _ => "found character that cannot start any token"
  | unknownAnchor name => "unknown anchor " ++ name
  | unbalanced => "did not find expected node content"
  | manyDocuments => "more than one document"
  | tooDeep => "recursion limit exceeded"
  | wrongKind expected => "invalid type, expected " ++ expected
  | repeatedKey key => "duplicate field " ++ key

/-! ### Characters -/

/-- The characters that end a line, once line ends are written in one way. -/
def isBreak (c : Char) : Bool :=
  c == '\n' || c == '\u2028' || c == '\u2029'

/-- The characters that separate words on a line. -/
def isSpacing (c : Char) : Bool :=
  c == ' ' || c == '\t'

/-- True if a text is at an end of a word: at a blank, a line break or its own end. -/
def atGap : List Char → Bool
  | [] => true
  | c :: _ => isSpacing c || isBreak c

/-- True if a text starts with a marker between documents. -/
def atMarker : List Char → Bool
  | '-' :: '-' :: '-' :: cs => atGap cs
  | '.' :: '.' :: '.' :: cs => atGap cs
  | _ => false

/-! ### Folding -/

/-- Blanks and line breaks between two words of a text. -/
structure Gap where
  /-- The blanks, as long as there was no line break. -/
  spaces : List Char := []
  /-- True once there was a line break. -/
  broken : Bool := false
  /-- The first line break, unless it was escaped. -/
  first : List Char := []
  /-- All further line breaks. -/
  more : List Char := []
  /-- How many blanks followed the last line break. -/
  column : Nat := 0
deriving DecidableEq, Repr

namespace Gap

def addSpace (g : Gap) (c : Char) : Gap :=
  if g.broken then { g with column := g.column + 1 } else { g with spaces := g.spaces ++ [c] }

def addBreak (g : Gap) (c : Char) : Gap :=
  if g.broken then { g with more := g.more ++ [c], column := 0 }
  else { broken := true, first := [c] }

/-- The gap after an escaped line break. -/
def escaped : Gap :=
  { broken := true }

/-- What a gap stands for. -/
def folded (g : Gap) : List Char :=
  if g.broken then
    if g.first = ['\n'] then
      if g.more.isEmpty then [' '] else g.more
    else g.first ++ g.more
  else g.spaces

/-- True if the next character is the first of its line. -/
def atLineStart (g : Gap) : Bool :=
  g.broken && g.column == 0

end Gap

/-! ### Quoted texts -/

/-- The escapes of one letter. -/
def letterEscape? : Char → Option Char
  | '0' => some '\x00'
  | 'a' => some '\x07'
  | 'b' => some '\x08'
  | 't' => some '\t'
  | '\t' => some '\t'
  | 'n' => some '\n'
  | 'v' => some '\x0b'
  | 'f' => some '\x0c'
  | 'r' => some '\r'
  | 'e' => some '\x1b'
  | ' ' => some ' '
  | '"' => some '"'
  | '/' => some '/'
  | '\\' => some '\\'
  | 'N' => some '\u0085'
  | '_' => some '\u00a0'
  | 'L' => some '\u2028'
  | 'P' => some '\u2029'
  | _ => none

/-- The count of digits after a letter that starts a number. -/
def escapeWidth? : Char → Option Nat
  | 'x' => some 2
  | 'u' => some 4
  | 'U' => some 8
  | _ => none

/-- The character that digits at the front of a text stand for. -/
def readCode (width : Nat) (cs : List Char) : Except Fault Char :=
  let digits := cs.take width
  match Text.digitsValue? 16 Text.hexDigit? 0 digits with
  | some value =>
    if digits.length = width ∧ value.isValidChar then .ok (Char.ofNat value)
    else .error .badEscape
  | none => .error .badEscape

/-- Reads a text up to its closing quote: the text and what follows the quote. -/
def readQuoted (double : Bool) (gap : Gap) (cs : List Char) :
    Except Fault (List Char × List Char) :=
  match cs with
  | [] => .error .unterminated
  | c :: cs =>
    if isSpacing c then readQuoted double (gap.addSpace c) cs
    else if isBreak c then readQuoted double (gap.addBreak c) cs
    else if gap.atLineStart && atMarker (c :: cs) then .error .markerInQuotes
    else if double then
      if c = '"' then .ok (gap.folded, cs)
      else if c = '\\' then
        match cs with
        | [] => .error .unterminated
        | d :: cs =>
          if isBreak d then
            (readQuoted double .escaped cs).map fun (text, rest) => (gap.folded ++ text, rest)
          else
            match letterEscape? d with
            | some e =>
              (readQuoted double {} cs).map fun (text, rest) => (gap.folded ++ e :: text, rest)
            | none =>
              match escapeWidth? d with
              | none => .error .badEscape
              | some width =>
                match readCode width cs with
                | .error fault => .error fault
                | .ok e =>
                  (readQuoted double {} (cs.drop width)).map fun (text, rest) =>
                    (gap.folded ++ e :: text, rest)
      else (readQuoted double {} cs).map fun (text, rest) => (gap.folded ++ c :: text, rest)
    else if c = '\'' then
      match cs with
      | '\'' :: cs =>
        (readQuoted double {} cs).map fun (text, rest) => (gap.folded ++ c :: text, rest)
      | _ => .ok (gap.folded, cs)
    else (readQuoted double {} cs).map fun (text, rest) => (gap.folded ++ c :: text, rest)
termination_by cs.length
decreasing_by all_goals simp only [List.length_cons, List.length_drop]; omega

/-! ### Plain texts -/

/-- The characters that end a plain text inside brackets. -/
def isFlowMark (c : Char) : Bool :=
  c == ',' || c == '[' || c == ']' || c == '\x7b' || c == '\x7d'

/-- True if a plain text ends before a character that follows `gap`. -/
def endsPlain (flow : Bool) (indent : Nat) (gap : Gap) (c : Char) (cs : List Char) : Bool :=
  (gap.broken && !flow && gap.column < indent)
    || (gap.atLineStart && atMarker (c :: cs))
    || (gap != {} && c == '#')
    || (c == ':' && atGap cs)
    || (flow && isFlowMark c)

/-- Reads a plain text: the text, the gap after it and what follows the gap. Lines after the
first must have `indent` blanks in front, except inside brackets. -/
def readPlain (flow : Bool) (indent : Nat) :
    Gap → List Char → Except Fault (List Char × Gap × List Char)
  | gap, [] => .ok ([], gap, [])
  | gap, c :: cs =>
    if isSpacing c then
      if gap.broken && gap.column < indent && c == '\t' then .error .tab
      else readPlain flow indent (gap.addSpace c) cs
    else if isBreak c then readPlain flow indent (gap.addBreak c) cs
    else if flow && c == ':' && cs.head?.any (fun d => isFlowMark d || d == '?') then
      .error .tightColon
    else if endsPlain flow indent gap c cs then .ok ([], gap, c :: cs)
    else
      (readPlain flow indent {} cs).map fun (text, after, rest) =>
        (gap.folded ++ c :: text, after, rest)

/-! ### Blocks of lines -/

/-- A line and the line break after it, which the last line may lack. -/
structure Line where
  content : List Char
  ending : List Char
deriving DecidableEq, Repr

/-- The lines of a text. -/
def linesOf : List Char → List Line
  | [] => []
  | c :: cs =>
    if isBreak c then ⟨[], [c]⟩ :: linesOf cs
    else
      match linesOf cs with
      | [] => [⟨[c], []⟩]
      | line :: lines => { line with content := c :: line.content } :: lines

/-- The text of lines. -/
def joinLines (lines : List Line) : List Char :=
  lines.flatMap fun line => line.content ++ line.ending

/-- What becomes of the line breaks at the end of a block. -/
inductive Chomping
  | strip
  | clip
  | keep
deriving DecidableEq, Repr

/-- Reads what is said in front of a block: how it ends, and by how much it is indented. -/
def readBlockMarks (cs : List Char) : Except Fault (Chomping × Option Nat × List Char) :=
  match cs with
  | '+' :: cs => (readIndent cs).map fun (indent, rest) => (.keep, indent, rest)
  | '-' :: cs => (readIndent cs).map fun (indent, rest) => (.strip, indent, rest)
  | cs =>
    (readIndent cs).map fun (indent, rest) =>
      match rest with
      | c :: after =>
        if indent.isSome && c == '+' then (.keep, indent, after)
        else if indent.isSome && c == '-' then (.strip, indent, after)
        else (.clip, indent, c :: after)
      | [] => (.clip, indent, [])
where
  readIndent : List Char → Except Fault (Option Nat × List Char)
    | [] => .ok (none, [])
    | c :: cs =>
      if c = '0' then .error .badBlock
      else if c.isDigit then .ok (some (c.toNat - '0'.toNat), cs)
      else .ok (none, c :: cs)

/-- How many spaces a line starts with. -/
def Line.indent (line : Line) : Nat :=
  (line.content.takeWhile (· == ' ')).length

/-- True if there is nothing but spaces on a line. -/
def Line.isBlank (line : Line) : Bool :=
  line.content.all (· == ' ')

/-- The indentation of a block, if none is given: that of its first line with content, but not
less than that of a blank line before it, and at least `least`. -/
def blockIndent (least : Nat) (lines : List Line) : Nat :=
  let blank := lines.takeWhile Line.isBlank
  let first := (lines.drop blank.length).take 1
  (blank ++ first).foldl (fun indent line => max indent line.indent) (max least 1)

/-- The state of a block between two lines. -/
structure BlockGap where
  /-- The line break after the last line with content. -/
  first : List Char := []
  /-- The line breaks of the blank lines since then. -/
  more : List Char := []
  /-- True if the last line started with a blank. -/
  spaced : Bool := false

/-- What the breaks before a line stand for. -/
def BlockGap.folded (g : BlockGap) (literal spaced : Bool) : List Char :=
  if !literal && g.first == ['\n'] && !g.spaced && !spaced then
    (if g.more.isEmpty then [' '] else []) ++ g.more
  else g.first ++ g.more

/-- What the breaks at the end of a block stand for. -/
def BlockGap.chomped (g : BlockGap) : Chomping → List Char
  | .strip => []
  | .clip => g.first
  | .keep => g.first ++ g.more

/-- Reads the lines of a block: its text and the lines after it. -/
def readBlockLines (literal : Bool) (chomping : Chomping) (indent : Nat) :
    BlockGap → List Line → Except Fault (List Char × List Line)
  | gap, [] => .ok (gap.chomped chomping, [])
  | gap, line :: lines =>
    let content := line.content.drop indent
    if line.isBlank && content.isEmpty then
      if line.ending.isEmpty then .ok (gap.chomped chomping, line :: lines)
      else
        readBlockLines literal chomping indent { gap with more := gap.more ++ line.ending } lines
    else if line.indent < indent then
      if (line.content.drop line.indent).head? == some '\t' then .error .tab
      else .ok (gap.chomped chomping, line :: lines)
    else
      let spaced := content.head?.any isSpacing
      (readBlockLines literal chomping indent { first := line.ending, spaced := spaced } lines).map
        fun (text, rest) => (gap.folded literal spaced ++ content ++ text, rest)

/-- Reads a block after the mark that starts it. `outer` is the indentation of what is around
it. -/
def readBlock (literal : Bool) (outer : Option Nat) (cs : List Char) :
    Except Fault (List Char × List Char) := do
  let (chomping, given, cs) ← readBlockMarks cs
  let cs := cs.dropWhile isSpacing
  let cs := if cs.head? = some '#' then cs.dropWhile (!isBreak ·) else cs
  if !cs.head?.all isBreak then throw .badBlock
  let lines := linesOf (cs.drop 1)
  let indent :=
    match given with
    | some n => (outer.getD 0) + n
    | none => blockIndent ((outer.map (· + 1)).getD 0) lines
  let (text, rest) ← readBlockLines literal chomping indent {} lines
  return (text, joinLines rest)

end CrossTag.Yaml
