import CrossTag.Pattern.Regex.Basic
import CrossTag.Pattern.Regex.Class
import CrossTag.Text.Cut

/-!
# Reading regular expressions

The written form of regular expressions: characters stand for themselves, `.` for any
character but a line feed, brackets for classes with nesting and set operations, `^` and `$`
for the ends of the text, `|` for choice and `*`, `+`, `?` and braces for repetition.
Parentheses group; `(?flags)` changes the flags up to the end of the group and
`(?flags:...)` inside the group only. There is no look-around and there are no references
to groups: both are refused.

Reading goes through the text once. Every step takes at least one character, so the length
of the text bounds the number of steps, and twice that bound is the fuel of the recursion.
-/

namespace CrossTag.Regex

/-- Why a text is not a regular expression. -/
inductive Fault
  | unclosedGroup
  | unopenedGroup
  | lookAround
  | backReference
  | badGroupName
  | duplicateGroupName
  | badFlags
  | nothingToRepeat
  | badCount
  | badEscape
  | badCodePoint
  | unknownProperty
  | unclosedClass
  | badClassItem
  | badClassRange
  | tooDeep
  /-- The expression can match part of a character. -/
  | notText
  /-- The expression is well-formed, but too large. -/
  | tooBig
deriving DecidableEq, Repr

/-- The most memory a compiled expression may take, in bytes. -/
def sizeLimit : Nat := 10485760

/-- How deeply groups, repetitions and classes may be nested. -/
def depthLimit : Nat := 250

def Fault.description : Fault → String
  | unclosedGroup => "unclosed group"
  | unopenedGroup => "unopened group"
  | lookAround => "look-around, including look-ahead and look-behind, is not supported"
  | backReference => "backreferences are not supported"
  | badGroupName => "invalid capture group name"
  | duplicateGroupName => "duplicate capture group name"
  | badFlags => "invalid flags"
  | nothingToRepeat => "repetition operator missing expression"
  | badCount => "invalid repetition count"
  | badEscape => "unrecognized escape sequence"
  | badCodePoint => "invalid Unicode scalar value"
  | unknownProperty => "Unicode property not found"
  | unclosedClass => "unclosed character class"
  | badClassItem => "invalid escape sequence found in character class"
  | badClassRange => "invalid character class range"
  | tooDeep => "exceeds the maximum nesting depth"
  | notText => "pattern can match invalid UTF-8"
  | tooBig => "too big"

def Fault.message : Fault → String
  | tooBig => "Compiled regex exceeds size limit of " ++ toString sizeLimit ++ " bytes."
  | fault => "regex parse error: " ++ fault.description

/-- The flags in force at some point of the text. -/
structure Flags where
  ignoreCase : Bool := false
  multiLine : Bool := false
  dotAll : Bool := false
  unicode : Bool := true
  verbose : Bool := false
  crlf : Bool := false
deriving DecidableEq, Repr

/-- What is left to read, and the names of the groups so far. -/
structure Reading where
  rest : List Char
  names : List (List Char) := []

abbrev Reader := StateT Reading (Except Fault)

/-- A part of an expression that has been read, with its nesting depth and an estimate of its
compiled size in states. Flags alone are a part that cannot be repeated. -/
structure Part where
  regex : Regex
  depth : Nat := 0
  size : Nat := 1
  repeatable : Bool := true

/-! ### Characters -/

def peek? : Reader (Option Char) := do
  return (← get).rest.head?

/-- Drops `n` characters. -/
def skip (n : Nat) : Reader Unit :=
  modify fun s => { s with rest := s.rest.drop n }

/-- Drops blanks and comments if the flags say that they do not count. -/
def dropSpace : List Char → List Char
  | [] => []
  | c :: cs =>
    if Text.isBlank c then dropSpace cs
    else if c = '#' then dropComment cs
    else c :: cs
where
  dropComment : List Char → List Char
    | [] => []
    | c :: cs => if c = '\n' then dropSpace cs else dropComment cs

def skipSpace (flags : Flags) : Reader Unit := do
  if flags.verbose then modify fun s => { s with rest := dropSpace s.rest }

/-- The next character, with spaces before it dropped if they do not count. -/
def peekSpace? (flags : Flags) : Reader (Option Char) := do
  skipSpace flags
  peek?

def hexValue? (c : Char) : Option Nat :=
  if c.isDigit then some (c.toNat - '0'.toNat)
  else if 'a' ≤ c ∧ c ≤ 'f' then some (c.toNat - 'a'.toNat + 10)
  else if 'A' ≤ c ∧ c ≤ 'F' then some (c.toNat - 'A'.toNat + 10)
  else none

/-- The value of hexadecimal digits. -/
def hexNumber? (cs : List Char) : Option Nat :=
  cs.foldlM (fun n c => (hexValue? c).map (n * 16 + ·)) 0

/-- The character with a given number, if there is one. -/
def charOfNat? (n : Nat) : Option Char :=
  if n.isValidChar then some (Char.ofNat n) else none

/-! ### Escapes -/

/-- What an escape stands for. -/
inductive Escaped
  | char (c : Char)
  | set (s : Class)
  | look (holds : Option Char → Option Char → Bool)

/-- The characters with a meaning of their own, which a backslash takes away. -/
def isMeta (c : Char) : Bool :=
  "\\.+*?()|[]\x7b\x7d^$#&-~".toList.contains c

/-- ASCII characters that may be escaped although they have no meaning of their own. -/
def isEscapable (c : Char) : Bool :=
  isMeta c || (c.toNat < 128 && !c.isAlphanum && c != '<' && c != '>')

/-- `x`, `u` and `U` escapes: two, four or eight digits, or any number of them in braces. -/
def readHex (width : Nat) : Reader Char := do
  let rest := (← get).rest
  let digits ←
    match rest with
    | '\x7b' :: more => do
      let digits := more.takeWhile (· != '\x7d')
      if digits.length = more.length then throw .badEscape
      skip (digits.length + 2)
      pure digits
    | _ => do
      let digits := rest.take width
      if digits.length < width then throw .badEscape
      skip width
      pure digits
  if digits.isEmpty then throw .badEscape
  let some n := hexNumber? digits | throw .badEscape
  let some c := charOfNat? n | throw .badCodePoint
  return c

/-- The class that a property name in braces stands for: a name, or a name and a value with
`=` or `:` between them, or with `!=` for all characters without that value. -/
def namedClass? (name : List Char) : Option Class :=
  match Text.cutAt? ['!', '='] name with
  | some (property, value) => (Class.ofPropertyValue? property value).map Class.compl
  | none =>
    match Text.splitFirst? ':' name with
    | some (property, value) => Class.ofPropertyValue? property value
    | none =>
      match Text.splitFirst? '=' name with
      | some (property, value) => Class.ofPropertyValue? property value
      | none => Class.ofProperty? name

/-- A property after `p` or `P`: one letter, or a name in braces. -/
def readProperty (negated : Bool) (flags : Flags) : Reader Class := do
  let name ←
    match (← get).rest with
    | '\x7b' :: more => do
      let name := more.takeWhile (· != '\x7d')
      if name.length = more.length then throw .badEscape
      skip (name.length + 2)
      pure name
    | c :: _ => do
      skip 1
      pure [c]
    | [] => throw .badEscape
  if !flags.unicode then throw .unknownProperty
  let some s := namedClass? name | throw .unknownProperty
  return if negated then s.compl else s

/-- The condition of a word boundary of some kind, given what counts as a word character. -/
def boundary (isWord : Class) : String → Option (Option Char → Option Char → Bool)
  | "both" => some fun before after => before.any isWord != after.any isWord
  | "neither" => some fun before after => before.any isWord == after.any isWord
  | "start" => some fun before after => !before.any isWord && after.any isWord
  | "end" => some fun before after => before.any isWord && !after.any isWord
  | "start-half" => some fun before _ => !before.any isWord
  | "end-half" => some fun _ after => !after.any isWord
  | _ => none

/-- The word characters under the flags. -/
def wordClass (flags : Flags) : Class :=
  if flags.unicode then Text.isWordChar else Class.isAsciiWord

/-- After `\b`: a kind of boundary in braces, or nothing. Braces whose first character is no
letter are a repetition. -/
def readBoundary (flags : Flags) : Reader Escaped := do
  let isWord := wordClass flags
  let isKind (c : Char) : Bool := c.isAlpha || c == '-'
  let kind ←
    match (← get).rest with
    | '\x7b' :: c :: more =>
      if isKind c then do
        let kind := (c :: more).takeWhile isKind
        match (c :: more).drop kind.length with
        | '\x7d' :: _ => do
          skip (kind.length + 2)
          pure (String.ofList kind)
        | _ => throw .badEscape
      else pure "both"
    | ['\x7b'] => throw .badEscape
    | _ => pure "both"
  let some holds := if kind == "neither" then none else boundary isWord kind | throw .badEscape
  return .look holds

/-- Reads what follows a backslash. -/
def readEscape (flags : Flags) : Reader Escaped := do
  let some c ← peek? | throw .badEscape
  skip 1
  if c.isDigit then throw .backReference
  if isEscapable c then return .char c
  match c with
  | 'x' => .char <$> readHex 2
  | 'u' => .char <$> readHex 4
  | 'U' => .char <$> readHex 8
  | 'p' => .set <$> readProperty false flags
  | 'P' => .set <$> readProperty true flags
  | 'a' => return .char '\x07'
  | 'f' => return .char '\x0c'
  | 't' => return .char '\t'
  | 'n' => return .char '\n'
  | 'r' => return .char '\r'
  | 'v' => return .char '\x0b'
  | 'A' => return .look fun before _ => before.isNone
  | 'z' => return .look fun _ after => after.isNone
  | 'b' => readBoundary flags
  | 'B' => return .look fun before after =>
      before.any (wordClass flags) == after.any (wordClass flags)
  | '<' => return .look fun before after =>
      !before.any (wordClass flags) && after.any (wordClass flags)
  | '>' => return .look fun before after =>
      before.any (wordClass flags) && !after.any (wordClass flags)
  | _ =>
    match Class.ofLetter? flags.unicode c with
    | some s => return .set s
    | none =>
      match Class.ofLetter? flags.unicode c.toLower with
      | some s => if flags.unicode then return .set s.compl else throw .notText
      | none => throw .badEscape

/-! ### Classes in brackets -/

/-- The operations between sets in a bracket. -/
inductive SetOp
  | inter
  | diff
  | symmDiff

def SetOp.apply : SetOp → Class → Class → Class
  | inter => Class.inter
  | diff => Class.diff
  | symmDiff => Class.symmDiff

/-- A set under the flags: closed under case if case does not count. -/
def underFlags (flags : Flags) (s : Class) : Class :=
  if flags.ignoreCase then s.foldCase else s

/-- An ASCII class, `[:name:]` or `[:^name:]`, and what follows it. -/
def asciiClass? (cs : List Char) : Option (Class × List Char) := do
  let body ← Text.dropStart? ['[', ':'] cs
  let (negated, body) :=
    match body with
    | '^' :: more => (true, more)
    | _ => (false, body)
  let (name, after) ← Text.splitFirst? ':' body
  let rest ← Text.dropStart? [']'] after
  let s ← Class.ofAsciiName? (String.ofList name)
  some (if negated then s.compl else s, rest)

/-- A character or an escape in a bracket. -/
def readClassItem (flags : Flags) : Reader Escaped := do
  match (← get).rest with
  | [] => throw .unclosedClass
  | '\\' :: _ =>
    skip 1
    readEscape flags
  | c :: _ =>
    skip 1
    return .char c

/-- A range, or a single item, as a set. -/
def readClassRange (flags : Flags) : Reader Class := do
  let first ← readClassItem flags
  let next ← peekSpace? flags
  let single : Reader Class :=
    match first with
    | .char c => do
      if !flags.unicode && 128 ≤ c.toNat then throw .notText
      return (· == c)
    | .set s => return s
    | .look _ => throw .badClassItem
  match next with
  | none => throw .unclosedClass
  | some '-' =>
    let rest := (← get).rest.drop 1
    let rest := if flags.verbose then dropSpace rest else rest
    match rest with
    | [] => throw .unclosedClass
    | ']' :: _ => single
    | '-' :: _ => single
    | _ =>
      modify fun s => { s with rest := rest }
      let last ← readClassItem flags
      match first, last with
      | .char a, .char b =>
        if b < a then throw .badClassRange
        if !flags.unicode && 128 ≤ b.toNat then throw .notText
        return Class.range a b
      | _, _ => throw .badClassRange
  | some _ => single

/-- Literal hyphens, or a literal closing bracket, at the start of a bracket. -/
def readClassStart (flags : Flags) : Reader Class := do
  let _ ← peekSpace? flags
  let rest := (← get).rest
  let hyphens := rest.takeWhile (· == '-')
  if hyphens.isEmpty then
    match rest with
    | ']' :: _ =>
      skip 1
      return (· == ']')
    | _ => return Class.none
  else
    skip hyphens.length
    return (· == '-')

/-- Reads a bracket up to its closing one: `pending` is the operation waiting for its right
side, `s` the set read since. Returns the set and how deeply it is nested. -/
def readClassBody (fuel : Nat) (flags : Flags) (negated : Bool) (pending : Option (SetOp × Class))
    (s : Class) (depth : Nat) : Reader (Class × Nat) :=
  match fuel with
  | 0 => throw .unclosedClass
  | fuel + 1 => do
    let combined : Class :=
      match pending with
      | some (op, left) => op.apply left (underFlags flags s)
      | none => underFlags flags s
    skipSpace flags
    match (← get).rest with
    | [] => throw .unclosedClass
    | '[' :: more =>
      match asciiClass? ('[' :: more) with
      | some (t, rest) =>
        modify fun st => { st with rest := rest }
        readClassBody fuel flags negated pending (s.union t) depth
      | none =>
        skip 1
        let (t, inner) ← readBracket fuel flags
        readClassBody fuel flags negated pending (s.union t) (max depth (inner + 1))
    | ']' :: _ =>
      skip 1
      if negated && !flags.unicode then throw .notText
      return (if negated then Class.compl combined else combined, depth)
    | '&' :: '&' :: _ =>
      skip 2
      readClassBody fuel flags negated (some (.inter, combined)) Class.none (depth + 1)
    | '-' :: '-' :: _ =>
      skip 2
      readClassBody fuel flags negated (some (.diff, combined)) Class.none (depth + 1)
    | '~' :: '~' :: _ =>
      skip 2
      readClassBody fuel flags negated (some (.symmDiff, combined)) Class.none (depth + 1)
    | _ =>
      let t ← readClassRange flags
      readClassBody fuel flags negated pending (s.union t) depth
where
  /-- Reads what follows an opening bracket. -/
  readBracket (fuel : Nat) (flags : Flags) : Reader (Class × Nat) := do
    match fuel with
    | 0 => throw .unclosedClass
    | fuel + 1 =>
      let negated := (← peekSpace? flags) == some '^'
      if negated then skip 1
      let s ← readClassStart flags
      readClassBody fuel flags negated none s 0

/-! ### Repetition -/

/-- Repeats a part; an expression that is repeated takes that many copies. -/
def Part.times (part : Part) (least : Nat) (most : Option Nat) : Part where
  regex := .times part.regex least most
  depth := part.depth + 1
  size := part.size * max 1 (most.getD least) + 1

/-- A number with blanks around it. -/
def readDecimal : Reader Nat := do
  modify fun s => { s with rest := s.rest.dropWhile Text.isBlank }
  let digits := (← get).rest.takeWhile Char.isDigit
  modify fun s => { s with rest := (s.rest.drop digits.length).dropWhile Text.isBlank }
  if digits.isEmpty then throw .badCount
  let n := Nat.ofDigitChars 10 digits 0
  if n < UInt32.size then return n else throw .badCount

/-- Reads a counted repetition after its opening brace. -/
def readCounts (flags : Flags) : Reader (Nat × Option Nat) := do
  skipSpace flags
  let least ← readDecimal
  match ← peekSpace? flags with
  | some '\x7d' =>
    skip 1
    return (least, some least)
  | some ',' =>
    skip 1
    match ← peekSpace? flags with
    | some '\x7d' =>
      skip 1
      return (least, none)
    | _ =>
      let most ← readDecimal
      match ← peekSpace? flags with
      | some '\x7d' =>
        skip 1
        if most < least then throw .badCount
        return (least, some most)
      | _ => throw .badCount
  | _ => throw .badCount

/-- Drops the mark that asks for as few repetitions as possible; it does not change whether
there is a match. -/
def skipLazy (flags : Flags) : Reader Unit := do
  if (← peekSpace? flags) == some '?' then skip 1

/-! ### Groups -/

/-- Sets or clears one flag. Greed is accepted and does not matter. -/
def Flags.set? (flags : Flags) (value : Bool) : Char → Option Flags
  | 'i' => some { flags with ignoreCase := value }
  | 'm' => some { flags with multiLine := value }
  | 's' => some { flags with dotAll := value }
  | 'u' => some { flags with unicode := value }
  | 'x' => some { flags with verbose := value }
  | 'R' => some { flags with crlf := value }
  | 'U' => some flags
  | _ => none

/-- Applies flags as they are written, without repetition and with at most one hyphen, which
must be followed by a flag. -/
def applyFlags (flags : Flags) : (value : Bool) → (seen : List Char) → List Char → Option Flags
  | _, seen, [] => if seen.head? == some '-' then none else some flags
  | value, seen, c :: cs =>
    if seen.contains c then none
    else if c = '-' then applyFlags flags false (c :: seen) cs
    else
      match flags.set? value c with
      | some flags => applyFlags flags value (c :: seen) cs
      | none => none

/-- What an opening parenthesis starts. -/
inductive GroupStart
  /-- A group whose content is read under the given flags. -/
  | group (flags : Flags)
  /-- New flags for the rest of the surrounding group. -/
  | flagsOnly (flags : Flags)

def isNameStart (c : Char) : Bool :=
  c == '_' || (Text.category c).isLetter

def isNameChar (c : Char) : Bool :=
  isNameStart c || (Text.category c).isNumber || c == '.' || c == '[' || c == ']'

/-- Reads the name of a group up to the closing angle bracket. -/
def readGroupName (flags : Flags) : Reader GroupStart := do
  let some (name, rest) := Text.splitFirst? '>' (← get).rest | throw .badGroupName
  match name with
  | [] => throw .badGroupName
  | c :: cs =>
    if !isNameStart c || !cs.all isNameChar then throw .badGroupName
    if (← get).names.contains name then throw .duplicateGroupName
    set (⟨rest, name :: (← get).names⟩ : Reading)
    return .group flags

/-- Reads what stands between an opening parenthesis and the content of the group. -/
def readGroupStart (flags : Flags) : Reader GroupStart := do
  skipSpace flags
  match (← get).rest with
  | '?' :: 'P' :: '<' :: _ =>
    skip 3
    readGroupName flags
  | '?' :: '=' :: _ => throw .lookAround
  | '?' :: '!' :: _ => throw .lookAround
  | '?' :: '<' :: '=' :: _ => throw .lookAround
  | '?' :: '<' :: '!' :: _ => throw .lookAround
  | '?' :: '<' :: _ =>
    skip 2
    readGroupName flags
  | '?' :: more =>
    let letters := more.takeWhile fun c => c != ':' && c != ')'
    match more.drop letters.length with
    | ')' :: rest =>
      if letters.isEmpty then throw .nothingToRepeat
      let some flags := applyFlags flags true [] letters | throw .badFlags
      modify fun s => { s with rest := rest }
      return .flagsOnly flags
    | _ :: rest =>
      let some flags := applyFlags flags true [] letters | throw .badFlags
      modify fun s => { s with rest := rest }
      return .group flags
    | [] => throw .badFlags
  | _ => return .group flags

/-! ### Expressions -/

/-- The size of a single character: one state for each of its bytes. -/
def literalPart (flags : Flags) (c : Char) : Part where
  regex := .char (underFlags flags (· == c))
  size := c.utf8Size

/-- A set of characters, whose size is that of a few ranges of bytes. -/
def setPart (s : Class) (depth : Nat) : Part where
  regex := .char s
  depth := depth
  size := 10

def lookPart (holds : Option Char → Option Char → Bool) : Part where
  regex := .look holds

/-- The beginning of the text or, with many lines, of a line. -/
def startLook (flags : Flags) (before after : Option Char) : Bool :=
  match before with
  | none => true
  | some c =>
    flags.multiLine
      && (c == '\n' || (flags.crlf && c == '\r' && after != some '\n'))

/-- The end of the text or, with many lines, of a line. -/
def endLook (flags : Flags) (before after : Option Char) : Bool :=
  match after with
  | none => true
  | some c =>
    flags.multiLine
      && (if flags.crlf then c == '\r' || (c == '\n' && before != some '\r') else c == '\n')

/-- The dot: any character, except line ends unless the flags include them. -/
def dotClass (flags : Flags) : Class := fun c =>
  flags.dotAll || !(c == '\n' || (flags.crlf && c == '\r'))

/-- A sequence of parts, given in reverse. -/
def sequencePart : List Part → Part
  | [] => { regex := .empty, repeatable := false }
  | [part] => part
  | parts =>
    { regex := Regex.concat (parts.reverse.map (·.regex))
      depth := (parts.map (·.depth)).foldl max 0 + 1
      size := (parts.map (·.size)).foldl (· + ·) 0 }

/-- A choice between parts, given in reverse. -/
def choicePart : List Part → Part
  | [part] => part
  | parts =>
    { regex := Regex.choice (parts.reverse.map (·.regex))
      depth := (parts.map (·.depth)).foldl max 0 + 1
      size := (parts.map (·.size)).foldl (· + ·) 0 + 1 }

/-- Repeats the last part that was read. -/
def repeatLast (least : Nat) (most : Option Nat) : List Part → Reader (List Part)
  | part :: parts => if part.repeatable then return part.times least most :: parts
    else throw .nothingToRepeat
  | [] => throw .nothingToRepeat

/-- Reads alternatives up to a closing parenthesis or the end: `done` holds the alternatives
before the current one and `parts` the parts of the current one, both in reverse. -/
def readAlternatives (fuel : Nat) (flags : Flags) (done parts : List Part) : Reader Part :=
  match fuel with
  | 0 => throw .tooDeep
  | fuel + 1 => do
    let add (part : Part) : Reader Part := readAlternatives fuel flags done (part :: parts)
    let again (least : Nat) (most : Option Nat) : Reader Part := do
      skip 1
      skipLazy flags
      let parts ← repeatLast least most parts
      readAlternatives fuel flags done parts
    skipSpace flags
    match (← get).rest with
    | [] => return choicePart (sequencePart parts :: done)
    | ')' :: _ => return choicePart (sequencePart parts :: done)
    | '|' :: _ =>
      skip 1
      readAlternatives fuel flags (sequencePart parts :: done) []
    | '(' :: _ =>
      skip 1
      match ← readGroupStart flags with
      | .flagsOnly flags =>
        readAlternatives fuel flags done ({ regex := .empty, repeatable := false } :: parts)
      | .group inner =>
        let body ← readAlternatives fuel inner [] []
        if (← peek?) != some ')' then throw .unclosedGroup
        skip 1
        add { body with depth := body.depth + 1, size := body.size + 2, repeatable := true }
    | '*' :: _ => again 0 none
    | '+' :: _ => again 1 none
    | '?' :: _ => again 0 (some 1)
    | '\x7b' :: _ =>
      let _ ← repeatLast 0 none parts
      skip 1
      let (least, most) ← readCounts flags
      skipLazy flags
      let parts ← repeatLast least most parts
      readAlternatives fuel flags done parts
    | '[' :: _ =>
      skip 1
      let (s, depth) ← readClassBody.readBracket fuel flags
      add (setPart s (depth + 1))
    | '.' :: _ =>
      skip 1
      if !flags.unicode then throw .notText
      add (setPart (dotClass flags) 0)
    | '^' :: _ =>
      skip 1
      add (lookPart (startLook flags))
    | '$' :: _ =>
      skip 1
      add (lookPart (endLook flags))
    | '\\' :: _ =>
      skip 1
      match ← readEscape flags with
      | .char c => add (literalPart flags c)
      | .set s => add (setPart (underFlags flags s) 0)
      | .look holds => add (lookPart holds)
    | c :: _ =>
      skip 1
      add (literalPart flags c)

/-- The memory one state takes, in bytes. -/
def stateSize : Nat := 32

/-- Reads a regular expression. -/
def parse (cs : List Char) : Except Fault Regex := do
  let (part, state) ← (readAlternatives (2 * cs.length + 2) {} [] []).run ⟨cs, []⟩
  if !state.rest.isEmpty then throw .unopenedGroup
  if depthLimit < part.depth then throw .tooDeep
  if sizeLimit < part.size * stateSize then throw .tooBig
  return part.regex

end CrossTag.Regex
