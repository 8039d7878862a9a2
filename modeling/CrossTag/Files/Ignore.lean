import CrossTag.Files.Tree
import CrossTag.Pattern.Regex.Basic
import CrossTag.Text.Blank
import CrossTag.Text.Cut

/-!
# Ignore files

An ignore file lists patterns for what lies below its directory, one on a line. Lines that are
empty or start with `#` do not count. A pattern that starts with `!` takes back what earlier
ones ignore, one that ends in a separator is for directories only, and one with a separator
before its end must match the whole path from the directory of the file; any other pattern may
match at any depth. The last pattern that matches decides.

In a pattern `?` and `*` stand for one and any number of bytes other than a separator, brackets
for one of a list of bytes, braces for one of several patterns, and a backslash takes the
meaning of the next character away. `**` stands for any number of directories if it is a whole
component. Matching goes over the bytes of a path, here written as the characters with the same
numbers. A line that is no pattern is passed over.
-/

namespace CrossTag.Ignore

/-- The verdict of ignore files on a path. -/
inductive Verdict
  | ignored
  | kept
deriving DecidableEq, Repr

/-- One pattern of an ignore file. -/
structure Rule where
  regex : Regex
  /-- The pattern takes back what others ignore. -/
  negated : Bool
  dirOnly : Bool

/-! ### Units of a pattern -/

/-- A text as the characters with the numbers of its bytes. -/
def byteChars (cs : List Char) : List Char :=
  (Text.encode cs).map fun b => Char.ofNat b.toNat

/-- One unit of a pattern. -/
inductive Glyph
  | literal (c : Char)
  | anyByte
  | run
  /-- `**` and a separator at the start. -/
  | dirsBefore
  /-- A separator and `**` at the end. -/
  | dirsAfter
  /-- `**` between two separators. -/
  | dirsBetween
  | oneOf (negated : Bool) (ranges : List (Char × Char))
  | choice (branches : List Regex)

/-- Any byte but a separator. -/
def notSeparator : Regex :=
  .char (· != separator)

/-- Any bytes. -/
def anything : Regex :=
  .star (.char fun _ => true)

def Glyph.toRegex : Glyph → Regex
  | literal c => Regex.concat ((byteChars [c]).map Regex.literal)
  | anyByte => notSeparator
  | run => .star notSeparator
  | dirsBefore => .alt (.times (.literal separator) 0 (some 1)) (.seq anything (.literal separator))
  | dirsAfter => .seq (.literal separator) anything
  | dirsBetween =>
    .alt (.literal separator)
      (.seq (.literal separator) (.seq anything (.literal separator)))
  | oneOf negated ranges =>
    .char fun c => (ranges.any fun (first, last) => first ≤ c && c ≤ last) != negated
  | choice branches => Regex.choice branches

/-- The expression of units given in reverse. -/
def toRegex (glyphs : List Glyph) : Regex :=
  match glyphs with
  | [.dirsBefore] => anything
  | _ => Regex.concat (glyphs.reverse.map Glyph.toRegex)

/-! ### Reading patterns -/

/-- Reads a bracket: `ranges` holds what was read so far, in reverse, and `open_` says that the
last one is a range still without its end. Answers the ranges and the text after the bracket. -/
def readRanges : (first open_ : Bool) → (ranges : List (Char × Char)) → List Char →
    Option (List (Char × Char) × List Char)
  | _, _, _, [] => none
  | first, open_, ranges, c :: cs =>
    if c = ']' ∧ first = false then
      some (if open_ then ('-', '-') :: ranges else ranges, cs)
    else
      match open_, ranges with
      | true, (a, _) :: rest => if c < a then none else readRanges false false ((a, c) :: rest) cs
      | _, _ =>
        if c = '-' ∧ first = false then readRanges false true ranges cs
        else readRanges false false ((c, c) :: ranges) cs

/-- Reads what follows an opening bracket. -/
def readBracket (cs : List Char) : Option (Glyph × List Char) :=
  let (negated, cs) :=
    match cs with
    | '!' :: rest => (true, rest)
    | '^' :: rest => (true, rest)
    | _ => (false, cs)
  (readRanges true false [] cs).map fun (ranges, rest) => (.oneOf negated ranges, rest)

/-- What two stars stand for: the units with those for the stars in front, and the text after
them. `before` is the character before the stars, `glyphs` the units before them in reverse, and
`cs` the text after them. -/
def readStars (nested : Bool) (before : Option Char) (glyphs : List Glyph) (cs : List Char) :
    List Glyph × List Char :=
  let plain := (.run :: .run :: glyphs, cs)
  let atSeparator := cs.head? == some separator
  if glyphs.isEmpty then
    if cs.isEmpty || atSeparator then ([.dirsBefore], cs.drop 1) else plain
  else if before == some separator || (nested && (before == some ',' || before == some '\x7b')) then
    let atEnd := cs.isEmpty || (nested && (cs.head? == some ',' || cs.head? == some '\x7d'))
    if atEnd || atSeparator then
      let rest := if atEnd then cs else cs.drop 1
      match glyphs with
      | .dirsBefore :: _ => (glyphs, rest)
      | .dirsAfter :: _ => (glyphs, rest)
      | _ :: glyphs => ((if atEnd then .dirsAfter else .dirsBetween) :: glyphs, rest)
      | [] => (glyphs, rest)
    else plain
  else plain

/-- Reads units up to the end or, inside braces, up to the end of a branch. Each step takes at
least one character, so the length of the text is fuel enough. -/
def readGlyphs (fuel : Nat) (nested : Bool) (before : Option Char) (glyphs : List Glyph)
    (cs : List Char) : Option (List Glyph × List Char) :=
  match fuel, cs with
  | _, [] => if nested then none else some (glyphs, [])
  | 0, _ => none
  | fuel + 1, c :: rest =>
    match c, rest with
    | '?', _ => readGlyphs fuel nested (some c) (.anyByte :: glyphs) rest
    | '*', '*' :: rest =>
      let (glyphs, after) := readStars nested before glyphs rest
      let before := if after.length < rest.length then separator else '*'
      readGlyphs fuel nested (some before) glyphs after
    | '*', _ => readGlyphs fuel nested (some c) (.run :: glyphs) rest
    | '[', _ =>
      match readBracket rest with
      | some (glyph, rest) => readGlyphs fuel nested (some ']') (glyph :: glyphs) rest
      | none => none
    | '\x7b', _ =>
      match readBranches fuel [] rest with
      | some (branches, rest) =>
        readGlyphs fuel nested (some '\x7d') (.choice branches :: glyphs) rest
      | none => none
    | '\x7d', _ => if nested then some (glyphs, c :: rest) else none
    | ',', _ =>
      if nested then some (glyphs, c :: rest)
      else readGlyphs fuel nested (some c) (.literal c :: glyphs) rest
    | '\\', d :: rest => readGlyphs fuel nested (some d) (.literal d :: glyphs) rest
    | '\\', [] => none
    | _, _ => readGlyphs fuel nested (some c) (.literal c :: glyphs) rest
where
  /-- Reads branches up to the closing brace. -/
  readBranches (fuel : Nat) (branches : List Regex) (cs : List Char) :
      Option (List Regex × List Char) :=
    match fuel with
    | 0 => none
    | fuel + 1 =>
      match readGlyphs fuel true (some '\x7b') [] cs with
      | some (glyphs, ',' :: rest) => readBranches fuel (toRegex glyphs :: branches) rest
      | some (glyphs, '\x7d' :: rest) => some ((toRegex glyphs :: branches).reverse, rest)
      | _ => none

/-- Removes blanks at the end, unless the last one is an escaped space. -/
def dropBlanks (line : List Char) : List Char :=
  match line.reverse with
  | ' ' :: '\\' :: _ => line
  | _ => Text.trimEnd line

/-- Takes the marks off the front: whether the pattern is negated and whether it starts at the
directory of the file. -/
def readMarks (line : List Char) : Bool × Bool × List Char :=
  match line with
  | '\\' :: '!' :: rest => (false, false, '!' :: rest)
  | '\\' :: '#' :: rest => (false, false, '#' :: rest)
  | '!' :: '/' :: rest => (true, true, rest)
  | '!' :: rest => (true, false, rest)
  | '/' :: rest => (false, true, rest)
  | _ => (false, false, line)

/-- Takes a separator off the end, with the backslash that may stand before it. -/
def readDirMark (pattern : List Char) : Bool × List Char :=
  match pattern.reverse with
  | '/' :: '\\' :: rest => (true, rest.reverse)
  | '/' :: rest => (true, rest.reverse)
  | _ => (false, pattern)

/-- True if a pattern starts with `**` as a whole component. -/
def startsWithDirs (pattern : List Char) : Bool :=
  pattern == ['*', '*'] || ['*', '*', '/'].isPrefixOf pattern

/-- The pattern in full: with `**` in front if it may match at any depth, and with `*` behind a
`**` at the end, which stands for what lies in a directory and not for the directory. -/
def complete (anchored : Bool) (pattern : List Char) : List Char :=
  let pattern :=
    if anchored || pattern.contains separator || startsWithDirs pattern then pattern
    else ['*', '*', '/'] ++ pattern
  if ['*', '*', '/'].isPrefixOf pattern.reverse then pattern ++ ['/', '*'] else pattern

/-- The rule of a line, if it holds one. -/
def readRule (line : List Char) : Option Rule := do
  if line.head? == some '#' then none
  let line := dropBlanks line
  if line.isEmpty then none
  let (negated, anchored, pattern) := readMarks line
  let (dirOnly, pattern) := readDirMark pattern
  let pattern := complete anchored pattern
  let (glyphs, _) ← readGlyphs (pattern.length + 1) false none [] pattern
  some ⟨toRegex glyphs, negated, dirOnly⟩

/-- The rules of an ignore file. Reading stops at a line that is not text. -/
def readRules (data : Bytes) : List Rule :=
  let lines := (data.splitOn 10).map Text.decode?
  let lines := (lines.takeWhile Option.isSome).filterMap id
  let lines :=
    match lines with
    | first :: rest => first.dropWhile (· == '\uFEFF') :: rest
    | [] => []
  lines.filterMap readRule

/-! ### Verdicts -/

/-- The verdict of rules on a path given by its names below the directory of the file. -/
def judge (rules : List Rule) (names : List String) (isDir : Bool) : Option Verdict :=
  let path := byteChars ("/".intercalate names).toList
  (rules.reverse.find? fun rule => (!rule.dirOnly || isDir) && rule.regex.isFullMatch path).map
    fun rule => if rule.negated then .kept else .ignored

/-- The rules of the ignore file with the given name in a directory. -/
def rulesIn (t : Tree) (dir name : List String) : List Rule :=
  match t.node? (dir ++ name) with
  | some (.file data) => readRules data
  | _ => []

/-- The proper starts of a list, longest first. -/
def ancestors (key : List String) : List (List String) :=
  (List.range key.length).reverse.map key.take

/-- The verdict of the ignore files with one name in the given directories: the first directory
with a verdict decides. -/
def judgeIn (t : Tree) (name key : List String) (isDir : Bool) (dirs : List (List String)) :
    Option Verdict :=
  dirs.findSome? fun dir => judge (rulesIn t dir name) (key.drop dir.length) isDir

/-- The directories up to and including the first that holds a repository. -/
def withinRepository (t : Tree) : List (List String) → List (List String)
  | [] => []
  | dir :: dirs =>
    if (t.node? (dir ++ [".git"])).isSome then [dir] else dir :: withinRepository t dirs

/-- The verdict of all ignore files on an absolute path. Plain ignore files come first, from the
innermost directory outwards; then, inside a repository, its own ignore files and at last its
list of exclusions. -/
def verdict (t : Tree) (key : List String) (isDir : Bool) : Option Verdict :=
  let dirs := ancestors key
  let inRepository := dirs.any fun dir => (t.node? (dir ++ [".git"])).isSome
  let repository := if inRepository then withinRepository t dirs else []
  (judgeIn t [".ignore"] key isDir dirs).or
    ((judgeIn t [".gitignore"] key isDir repository).or
      (judgeIn t [".git", "info", "exclude"] key isDir repository))

end CrossTag.Ignore
