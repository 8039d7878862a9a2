import CrossTag.Pattern.Wildcard

/-!
# Path globs

A glob selects paths by their components. A pattern without a separator selects every path
one of whose components it describes. A pattern with separators is matched component by
component from the start of the path, and a path that goes on below what was matched is
selected too. In such a pattern `**` skips components until the next one fits; at the very
end it adds nothing. An empty component is passed over, and a component that mixes `**` with
other text matches nothing.

A pattern that ends in a separator selects directories only, which show themselves by a
separator at the end of the path, and whatever lies below them. A leading `!` is dropped,
and so are spaces at the end, unless a backslash stands before the last one.

Skipping is greedy: the first component that fits is taken and never given back. The
matching is written over any type of component patterns and any relation between them and
components, since nothing in it depends on what a single component pattern can say.
-/

namespace CrossTag

/-- The character between the components of a path. -/
def separator : Char := '/'

/-- The components of a path, empty ones included. -/
def components (path : List Char) : List (List Char) :=
  path.splitOn separator

namespace Glob

/-- One component of a glob. -/
inductive Segment (α : Type)
  /-- An empty component, as before a leading separator. -/
  | root
  /-- `**`: any number of components. -/
  | anyDirs
  /-- `**` mixed with other text, which matches nothing. -/
  | never
  /-- A pattern for one component. -/
  | one (pattern : α)
deriving DecidableEq, Repr

/-! ### Matching segments

`α` is the type of component patterns, `β` that of components, and `holds` relates them. -/

section Matching

variable {α β : Type} (holds : α → β → Bool)

/-- Skips components up to and including the first one that fits. -/
def skipTo (pattern : α) : List β → Option (List β)
  | [] => none
  | c :: cs => if holds pattern c then some cs else skipTo pattern cs

/-- Matches segments against components from the left and returns the components left over.
`skip` says that the segment before was `**`, and `matched` that some component was taken;
without one there is no match. -/
def consume : (skip matched : Bool) → List (Segment α) → List β → Option (List β)
  | _, matched, [], cs => if matched then some cs else none
  | _, matched, .root :: segments, cs => consume false matched segments cs
  | _, matched, [.anyDirs], cs => if matched then some cs else none
  | _, matched, .anyDirs :: segments, cs => consume true matched segments cs
  | _, _, .never :: _, _ => none
  | true, _, .one pattern :: segments, cs =>
    match skipTo holds pattern cs with
    | some rest => consume false true segments rest
    | none => none
  | false, _, .one pattern :: segments, cs =>
    match cs with
    | [] => none
    | c :: rest => if holds pattern c then consume false true segments rest else none

/-- Matches a glob with separators. A glob for directories needs something left over, unless
the path is a directory itself. -/
def matchSegments (dirOnly isDir : Bool) (segments : List (Segment α)) (cs : List β) : Bool :=
  match consume holds false false segments cs with
  | none => false
  | some rest => !(dirOnly && !isDir && rest.isEmpty)

/-- Matches a glob without separators: the first component that fits decides, and the last
one is no directory unless the path is. -/
def matchAny (dirOnly isDir : Bool) (pattern : α) : List β → Bool
  | [] => false
  | c :: cs =>
    if holds pattern c then !(dirOnly && !isDir && cs.isEmpty)
    else matchAny dirOnly isDir pattern cs

end Matching

/-- What a glob looks for. -/
inductive Shape (α : Type)
  /-- Any single component. -/
  | anywhere (pattern : α)
  /-- Components from the start of the path. -/
  | anchored (segments : List (Segment α))
deriving DecidableEq, Repr

end Glob

/-- A compiled glob. -/
structure Glob where
  /-- The pattern as it was given. -/
  source : String
  shape : Glob.Shape Wildcard
  dirOnly : Bool
deriving DecidableEq, Repr

namespace Glob

/-! ### Reading patterns -/

/-- Removes spaces at the end, unless the last one is escaped. -/
def dropSpaces (cs : List Char) : List Char :=
  match cs.reverse with
  | ' ' :: '\\' :: _ => cs
  | reversed => (reversed.dropWhile (· == ' ')).reverse

/-- Removes a single separator at the end, and says whether there was one. -/
def dropSeparator (cs : List Char) : List Char × Bool :=
  match cs.reverse with
  | c :: rest => if c = separator then (rest.reverse, true) else (cs, false)
  | [] => (cs, false)

/-- Writes `*` for every `**`, from left to right. -/
def mergeStars : List Char → List Char
  | '*' :: '*' :: cs => '*' :: mergeStars cs
  | c :: cs => c :: mergeStars cs
  | [] => []

/-- Reads one component of a pattern with separators. -/
def readSegment (cs : List Char) : Except WildcardError (Segment Wildcard) :=
  if cs.isEmpty then .ok .root
  else if cs = ['*', '*'] then .ok .anyDirs
  else if (Text.cutAt? ['*', '*'] cs).isSome then .ok .never
  else (Wildcard.parse cs).map .one

/-- Reads a glob. -/
def parse (pattern : String) : Except WildcardError Glob := do
  let cs := pattern.toList
  let cs := dropSpaces ((Text.dropStart? ['!'] cs).getD cs)
  let (cs, dirOnly) := dropSeparator cs
  if cs.contains separator then
    let segments ← (components cs).mapM readSegment
    return ⟨pattern, .anchored segments, dirOnly⟩
  else
    let wildcard ← Wildcard.parse (mergeStars cs)
    return ⟨pattern, .anywhere wildcard, dirOnly⟩

/-! ### Matching paths -/

/-- A path that ends in a separator is a directory. -/
def isDirectory (path : List Char) : Bool :=
  path.getLast? == some separator

/-- True if the glob selects the path. -/
def isMatch (g : Glob) (path : String) : Bool :=
  let cs := path.toList
  match g.shape with
  | .anywhere pattern =>
    matchAny Wildcard.isMatch g.dirOnly (isDirectory cs) pattern (components cs)
  | .anchored segments =>
    matchSegments Wildcard.isMatch g.dirOnly (isDirectory cs) segments (components cs)

end Glob

end CrossTag
