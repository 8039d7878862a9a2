import CrossTag.Pattern.Glob

/-!
# Paths

A path is written as names with separators between them. Two written paths are the same if
they have the same parts: repeated separators, separators at the end and steps that stay in
place do not count, except for one such step at the very beginning of a path that does not
start at the root.

Locations show paths without `./` in front of them.
-/

namespace CrossTag

/-- A path as its parts: whether it starts at the root, whether it starts with a step that
stays in place, and then names and steps to the parent. -/
structure Path where
  rooted : Bool
  dotted : Bool
  parts : List String
deriving DecidableEq, Repr

namespace Path

/-- The step that stays in place. -/
def here : String := "."

/-- The step to the parent. -/
def parent : String := ".."

/-- What stands between the separators of a written path. -/
def pieces (written : String) : List String :=
  (components written.toList).map String.ofList

/-- True if a written path starts at the root. -/
def isRooted (written : String) : Bool :=
  written.toList.head? == some separator

/-- The parts of a written path. -/
def ofString (written : String) : Path where
  rooted := isRooted written
  dotted := (pieces written).head? == some here
  parts := (pieces written).filter fun piece => piece != "" && piece != here

/-- A path as it is written. -/
def render (p : Path) : String :=
  let relative := "/".intercalate ((if p.dotted then [here] else []) ++ p.parts)
  if p.rooted then "/" ++ relative else relative

/-- The path with the given names that starts at the root. -/
def absolute (names : List String) : Path :=
  ⟨true, false, names⟩

/-- The path `p` with one more name. -/
def push (p : Path) (name : String) : Path :=
  { p with parts := p.parts ++ [name] }

/-- The directory that a written path lies in: all but the last part. The current directory if
there is nothing before the last part. -/
def directory (written : String) : String :=
  let p := ofString written
  let dir :=
    if p.parts.isEmpty then { p with dotted := false }
    else { p with parts := p.parts.dropLast }
  if dir.render.isEmpty then here else dir.render

/-- Puts names behind a written path. -/
def join (written : String) (names : List String) : String :=
  let below := "/".intercalate names
  if names.isEmpty then written
  else if written.isEmpty || Glob.isDirectory written.toList then written ++ below
  else written ++ "/" ++ below

/-! ### Shown paths -/

/-- Takes `./` off the front as often as it stands there. -/
def dropDots : List Char → List Char
  | '.' :: '/' :: rest => dropDots rest
  | cs => cs

/-- A path as locations show it. -/
def display (written : String) : String :=
  String.ofList (dropDots written.toList)

end Path

end CrossTag
