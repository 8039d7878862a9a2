import CrossTag.Failure
import CrossTag.Files.Ignore

/-!
# Finding files

A walk lists the files below a root in the order of their shown paths. Hidden files and
directories are passed over, and so are those that ignore files in the tree or the ignore
globs of the walk name; with a directory everything below it is passed over. An ignore file
may keep something that is hidden, but not what a glob ignores. The root itself is never
passed over, whatever it is called.
-/

namespace CrossTag

/-- A file that was found, and the path that its tags are attributed to. -/
structure SourceFile where
  path : String
  display : String
deriving DecidableEq, Repr

namespace SourceFile

/-- The file with a given path. -/
def ofPath (path : String) : SourceFile :=
  ⟨path, Path.display path⟩

/-- True if the shown path of `a` does not come after that of `b`. -/
def le (a b : SourceFile) : Bool :=
  (compare a.display b.display).isLE

end SourceFile

/-- Ignore globs. -/
structure Walker where
  globs : List Glob

namespace Walker

/-- The globs that are used unless others are given. -/
def standardGlobs : List String := [".git"]

/-- Compiles the globs of a walk. -/
def compile (globs : List String) : Except PatternError Walker := do
  let texts := if globs.isEmpty then standardGlobs else globs
  let globs ← texts.mapM fun text =>
    (Glob.parse text).mapError fun e => PatternError.invalid text (.wildcard e)
  return ⟨globs⟩

/-- The text that globs are compared with: directories end in a separator. -/
def candidate (display : String) (isDir : Bool) : String :=
  if isDir && !Glob.isDirectory display.toList then display ++ "/" else display

/-- True if one of the globs matches a path. -/
def isIgnored (w : Walker) (path : String) (isDir : Bool) : Bool :=
  w.globs.any (·.isMatch (candidate (Path.display path) isDir))

/-- True if a name is hidden. -/
def isHidden (name : String) : Bool :=
  name.toList.head? == some '.'

/-- True if a walk passes over what stands under `names` below the directory `base`, where the
walk started at `root`. -/
def skips (w : Walker) (t : Tree) (root : String) (base names : List String) : Bool :=
  let isDir := t.isDirAt (base ++ names)
  w.isIgnored (Path.join root names) isDir ||
    match Ignore.verdict t (base ++ names) isDir with
    | some .ignored => true
    | some .kept => false
    | none => names.getLast?.any isHidden

/-- The ways from a directory to something below it, shortest first. -/
def stages (names : List String) : List (List String) :=
  (List.range names.length).map fun i => names.take (i + 1)

/-- The files below the directory `base`, in the order of the tree. -/
def filesBelow (w : Walker) (t : Tree) (root : String) (base : List String) :
    List SourceFile :=
  (t.below base).filterMap fun (names, node) =>
    if node != .dir && !(stages names).any (w.skips t root base) then
      some (.ofPath (Path.join root names))
    else none

/-- Lists the files below a root. -/
def walk (w : Walker) (t : Tree) (root : String) : Except FileError (List SourceFile) :=
  match t.resolve root with
  | .error _ => .error (.missingRoot root)
  | .ok base =>
    if t.isDirAt base then .ok ((w.filesBelow t root base).mergeSort SourceFile.le)
    else .ok [.ofPath root]

end Walker

end CrossTag
