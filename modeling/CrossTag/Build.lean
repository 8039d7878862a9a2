import CrossTag.Files.Walk

/-!
# Building indexes

An index is built from the files below some roots. Patterns and delimiters are checked before
any file is looked at, then the files are listed in the order of their shown paths, and of two
neighbours with the same path one is dropped. The elements of all files are put in the order of
their locations and read as tags; the first that is no tag ends the build.
-/

namespace CrossTag

/-- What to scan for and what to leave out. -/
structure ScanOptions where
  bracket : Bracket := {}
  /-- Globs of paths that are never scanned. -/
  ignore : List String := []
deriving DecidableEq, Repr

/-- Delimiters that can be searched for. -/
def Bracket.check (b : Bracket) : Except ConfigError Unit :=
  if b.isUsable then .ok () else .error (.bracket b)

/-- The elements of a file with the given content. -/
def scanText (b : Bracket) (path : String) (data : Bytes) : Except Failure (List Element) := do
  b.check.mapError .config
  (Scan.scan b path data).mapError .scan

/-- The elements of a file of the tree. A file that is not text has none, whatever the
delimiters are. -/
def scanFile (t : Tree) (b : Bracket) (file : SourceFile) : Except Failure (List Element) := do
  let data ← (t.contentOf file.path).mapError fun fault => .file (.fault fault)
  if Scan.looksBinary (data.take Scan.sniffLength) then return []
  scanText b file.display data

/-- The element of a file that a location lies in. -/
def elementAt (t : Tree) (b : Bracket) (loc : Location) : Except Failure Element := do
  let elements ← scanFile t b ⟨loc.path, loc.path⟩
  match elements.filter (·.loc.contains loc) with
  | [] => throw (.resolve (.noTagAt loc))
  | [e] => return e
  | _ => throw (.resolve (.ambiguous loc))

/-- Drops every file whose path is that of the file before it. -/
def dropRepeated : List SourceFile → List SourceFile
  | a :: b :: files =>
    if Path.ofString a.path = Path.ofString b.path then dropRepeated (a :: files)
    else a :: dropRepeated (b :: files)
  | files => files
termination_by files => files.length

/-- The files below some roots, in the order of their shown paths. -/
def sourceFiles (w : Walker) (t : Tree) (roots : List String) :
    Except FileError (List SourceFile) := do
  let files ← roots.mapM (w.walk t)
  return dropRepeated (files.flatten.mergeSort SourceFile.le)

/-- The elements of a file that may have gone since it was listed. -/
def scanListed (t : Tree) (b : Bracket) (file : SourceFile) : Except Failure (List Element) :=
  match scanFile t b file with
  | .error failure => if failure.isNotFound then .ok [] else .error failure
  | .ok elements => .ok elements

/-- The elements of all files below some roots, in the order of their locations. -/
def scanRoots (t : Tree) (roots : List String) (options : ScanOptions) :
    Except Failure (List Element) := do
  let w ← (Walker.compile options.ignore).mapError .pattern
  let b := options.bracket.orStandard
  b.check.mapError .config
  let files ← (sourceFiles w t roots).mapError .file
  let elements ← files.mapM (scanListed t b)
  return elements.flatten.mergeSort fun a b => a.loc.le b.loc

/-- The index of all tags below some roots. -/
def buildIndex (t : Tree) (roots : List String) (options : ScanOptions) :
    Except Failure Index := do
  let elements ← scanRoots t roots options
  let entries ← (Element.parseAll elements).mapError .element
  return .ofList entries

end CrossTag
