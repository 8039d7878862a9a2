import CrossTag.Files.Path
import CrossTag.Text.Utf8

/-!
# Directory trees

A tree holds files and directories under absolute paths, given as lists of names, and the
directory that relative paths start from. The root is always a directory. Reading, listing and
changing files are functions on trees, and fail in the ways in which a file system fails: a
name is missing, a file stands where a directory is needed, or the other way round.

A written path is resolved from left to right. Each step needs a directory to start from, so a
separator at the end of a path demands a directory.
-/

namespace CrossTag

/-- How an operation on files fails. -/
inductive FileFault
  | notFound
  | denied
  | busy
  | alreadyExists
  | notADirectory
  | isADirectory
deriving DecidableEq, Repr

namespace FileFault

/-- The number of the fault. -/
def code : FileFault → Nat
  | notFound => 2
  | denied => 13
  | busy => 16
  | alreadyExists => 17
  | notADirectory => 20
  | isADirectory => 21

def description : FileFault → String
  | notFound => "No such file or directory"
  | denied => "Permission denied"
  | busy => "Device or resource busy"
  | alreadyExists => "File exists"
  | notADirectory => "Not a directory"
  | isADirectory => "Is a directory"

def message (f : FileFault) : String :=
  f.description ++ " (os error " ++ toString f.code ++ ")"

end FileFault

/-- What stands under a path. -/
inductive Node
  | file (data : Bytes)
  | dir
deriving DecidableEq, Repr

/-- Files and directories under absolute paths. -/
structure Tree where
  nodes : List (List String × Node)
  /-- Where relative paths start. -/
  current : List String := []
deriving DecidableEq, Repr

namespace Tree

/-! ### Looking up -/

/-- What stands under an absolute path. -/
def node? (t : Tree) (key : List String) : Option Node :=
  if key = [] then some .dir else t.nodes.lookup key

/-- True if a directory stands under an absolute path. -/
def isDirAt (t : Tree) (key : List String) : Bool :=
  t.node? key == some .dir

/-- Follows steps from a place in the tree. -/
def follow (t : Tree) : (place : List String) → List String → Except FileFault (List String)
  | place, [] => .ok place
  | place, piece :: rest =>
    if t.isDirAt place then
      if piece = "" ∨ piece = Path.here then t.follow place rest
      else if piece = Path.parent then t.follow place.dropLast rest
      else
        match t.node? (place ++ [piece]) with
        | some _ => t.follow (place ++ [piece]) rest
        | none => .error .notFound
    else .error .notADirectory

/-- Where following a written path starts. -/
def start (t : Tree) (written : String) : List String :=
  if Path.isRooted written then [] else t.current

/-- The absolute path that a written path leads to. -/
def resolve (t : Tree) (written : String) : Except FileFault (List String) :=
  if written.isEmpty then .error .notFound
  else t.follow (t.start written) (Path.pieces written)

/-- True if a written path leads anywhere. -/
def leads (t : Tree) (written : String) : Bool :=
  (t.resolve written).isOk

/-- True if a written path leads to a directory. -/
def isDir (t : Tree) (written : String) : Bool :=
  match t.resolve written with
  | .ok key => t.isDirAt key
  | .error _ => false

/-- The content of the file that a written path leads to. -/
def contentOf (t : Tree) (written : String) : Except FileFault Bytes := do
  let key ← t.resolve written
  match t.node? key with
  | some (.file data) => return data
  | _ => throw .isADirectory

/-- Everything below a directory, with the names that lead to it. -/
def below (t : Tree) (dir : List String) : List (List String × Node) :=
  t.nodes.filterMap fun (key, node) =>
    if dir.isPrefixOf key && dir.length < key.length then some (key.drop dir.length, node) else none

/-! ### Changing -/

/-- Puts a node under an absolute path. -/
def put (t : Tree) (key : List String) (node : Node) : Tree :=
  { t with nodes := t.nodes.filter (·.1 != key) ++ [(key, node)] }

/-- Removes what stands under an absolute path, and everything below it. -/
def erase (t : Tree) (key : List String) : Tree :=
  { t with nodes := t.nodes.filter fun p => !key.isPrefixOf p.1 }

/-- Follows steps and makes the directories that are missing. -/
def makeDirs (t : Tree) : (place : List String) → List String → Except FileFault Tree
  | place, [] => if t.isDirAt place then .ok t else .error .alreadyExists
  | place, piece :: rest =>
    if t.isDirAt place then
      if piece = "" ∨ piece = Path.here then t.makeDirs place rest
      else if piece = Path.parent then t.makeDirs place.dropLast rest
      else
        match t.node? (place ++ [piece]) with
        | some _ => t.makeDirs (place ++ [piece]) rest
        | none => (t.put (place ++ [piece]) .dir).makeDirs (place ++ [piece]) rest
    else .error .notADirectory

/-- Makes a directory and those it lies in, as far as they are missing. -/
def createDirs (t : Tree) (written : String) : Except FileFault Tree :=
  t.makeDirs (t.start written) (Path.pieces written)

/-- The absolute path under which a file with a written path belongs: what stands before its
last step must lead to a directory, and the last step must be a name with nothing behind it. -/
def place (t : Tree) (written : String) : Except FileFault (List String) := do
  if written.isEmpty then throw .notFound
  let steps := (Path.pieces written).filter (· != "")
  let dir ← t.follow (t.start written) steps.dropLast
  if !t.isDirAt dir then throw .notADirectory
  match steps.getLast? with
  | some name =>
    if name = Path.here ∨ name = Path.parent then throw .busy
    if Glob.isDirectory written.toList then throw .notADirectory
    return dir ++ [name]
  | none => throw .busy

/-- Writes a file, in place of one that is there. -/
def writeFile (t : Tree) (written : String) (data : Bytes) : Except FileFault Tree := do
  let key ← t.place written
  if t.isDirAt key then throw .isADirectory
  return t.put key (.file data)

/-- Puts the file under an absolute path in the place of a written path. -/
def rename (t : Tree) (source : List String) (written : String) : Except FileFault Tree := do
  let key ← t.place written
  if t.isDirAt key then throw .isADirectory
  match t.node? source with
  | some node => return (t.erase source).put key node
  | none => throw .notFound

end Tree

end CrossTag
