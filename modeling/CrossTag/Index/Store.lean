import CrossTag.Failure

/-!
# Indexes in files

An index is written next to the file that it replaces and takes its place in one last step, so
the file holds a whole index at any time, the old one or the new one. Writing is a list of
steps on the tree, each of which may fail; when one does, what was written so far is removed
and the directories that were made stay. A call whose draft was not made yet removes nothing.

The path `-` stands for the standard streams and not for a file.
-/

namespace CrossTag.Store

/-- The path that stands for the standard streams. -/
def standardStream : String := "-"

/-! ### Writing -/

/-- A step of writing a file. -/
inductive Step
  /-- Makes the directories that the file lies in. -/
  | makeDirectory
  /-- Makes an empty draft in the directory of the file. -/
  | startDraft
  /-- Adds text at the end of the draft. -/
  | append (text : String)
  /-- Waits until the draft is stored. -/
  | sync
  /-- Puts the draft in the place of the file. -/
  | publish
deriving DecidableEq, Repr

/-- True of the steps that find a draft made before them. -/
def Step.hasDraft : Step → Bool
  | .makeDirectory | .startDraft => false
  | .append _ | .sync | .publish => true

/-- The steps that write an index. -/
def steps (index : Index) (comment : String) : List Step :=
  [.makeDirectory, .startDraft]
    ++ (index.lines comment).map (fun line => .append (line ++ "\n"))
    ++ [.sync, .publish]

/-- What a writer works on: the path of the file, and the name of the draft next to it. -/
structure Job where
  target : String
  draft : String
deriving DecidableEq, Repr

namespace Job

/-- The absolute path of the draft. -/
def draftKey (job : Job) (t : Tree) : Except FileFault (List String) := do
  return (← t.resolve (Path.directory job.target)) ++ [job.draft]

/-- Carries out one step. -/
def perform (job : Job) (t : Tree) : Step → Except FileFault Tree
  | .makeDirectory => t.createDirs (Path.directory job.target)
  | .startDraft => do
    let key ← job.draftKey t
    if (t.node? key).isSome then throw .alreadyExists
    return t.put key (.file [])
  | .append text => do
    let key ← job.draftKey t
    match t.node? key with
    | some (.file data) => return t.put key (.file (data ++ .ofString text))
    | some .dir => throw .isADirectory
    | none => throw .notFound
  | .sync => return t
  | .publish => do t.rename (← job.draftKey t) job.target

/-- Removes the draft, if there is one. -/
def abandon (job : Job) (t : Tree) : Tree :=
  match job.draftKey t with
  | .ok key => t.erase key
  | .error _ => t

/-- Carries out steps until one fails, and removes the draft if it was made before that. -/
def run (job : Job) : Tree → List Step → Tree × Except FileFault Unit
  | t, [] => (t, .ok ())
  | t, step :: rest =>
    match job.perform t step with
    | .ok t => job.run t rest
    | .error fault => (if step.hasDraft then job.abandon t else t, .error fault)

end Job

/-- The first of a sequence of names that nothing in the tree has, given how many to try. -/
def freshName (t : Tree) : (tries : Nat) → String
  | 0 => ".draft"
  | n + 1 =>
    let name := ".draft" ++ toString n
    if t.nodes.any (·.1.contains name) then freshName t n else name

/-- Writes an index to a file. -/
def write (t : Tree) (target : String) (index : Index) (comment : String) :
    Tree × Except FileFault Unit :=
  let job : Job := ⟨target, freshName t (t.nodes.length + 1)⟩
  job.run t (steps index comment)

/-! ### Reading -/

/-- The index that bytes stand for. -/
def ofBytes (bytes : Bytes) : Except Failure Index :=
  (Index.readBytes bytes).toIndex.mapError .ofIndexFault

/-- Reads an index from a file, or from `input` if the path stands for the standard streams. -/
def read (t : Tree) (input : Bytes) (path : String) : Except Failure Index := do
  let bytes ←
    if path = standardStream then pure input
    else (t.contentOf path).mapError fun fault => .file (.fault fault)
  ofBytes bytes

end CrossTag.Store
