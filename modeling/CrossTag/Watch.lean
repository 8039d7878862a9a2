import CrossTag.Files.Walk

/-!
# Watching files

A change of a file matters if it may change the index: the file lies below one of the watched
roots, nothing on the way to it is hidden or ignored, and it is not excluded. Paths are compared
after they have been settled, that is, followed in the tree as far as they lead.
-/

namespace CrossTag

namespace Tree

/-- Follows a path that leads nowhere as far as it does; its parts are given from the last one
on. A path whose last part is no name, and a single name, stay as they are. -/
def settleParts (t : Tree) (rooted dotted : Bool) : List String → Path
  | [] => ⟨rooted, dotted, []⟩
  | name :: before =>
    let dir : Path := ⟨rooted, dotted, before.reverse⟩
    if name = Path.parent ∨ dir.render.isEmpty then dir.push name
    else
      match t.resolve dir.render with
      | .ok key => Path.push (.absolute key) name
      | .error _ => (t.settleParts rooted dotted before).push name

/-- The settled form of a written path. -/
def settle (t : Tree) (written : String) : Path :=
  match t.resolve written with
  | .ok key => .absolute key
  | .error _ =>
    let p := Path.ofString written
    t.settleParts p.rooted p.dotted p.parts.reverse

end Tree

/-- What is watched: settled roots, ignore globs and settled paths that are left out. -/
structure Watcher where
  roots : List Path
  walker : Walker
  exclude : List Path

namespace Watcher

/-- What remains of a path after the path of a directory above it. Everything lies below the
empty path. -/
def rest? (dir path : Path) : Option Path :=
  if dir = ⟨false, false, []⟩ then some path
  else if dir.rooted = path.rooted ∧ dir.dotted = path.dotted ∧ dir.parts.isPrefixOf path.parts then
    some ⟨false, false, path.parts.drop dir.parts.length⟩
  else none

/-- Why a root cannot be watched. The empty path stands for the current directory. -/
def rootFault? (t : Tree) (root : String) : Option WatchError :=
  match t.resolve root with
  | .error fault => if root.isEmpty then none else some ⟨root, fault⟩
  | .ok _ => none

/-- Watches roots, which must exist. -/
def start (t : Tree) (roots ignore exclude : List String) : Except Failure Watcher := do
  match roots.findSome? (rootFault? t) with
  | some error => throw (.watch error)
  | none =>
    let walker ← (Walker.compile ignore).mapError .pattern
    return ⟨roots.map t.settle, walker, exclude.map t.settle⟩

/-- True if a name on the way to a file is hidden. -/
def isHiddenPart (part : String) : Bool :=
  part != Path.parent && Walker.isHidden part

/-- True if a change of a file may change the index. -/
def isRelevant (w : Watcher) (t : Tree) (written : String) : Bool :=
  let path := t.settle written
  if w.exclude.contains path then false
  else
    match w.roots.findSome? (rest? · path) with
    | none => false
    | some rest =>
      !rest.parts.any isHiddenPart && !w.walker.isIgnored rest.render (t.isDir path.render)

end Watcher

end CrossTag
