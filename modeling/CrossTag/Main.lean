import CrossTag.Command.Run

/-!
# The program

Takes a picture of the files below the current directory, carries out the command line on it,
and then prints what was printed and stores what was changed.
-/

namespace CrossTag.Program

/-- The names along a path that starts at the root. -/
def namesOf (path : String) : List String :=
  (Path.ofString path).parts

/-- The path with the given names. -/
def pathOf (names : List String) : String :=
  (Path.absolute names).render

/-- Reads everything below a directory. What cannot be read is left out, and links are not
followed. -/
partial def readBelow (names : List String) : IO (List (List String × Node)) := do
  let dir := (← IO.currentDir).join (pathOf names)
  let entries ← try dir.readDir catch _ => pure #[]
  let mut nodes := #[]
  for entry in entries do
    let here := names ++ [entry.fileName]
    let kind ← try (·.type) <$> entry.path.symlinkMetadata catch _ => pure .other
    match kind with
    | .dir =>
      nodes := nodes.push (here, Node.dir)
      nodes := nodes ++ (← readBelow here).toArray
    | .file =>
      try
        let data ← IO.FS.readBinFile entry.path
        nodes := nodes.push (here, Node.file data.toList)
      catch _ => pure ()
    | _ => pure ()
  return nodes.toList

/-- The directories above a place and the place itself, outermost first. -/
def lineage (names : List String) : List (List String) :=
  (List.range names.length).map fun i => names.take (i + 1)

/-- A picture of the files below the current directory. -/
def snapshot : IO Tree := do
  let current := namesOf (← IO.currentDir).toString
  let above := (lineage current).map (·, Node.dir)
  return { nodes := above ++ (← readBelow current), current := current }

/-- Stores what differs from an earlier picture: a file is written next to its place and then
put there. -/
def store (before after : Tree) : IO Unit := do
  for (names, node) in after.nodes do
    if before.node? names != some node then
      match node with
      | .dir => IO.FS.createDirAll (pathOf names)
      | .file data =>
        let draft := pathOf names ++ ".draft"
        IO.FS.writeBinFile draft (ByteArray.mk data.toArray)
        IO.FS.rename draft (pathOf names)

/-- The bytes of the standard stream, read only if an argument asks for it. -/
def readInput (arguments : List String) : IO Bytes := do
  if arguments.any fun argument => argument.toList.getLast? == some '-' then
    return (← (← IO.getStdin).readBinToEnd).toList
  else return []

end CrossTag.Program

/-- Carries out the command line. -/
def main (arguments : List String) : IO UInt32 := do
  let before ← CrossTag.Program.snapshot
  let input ← CrossTag.Program.readInput arguments
  let outcome := CrossTag.runCommand before input arguments
  CrossTag.Program.store before outcome.tree
  IO.print outcome.output
  IO.eprint outcome.messages
  return outcome.ending.code.toUInt32
