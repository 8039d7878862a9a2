import CrossTag.Config
import CrossTag.Index.Store

/-!
# Queries on an index

The questions that can be asked about the tags of a project: which entries match a search, and
what the tag at a place refers to. Both are answered from an index, which is read from a file or
built when there is no file.
-/

namespace CrossTag

/-- What is known about a project while a command runs: its files, what comes in over the
standard stream, and the configuration. -/
structure Project where
  tree : Tree
  input : Bytes := []
  config : Config := {}

namespace Project

/-- The index to query: the one at an explicit path, or else the stored one, or else one that
is built for the occasion. -/
def loadIndex (p : Project) (path : Option String) : Except Failure Index :=
  match path with
  | some path => Store.read p.tree p.input path
  | none =>
    if p.config.ignoreIndex then buildIndex p.tree [Path.here] p.config.scanner
    else
      match Store.read p.tree p.input Config.standardIndexPath with
      | .ok index => .ok index
      | .error failure =>
        if failure.isNotFound then buildIndex p.tree [Path.here] p.config.scanner
        else .error failure

end Project

/-! ### Searching -/

namespace Search

/-- The attribute for the kind of patterns that the flags ask for. -/
def kindAttrs (glob regexp : Bool) : Attrs :=
  if glob then Attrs.empty.insert Entry.searchKey PatternKind.glob.name
  else if regexp then Attrs.empty.insert Entry.searchKey PatternKind.regexp.name
  else .empty

/-- Reads the arguments of a search: those with an equals sign are attributes, and at most one
other is the name. -/
def readArguments (name : Option String) (attrs : Attrs) :
    List String → Except UsageError (Option String × Attrs)
  | [] => .ok (name, attrs)
  | argument :: rest =>
    match Text.splitFirst? '=' argument.toList with
    | some (key, value) =>
      let key := String.ofList key
      if attrs.contains key then .error (.repeatedAttr key)
      else readArguments name (attrs.insert key (String.ofList value)) rest
    | none =>
      if name.isSome then .error .repeatedName else readArguments (some argument) attrs rest

/-- The query that flags and arguments stand for. -/
def entry (glob regexp : Bool) (arguments : List String) : Except UsageError Entry := do
  if glob && regexp then throw .conflictingKinds
  let (name, attrs) ← readArguments none (kindAttrs glob regexp) arguments
  let attrs :=
    if attrs.contains Entry.searchKey then attrs
    else attrs.insert Entry.searchKey PatternKind.exact.name
  return ⟨name.getD "", attrs, ⟨"", 0, 0, 0⟩⟩

end Search

/-- The entries that a search finds. The query is compiled before the index is looked at. -/
def Project.search (p : Project) (indexPath : Option String) (glob regexp : Bool)
    (arguments : List String) : Except Failure (List Entry) := do
  let what ← (Search.entry glob regexp arguments).mapError .usage
  let query ← what.query.mapError .pattern
  let index ← p.loadIndex indexPath
  return index.entries.filter query.accepts

/-! ### Resolving -/

/-- What the tag at a place refers to. The text of the tag is given, or it is read from the
file. -/
def Project.resolveAt (p : Project) (indexPath : Option String) (loc : String)
    (content : Option String) (options : ResolveOptions) : Except Failure Resolution := do
  let _ ← options.mode.mapError .resolve
  let cursor ← (Location.parse loc).mapError .location
  let cursor := { cursor with path := Path.display cursor.path }
  let element : Element ←
    match content with
    | some text => pure ⟨text, cursor⟩
    | none => elementAt p.tree p.config.scanner.bracket cursor
  let what ← (Tag.parse element.text element.loc).mapError .tag
  let index ← p.loadIndex indexPath
  (index.resolve what options).mapError .resolve

end CrossTag
