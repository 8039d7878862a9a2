import CrossTag.Command.Arguments
import CrossTag.Command.Search
import CrossTag.Shell.Run
import CrossTag.Text.Json

/-!
# Commands

A command line is carried out on a tree of files. The outcome is the tree afterwards, what was
printed, and how the command ended: well, with violations of lint rules, or with a failure. A
failure is reported with what the command was doing and with its causes, one below the other.
-/

namespace CrossTag

/-- The name and version of the program. -/
def programVersion : String := "tagref 0.1.0"

/-! ### Printing entries -/

/-- An entry as it is printed in JSON. -/
def Entry.toJson (e : Entry) : Json :=
  let attrs := e.attrs.pairs.map fun (key, value) => (key, Json.text value)
  .object ([("name", .text e.name)]
    ++ (if attrs.isEmpty then [] else [("attrs", .object attrs)])
    ++ [("loc", .object [("path", .text e.loc.path), ("line", .number e.loc.line.toNat),
      ("start_column", .number e.loc.startColumn.toNat),
      ("end_column", .number e.loc.endColumn.toNat)])])

/-- Entries in a format. -/
def OutputFormat.print (format : OutputFormat) (entries : List Entry) : String :=
  match format with
  | .text => String.join (entries.map fun e => Record.encode e ++ "\n")
  | .json => (Json.array (entries.map Entry.toJson)).render 0 ++ "\n"

/-! ### Outcomes -/

/-- How a command ends. -/
inductive Ending
  | success
  /-- Some entries break lint rules. -/
  | violations
  | failure (doing : String) (failure : Failure)
  /-- The command line makes no sense. -/
  | usage
deriving DecidableEq, Repr

/-- What a command leaves behind. -/
structure Outcome where
  tree : Tree
  output : String := ""
  /-- Messages besides the output. -/
  notes : String := ""
  ending : Ending := .success

namespace Ending

/-- The exit status. -/
def code : Ending → Nat
  | success => 0
  | violations => 2
  | failure .. => 1
  | usage => 2

/-- Puts `rest` in front of every line but the first, and `first` in front of that. -/
def indentLines (first rest text : String) : String :=
  first ++ ("\n" ++ rest).intercalate ((text.toList.splitOn '\n').map String.ofList)

/-- A list of causes: a single one stands alone, several are numbered. -/
def renderCauses (causes : List String) : String :=
  match causes with
  | [cause] => indentLines "    " "    " cause ++ "\n"
  | causes =>
    String.join ((causes.zip (List.range causes.length)).map fun (cause, i) =>
      indentLines ("    " ++ toString i ++ ": ") "       " cause ++ "\n")

/-- What is reported at the end. -/
def report : Ending → String
  | success => ""
  | violations => "violations found\n"
  | failure doing f =>
    "Error: " ++ doing ++ "\n\nCaused by:\n" ++ renderCauses (f.message :: f.causes)
  | usage => "usage: tagref [options] <index|search|resolve|lint> [arguments]\n"

end Ending

/-- Everything that is written besides the output. -/
def Outcome.messages (o : Outcome) : String :=
  o.notes ++ o.ending.report

/-- The outcome of a command that changes nothing and may fail. -/
def Outcome.ofPrinting (tree : Tree) (doing : String) (printed : Except Failure String) :
    Outcome :=
  match printed with
  | .ok output => { tree := tree, output := output }
  | .error f => { tree := tree, ending := .failure doing f }

/-! ### The commands -/

/-- Builds the index of some roots and stores it. -/
def Project.index (p : Project) (indexPath : Option String) (roots : List String) : Outcome :=
  let target := indexPath.getD Config.standardIndexPath
  match buildIndex p.tree roots p.config.scanner with
  | .error f => { tree := p.tree, ending := .failure "index" f }
  | .ok index =>
    let notes := "Indexed " ++ toString index.size ++ " tags\n"
    if target = Store.standardStream then
      { tree := p.tree, output := index.serialize programVersion, notes := notes }
    else
      match Store.write p.tree target index programVersion with
      | (tree, .ok ()) => { tree := tree, notes := notes }
      | (tree, .error fault) =>
        { tree := tree, ending := .failure "index" (.file (.fault fault)) }

/-- Checks entries one by one: the violations that were found, and the error that ended the
check early. -/
def lintEntries (linter : Linter) (executor : Executor Id) :
    List Entry → List (Location × String) × Option LintError
  | [] => ([], none)
  | e :: rest =>
    match Id.run (linter.lint executor e) with
    | .error error => ([], some error)
    | .ok fails =>
      let (violations, error) := lintEntries linter executor rest
      (fails.map (fun i => (e.loc, linter.ruleName i)) ++ violations, error)

/-- Checks all entries of the index. -/
def Project.lint (p : Project) (indexPath : Option String) : Outcome :=
  let prepared : Except Failure (Linter × Index) := do
    let linter ← (Linter.ofRules p.config.rules).mapError fun e => .config (.rule e)
    return (linter, ← p.loadIndex indexPath)
  match prepared with
  | .error f => { tree := p.tree, ending := .failure "lint" f }
  | .ok (linter, index) =>
    let (violations, error) := lintEntries linter (Shell.executor p.tree) index.entries
    let output := String.join (violations.map fun (loc, rule) => loc.render ++ " " ++ rule ++ "\n")
    match error with
    | some error => { tree := p.tree, output := output, ending := .failure "lint" (.lint error) }
    | none =>
      { tree := p.tree, output := output,
        ending := if violations.isEmpty then .success else .violations }

/-- Carries out a command on a project. -/
def Project.run (p : Project) (indexPath : Option String) : Action → Outcome
  | .index roots _ _ => p.index indexPath roots
  | .search options =>
    .ofPrinting p.tree "search"
      ((p.search indexPath options.glob options.regexp options.arguments).map options.format.print)
  | .resolve request =>
    .ofPrinting p.tree "resolve"
      ((p.resolveAt indexPath request.loc request.content request.options).map
        fun resolution => request.format.print resolution.entries)
  | .lint => p.lint indexPath

/-- Carries out a command line. -/
def runCommand (tree : Tree) (input : Bytes) (arguments : List String) : Outcome :=
  match Arguments.parse arguments with
  | .usage => { tree := tree, ending := .usage }
  | .help => { tree := tree, output := Ending.usage.report }
  | .version => { tree := tree, output := programVersion ++ "\n" }
  | .run global action =>
    match Config.load tree global.config with
    | .error e => { tree := tree, ending := .failure ("config " ++ global.config) (.config e) }
    | .ok config => Project.run ⟨tree, input, config⟩ global.indexPath action

end CrossTag
