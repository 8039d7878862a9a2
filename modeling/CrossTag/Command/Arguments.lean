import CrossTag.Config

/-!
# Arguments

A command line is a command and its options. Options have long names, and some have a letter as
well; an option that takes a value has it attached or as the next argument, which then must not
look like an option itself. Letters may stand together behind one dash. After two dashes there
are no more options.

Some options belong to every command and may also stand in front of it; if such an option is
given in both places the one behind the command counts. Within one place an option may be given
only once.
-/

namespace CrossTag

/-- How entries are printed. -/
inductive OutputFormat
  | text
  | json
deriving DecidableEq, Repr

/-- What every command may be told. -/
structure GlobalOptions where
  config : String := Config.standardPath
  indexPath : Option String := none
  verbose : Bool := false
  debug : Bool := false
deriving DecidableEq, Repr

/-- What a search is told. -/
structure SearchOptions where
  glob : Bool
  regexp : Bool
  arguments : List String
  format : OutputFormat
deriving DecidableEq, Repr

/-- What resolving is told. -/
structure ResolveRequest where
  loc : String
  content : Option String
  options : ResolveOptions
  format : OutputFormat
deriving DecidableEq, Repr

/-- A command. -/
inductive Action
  | index (roots : List String) (watch : Bool) (pollInterval : Nat)
  | search (options : SearchOptions)
  | resolve (request : ResolveRequest)
  | lint
deriving DecidableEq, Repr

/-- What a command line asks for. -/
inductive Invocation
  | run (global : GlobalOptions) (action : Action)
  | version
  | help
  /-- The command line makes no sense. -/
  | usage
deriving DecidableEq, Repr

namespace Arguments

/-- An option: its long name, its letter, and whether it takes a value. -/
structure OptionSpec where
  long : String
  letter : Option Char := none
  takesValue : Bool := false
deriving DecidableEq, Repr

/-- The options of every command. -/
def globalSpecs : List OptionSpec :=
  [⟨"config", none, true⟩, ⟨"index-path", some 'i', true⟩, ⟨"verbose", some 'v', false⟩,
    ⟨"debug", some 'd', false⟩, ⟨"help", some 'h', false⟩]

/-- The options in front of a command. -/
def topSpecs : List OptionSpec :=
  ⟨"version", some 'V', false⟩ :: globalSpecs

/-- The options of a command. -/
def specsOf (command : String) : List OptionSpec :=
  globalSpecs ++
    match command with
    | "index" => [⟨"watch", some 'w', false⟩, ⟨"poll-interval", none, true⟩]
    | "search" => [⟨"glob", some 'g', false⟩, ⟨"regexp", some 'e', false⟩, ⟨"format", none, true⟩]
    | "resolve" =>
      [⟨"loc", some 'l', true⟩, ⟨"content", some 'c', true⟩, ⟨"next", none, false⟩,
        ⟨"prev", none, false⟩, ⟨"cyclic", none, false⟩, ⟨"format", none, true⟩]
    | _ => []

/-- The command with a given name or short name. -/
def commandNamed? : String → Option String
  | "index" | "i" => some "index"
  | "search" | "s" => some "search"
  | "resolve" | "r" => some "resolve"
  | "lint" | "l" => some "lint"
  | _ => none

/-! ### Options -/

/-- The options given in one place, with the values of those that take one, and all other
arguments. -/
structure Given where
  options : List (String × Option String) := []
  positional : List String := []
deriving DecidableEq, Repr

namespace Given

def has (g : Given) (name : String) : Bool :=
  g.options.any (·.1 == name)

def value? (g : Given) (name : String) : Option String :=
  (g.options.lookup name).join

/-- Adds an option that was not given before. Paths must not be empty. -/
def add (g : Given) (name : String) (value : Option String) : Except Invocation Given :=
  if g.has name then .error .usage
  else if value == some "" && ["config", "index-path"].contains name then .error .usage
  else if name = "version" then .error .version
  else if name = "help" then .error .help
  else .ok { g with options := g.options ++ [(name, value)] }

end Given

/-- What the options in one argument ask for: nothing more, or a value for the named option. -/
abbrev Pending := Option String

/-- Reads a long option. -/
def addLong (specs : List OptionSpec) (g : Given) (cs : List Char) :
    Except Invocation (Given × Pending) :=
  let (name, value) :=
    match Text.splitFirst? '=' cs with
    | some (name, value) => (String.ofList name, some (String.ofList value))
    | none => (String.ofList cs, none)
  match specs.find? (·.long == name) with
  | none => .error .usage
  | some spec =>
    if spec.takesValue then
      match value with
      | some value => (g.add name (some value)).map (·, none)
      | none => .ok (g, some name)
    else if value.isSome then .error .usage
    else (g.add name none).map (·, none)

/-- Reads letters that stand together. -/
def addLetters (specs : List OptionSpec) (g : Given) :
    List Char → Except Invocation (Given × Pending)
  | [] => .ok (g, none)
  | c :: cs =>
    match specs.find? (·.letter == some c) with
    | none => .error .usage
    | some spec =>
      if spec.takesValue then
        match cs with
        | [] => .ok (g, some spec.long)
        | '=' :: value => (g.add spec.long (some (String.ofList value))).map (·, none)
        | value => (g.add spec.long (some (String.ofList value))).map (·, none)
      else
        match g.add spec.long none with
        | .error e => .error e
        | .ok g => addLetters specs g cs

/-- True if an argument has the form of an option. -/
def looksLikeOption (argument : String) : Bool :=
  match argument.toList with
  | '-' :: _ :: _ => true
  | _ => false

/-- Reads arguments until one is the name of a command, if there are commands: the options so
far, the command, and the arguments after it. -/
def read (specs : List OptionSpec) (commands : Bool) (g : Given) :
    List String → Except Invocation (Given × Option String × List String)
  | [] => .ok (g, none, [])
  | argument :: rest =>
    match argument.toList with
    | ['-', '-'] => .ok ({ g with positional := g.positional ++ rest }, none, [])
    | '-' :: c :: cs =>
      let added := if c = '-' then addLong specs g cs else addLetters specs g (c :: cs)
      match added with
      | .error e => .error e
      | .ok (g, none) => read specs commands g rest
      | .ok (g, some name) =>
        match rest with
        | [] => .error .usage
        | value :: rest =>
          if looksLikeOption value then .error .usage
          else
            match g.add name (some value) with
            | .error e => .error e
            | .ok g => read specs commands g rest
    | _ =>
      if commands then
        match commandNamed? argument with
        | some command => .ok (g, some command, rest)
        | none => .error (if argument = "help" then .help else .usage)
      else read specs commands { g with positional := g.positional ++ [argument] } rest

/-! ### Commands -/

/-- A path, which must not be empty. -/
def checkPath (path : String) : Except Invocation String :=
  if path.isEmpty then .error .usage else .ok path

/-- The value of an option, or a standard value. -/
def valueD (g : Given) (name standard : String) : String :=
  (g.value? name).getD standard

/-- A count of seconds. -/
def readSeconds (text : String) : Except Invocation Nat :=
  let digits := (Text.dropStart? ['+'] text.toList).getD text.toList
  if !digits.isEmpty && digits.all Char.isDigit then
    match Text.digitsValue? 10 Text.hexDigit? 0 digits with
    | some n => if n < 18446744073709551616 then .ok n else .error .usage
    | none => .error .usage
  else .error .usage

/-- The name of a format. -/
def readFormat : String → Except Invocation OutputFormat
  | "text" => .ok .text
  | "json" => .ok .json
  | _ => .error .usage

/-- The command that the options behind its name make up. -/
def actionOf (command : String) (g : Given) : Except Invocation Action := do
  match command with
  | "index" =>
    let roots ← g.positional.mapM checkPath
    let pollInterval ← readSeconds (valueD g "poll-interval" "30")
    return .index (if roots.isEmpty then [Path.here] else roots) (g.has "watch") pollInterval
  | "search" =>
    let format ← readFormat (valueD g "format" "text")
    if g.has "glob" && g.has "regexp" then throw .usage
    return .search ⟨g.has "glob", g.has "regexp", g.positional, format⟩
  | "resolve" =>
    let format ← readFormat (valueD g "format" "text")
    if !g.positional.isEmpty then throw .usage
    match g.value? "loc" with
    | none => throw .usage
    | some loc =>
      let options : ResolveOptions := ⟨g.has "next", g.has "prev", g.has "cyclic"⟩
      return .resolve ⟨loc, g.value? "content", options, format⟩
  | _ =>
    if !g.positional.isEmpty then throw .usage
    return .lint

/-- The options of every command; `inner` are those behind the command. -/
def globalOf (outer inner : Given) : GlobalOptions :=
  let value? (name : String) : Option String := (inner.value? name).or (outer.value? name)
  let has (name : String) : Bool := inner.has name || outer.has name
  ⟨(value? "config").getD Config.standardPath, value? "index-path", has "verbose", has "debug"⟩

/-- Reads a command line. -/
def invocation (arguments : List String) : Except Invocation Invocation := do
  let (outer, command, rest) ← read topSpecs true {} arguments
  match command with
  | none => throw .usage
  | some command =>
    let (inner, _, _) ← read (specsOf command) false {} rest
    let action ← actionOf command inner
    return .run (globalOf outer inner) action

/-- What a command line asks for. -/
def parse (arguments : List String) : Invocation :=
  match invocation arguments with
  | .ok result => result
  | .error result => result

end Arguments

end CrossTag
