import CrossTag.Build
import CrossTag.Yaml.Node

/-!
# Configurations

A configuration says what to scan for, which rules to check, and whether to trust a stored
index. It is a document with nested sections, all of which may be left out. Sections that are
there but empty count as left out, keys that mean nothing are passed over, and a key that means
something must not come twice. A text without any content is the standard configuration.
-/

namespace CrossTag

/-- The configuration of a project. -/
structure Config where
  /-- Never read a stored index. -/
  ignoreIndex : Bool := false
  scanner : ScanOptions := {}
  rules : List Rule := []
deriving DecidableEq, Repr

namespace Config

/-- The directory for what belongs to a project. -/
def projectDir : String := ".tagref"

/-- Where the configuration is, unless another place is given. -/
def standardPath : String := projectDir ++ "/config.yaml"

/-- Where the index is, unless another place is given. -/
def standardIndexPath : String := projectDir ++ "/index"

/-! ### Values -/

/-- Any scalar is a text. -/
def asText : Yaml.Node → Except Yaml.Fault String
  | .scalar text _ _ => .ok text
  | _ => .error (.wrongKind "a string")

/-- Truth values are plain words. -/
def asBool : Yaml.Node → Except Yaml.Fault Bool
  | .scalar text true _ =>
    if ["true", "True", "TRUE"].contains text then .ok true
    else if ["false", "False", "FALSE"].contains text then .ok false
    else .error (.wrongKind "a boolean")
  | _ => .error (.wrongKind "a boolean")

/-- True for the plain words that stand for no value. -/
def isNull (text : String) : Bool :=
  ["", "null", "Null", "NULL", "~"].contains text

/-- A text that may be missing. -/
def asOptionalText : Yaml.Node → Except Yaml.Fault (Option String)
  | .scalar text plain tagged =>
    .ok (if plain && !tagged && isNull text then none else some text)
  | _ => .error (.wrongKind "a string")

/-- A sequence; a value that is left out is the empty one. -/
def asList : Yaml.Node → Except Yaml.Fault (List Yaml.Node)
  | .sequence items => .ok items
  | .scalar "" true _ => .ok []
  | _ => .error (.wrongKind "a sequence")

/-- A mapping with texts as keys; a value that is left out is the empty one. -/
def asFields : Yaml.Node → Except Yaml.Fault (List (String × Yaml.Node))
  | .mapping pairs => pairs.mapM fun (key, value) => do return (← asText key, value)
  | .scalar "" true _ => .ok []
  | _ => .error (.wrongKind "a mapping")

/-- The value under a key, read in a given way, or a standard value. -/
def field {α : Type} (fields : List (String × Yaml.Node)) (key : String)
    (read : Yaml.Node → Except Yaml.Fault α) (standard : α) : Except Yaml.Fault α :=
  match fields.filter (·.1 == key) with
  | [] => .ok standard
  | [(_, value)] => read value
  | _ => .error (.repeatedKey key)

def asTexts (n : Yaml.Node) : Except Yaml.Fault (List String) := do
  (← asList n).mapM asText

def asBracket (n : Yaml.Node) : Except Yaml.Fault Bracket := do
  let fields ← asFields n
  let left ← field fields "left" asText Bracket.standard.left
  let right ← field fields "right" asText Bracket.standard.right
  return ⟨left, right⟩

def asScanOptions (n : Yaml.Node) : Except Yaml.Fault ScanOptions := do
  let fields ← asFields n
  let bracket ← field fields "bracket" asBracket .standard
  let ignore ← field fields "ignore" asTexts []
  return ⟨bracket, ignore⟩

def asRule (n : Yaml.Node) : Except Yaml.Fault Rule := do
  let fields ← asFields n
  let name ← field fields "name" asText ""
  let pathGlob ← field fields "path-glob" asOptionalText none
  let pathRegex ← field fields "path-re" asOptionalText none
  let shell ← field fields "shell" asTexts []
  return ⟨name, pathGlob, pathRegex, shell⟩

def asRules (n : Yaml.Node) : Except Yaml.Fault (List Rule) := do
  (← asList n).mapM asRule

def asLinter (n : Yaml.Node) : Except Yaml.Fault (List Rule) := do
  field (← asFields n) "rules" asRules []

def ofNode (n : Yaml.Node) : Except Yaml.Fault Config := do
  let fields ← asFields n
  let ignoreIndex ← field fields "ignore-index" asBool false
  let scanner ← field fields "scanner" asScanOptions {}
  let rules ← field fields "linter" asLinter []
  return ⟨ignoreIndex, scanner, rules⟩

/-! ### Files -/

/-- True if a line of a document has no content. -/
def isEmptyLine (line : List Char) : Bool :=
  match Text.trim line with
  | [] => true
  | c :: _ => c == '#'

/-- Reads the text of a configuration. -/
def parse (text : String) : Except ConfigError Config := do
  if (text.toList.splitOn '\n').all isEmptyLine then return {}
  let config ← (Yaml.parse text >>= ofNode).mapError fun fault => .malformed fault.message
  Rule.validateAll 0 config.rules |>.mapError .rule
  return { config with scanner.bracket := config.scanner.bracket.orStandard }

/-- Reads the configuration in a file; without the file it is the standard one. -/
def load (t : Tree) (path : String) : Except ConfigError Config :=
  match t.contentOf path with
  | .error .notFound => .ok {}
  | .error fault => .error (.unreadable path (.fault fault))
  | .ok bytes =>
    match bytes.toString? with
    | none => .error (.unreadable path .notText)
    | some text => parse text

end Config

end CrossTag
