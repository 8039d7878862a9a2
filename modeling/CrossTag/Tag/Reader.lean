import CrossTag.Entry
import CrossTag.Tag.Token

/-!
# Reading tags

A tag has a name, with attributes before and after it:

    [?[g|gl|e|re]] [@key[=value] ...] [./|.]name [key[=value] ...]

Before the name an attribute is marked by `@`, and a word that starts with `?` says that the
tag is a query and of which kind. The name may be quoted. An unquoted name that starts with
`.` is scoped to its file, and one that starts with `./` to its directory.

Attributes are set from left to right, and the first one that cannot be set is reported: its
key is checked first, then whether it is set already, then its value. The name of a query by
glob or regular expression is a pattern and may be any text; other names are restricted.
-/

namespace CrossTag

/-- Why a text is not a tag. -/
inductive TagError
  | emptyElement
  | duplicateAttribute (key value : String)
  | invalidAttributeName (name : String)
  | invalidName (name : String)
  | invalidQuoting (fault : QuotingFault)
  | unknownSearchType (name : String)
deriving DecidableEq, Repr

def TagError.message : TagError → String
  | emptyElement => "empty element"
  | duplicateAttribute key value =>
    "attribute " ++ Text.quote key ++ " already set to " ++ Text.quote value
  | invalidAttributeName name => "invalid attribute name: " ++ Text.quote name
  | invalidName name => "invalid name: " ++ Text.quote name
  | invalidQuoting fault => "invalid quotes: " ++ fault.message
  | unknownSearchType name => "invalid search type: " ++ Text.quote name

namespace Tag

/-! ### Names and keys -/

/-- A letter, a digit or an underscore. -/
def isNameStart (c : Char) : Bool :=
  c.isAlphanum || c == '_'

def isKeyChar (c : Char) : Bool :=
  isNameStart c || c == ':' || c == '-'

def isNameChar (c : Char) : Bool :=
  isKeyChar c || c == '.' || c == '/'

/-- Starts with a name character and goes on with characters of a given kind. -/
def startsAndGoesOn (goesOn : Char → Bool) : List Char → Bool
  | [] => false
  | c :: cs => isNameStart c && cs.all goesOn

/-- A text that can be the key of an attribute. -/
def isKey (cs : List Char) : Bool :=
  startsAndGoesOn isKeyChar cs

/-- A text that can be the name of a tag. -/
def isName (cs : List Char) : Bool :=
  startsAndGoesOn isNameChar cs

/-! ### Attributes -/

/-- The directory of a path, with a separator at its end; at the top there is none. -/
def containingDir? (path : String) : Option String :=
  (Text.splitLast? separator path.toList).map fun (before, _) =>
    String.ofList (before ++ [separator])

/-- The kind of query that the value of a `search` attribute asks for. -/
def searchKind? (value : String) : Option PatternKind :=
  if value = "" ∨ value = "exact" then some .exact
  else if value = "g" ∨ value = "gl" then some .glob
  else if value = "e" ∨ value = "re" then some .regexp
  else none

/-- The value that an attribute of a tag at `path` gets, or `none` if it is left out. Scopes
relative to the file are spelled out; a file at the top needs no scope for its directory. -/
def storedValue (path key value : String) : Except TagError (Option String) :=
  if key = Entry.scopeKey then
    if value = "." then .ok (some path)
    else if value = "./" then .ok (containingDir? path)
    else .ok (some value)
  else if key = Entry.searchKey then
    match searchKind? value with
    | some kind => .ok (some kind.name)
    | none => .error (.unknownSearchType value)
  else .ok (some value)

/-- Sets one attribute of a tag at `path`. -/
def setAttr (path : String) (attrs : Attrs) (key value : String) : Except TagError Attrs :=
  if isKey key.toList then
    match attrs.get? key with
    | some old => .error (.duplicateAttribute key old)
    | none =>
      match storedValue path key value with
      | .error e => .error e
      | .ok none => .ok attrs
      | .ok (some stored) => .ok (attrs.insert key stored)
  else .error (.invalidAttributeName key)

/-- The text of a token that stands as a value. -/
def Token.asValue : Token → String
  | word text => String.ofList text
  | quoted text => String.ofList text
  | equals => "="

/-! ### The name -/

/-- True if names are patterns: in a query by glob or regular expression. -/
def namesArePatterns (attrs : Attrs) : Bool :=
  attrs.get? Entry.searchKey == some PatternKind.glob.name
    || attrs.get? Entry.searchKey == some PatternKind.regexp.name

/-- Sets the scope that an unquoted name starts with and returns the name without it. -/
def takeScope (path : String) (attrs : Attrs) (name : List Char) :
    Except TagError (Attrs × List Char) :=
  match name with
  | '.' :: '/' :: rest => (setAttr path attrs Entry.scopeKey "./").map fun attrs => (attrs, rest)
  | '.' :: rest => (setAttr path attrs Entry.scopeKey ".").map fun attrs => (attrs, rest)
  | _ => .ok (attrs, name)

/-- Checks a name that has no scope in front of it. -/
def checkName (attrs : Attrs) (name : List Char) : Except TagError String :=
  if namesArePatterns attrs || isName name then .ok (String.ofList name)
  else .error (.invalidName (String.ofList name))

/-! ### Tags -/

/-- Reads the attributes after the name. -/
def readTrailing (path : String) (attrs : Attrs) : List Token → Except TagError Attrs
  | [] => .ok attrs
  | .word key :: .equals :: value :: rest => do
    let attrs ← setAttr path attrs (String.ofList key) value.asValue
    readTrailing path attrs rest
  | [.word key, .equals] => setAttr path attrs (String.ofList key) ""
  | .word key :: rest => do
    let attrs ← setAttr path attrs (String.ofList key) ""
    readTrailing path attrs rest
  | .quoted text :: _ => .error (.invalidAttributeName (Text.quote (String.ofList text)))
  | .equals :: _ => .error (.invalidAttributeName "=")

/-- Reads a tag from the attributes before its name on. -/
def readLeading (path : String) (attrs : Attrs) : List Token → Except TagError (String × Attrs)
  | [] => .error (.invalidName "")
  | .word ('?' :: kind) :: rest => do
    let attrs ← setAttr path attrs Entry.searchKey (String.ofList kind)
    readLeading path attrs rest
  | .word ('@' :: key) :: .equals :: value :: rest => do
    let attrs ← setAttr path attrs (String.ofList key) value.asValue
    readLeading path attrs rest
  | [.word ('@' :: key), .equals] => do
    let _ ← setAttr path attrs (String.ofList key) ""
    .error (.invalidName "")
  | .word ('@' :: key) :: rest => do
    let attrs ← setAttr path attrs (String.ofList key) ""
    readLeading path attrs rest
  | .word text :: rest => do
    let (attrs, text) ← takeScope path attrs text
    let name ← checkName attrs text
    let attrs ← readTrailing path attrs rest
    return (name, attrs)
  | .quoted text :: rest => do
    let name ← checkName attrs text
    let attrs ← readTrailing path attrs rest
    return (name, attrs)
  | .equals :: _ => .error (.invalidName "=")

/-- Reads a tag found at a location. -/
def parse (text : String) (loc : Location) : Except TagError Entry := do
  let tokens ← (tokenize text.toList).mapError .invalidQuoting
  if tokens.isEmpty then throw .emptyElement
  let (name, attrs) ← readLeading loc.path Attrs.empty tokens
  return ⟨name, attrs, loc⟩

end Tag

end CrossTag
