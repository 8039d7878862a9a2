import CrossTag.Pattern.Glob
import CrossTag.Pattern.Regex.Reader
import CrossTag.Text.Quoted

/-!
# Patterns

Searches, filters and lint rules compare texts with patterns of three kinds: the text itself,
a glob over paths, or a regular expression that may match anywhere. A pattern is compiled
before anything is matched, so a bad pattern is reported before any text is looked at.
-/

namespace CrossTag

/-- The kinds of patterns. -/
inductive PatternKind
  | exact
  | glob
  | regexp
deriving DecidableEq, Repr

/-- Why a pattern cannot be compiled. -/
inductive PatternFault
  | wildcard (error : WildcardError)
  | regex (fault : Regex.Fault)
deriving DecidableEq, Repr

def PatternFault.message : PatternFault → String
  | wildcard error => error.message
  | regex fault => fault.message

inductive PatternError
  /-- There is no kind of patterns with this name. -/
  | unknownKind (name : String)
  | invalid (pattern : String) (fault : PatternFault)
deriving DecidableEq, Repr

def PatternError.message : PatternError → String
  | unknownKind name => "unknown pattern type: " ++ Text.quote name
  | invalid pattern fault =>
    "invalid pattern " ++ Text.quote pattern ++ ": " ++ fault.message

namespace PatternKind

def name : PatternKind → String
  | exact => "exact"
  | glob => "glob"
  | regexp => "regexp"

/-- The kind with a given name. -/
def parse (text : String) : Except PatternError PatternKind :=
  if text = exact.name then .ok exact
  else if text = glob.name then .ok glob
  else if text = regexp.name then .ok regexp
  else .error (.unknownKind text)

end PatternKind

/-- A compiled pattern. -/
inductive Pattern
  | exact (text : String)
  | glob (g : Glob)
  | regexp (r : Regex)

namespace Pattern

/-- Compiles a pattern of a given kind. -/
def compile (kind : PatternKind) (text : String) : Except PatternError Pattern :=
  match kind with
  | .exact => .ok (.exact text)
  | .glob => (Glob.parse text).map .glob |>.mapError fun e => .invalid text (.wildcard e)
  | .regexp =>
    (Regex.parse text.toList).map .regexp |>.mapError fun fault => .invalid text (.regex fault)

/-- True if the pattern matches the text. -/
def isMatch : Pattern → String → Bool
  | exact pattern, text => pattern == text
  | glob g, text => g.isMatch text
  | regexp r, text => r.isMatch text.toList

/-- Compiles a list of patterns; the first bad one is reported. -/
def compileAll (kind : PatternKind) (texts : List String) : Except PatternError (List Pattern) :=
  texts.mapM (compile kind)

/-- True if every pattern matches. -/
def allMatch (patterns : List Pattern) (text : String) : Bool :=
  patterns.all (·.isMatch text)

/-- True if some pattern matches. -/
def anyMatch (patterns : List Pattern) (text : String) : Bool :=
  patterns.any (·.isMatch text)

end Pattern

end CrossTag
