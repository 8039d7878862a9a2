import CrossTag.Files.Tree
import CrossTag.Index.Resolve
import CrossTag.Index.Text
import CrossTag.Lint.Basic
import CrossTag.Scan

/-!
# Failures

Whatever can go wrong between reading files and answering a question is one of the failures
collected here. Each has one text that says what went wrong. Failures that pass on the error of
a part of the program name it again as their cause, so that a report can list the causes one
by one.
-/

namespace CrossTag

/-- Why files cannot be read or written. -/
inductive FileError
  | fault (fault : FileFault)
  /-- There is nothing where a search should start. -/
  | missingRoot (root : String)
  /-- Bytes that should be text are not. -/
  | notText
deriving DecidableEq, Repr

namespace FileError

def message : FileError → String
  | fault f => f.message
  | missingRoot root => root ++ ": no such file or directory"
  | notText => notTextMessage

/-- True if the error only says that there is no such file. -/
def isNotFound : FileError → Bool
  | fault .notFound => true
  | missingRoot _ => true
  | _ => false

end FileError

/-- What is wrong with a configuration. -/
inductive ConfigError
  /-- One of two delimiters is empty. -/
  | bracket (bracket : Bracket)
  | rule (error : RuleError)
  | unreadable (path : String) (error : FileError)
  /-- The file is no document of the expected form. -/
  | malformed (reason : String)
deriving DecidableEq, Repr

def ConfigError.message : ConfigError → String
  | bracket b =>
    "invalid bracket " ++ Text.quote b.left ++ " " ++ Text.quote b.right
      ++ ": both delimiters are required"
  | rule error => error.message
  | unreadable path error => "read " ++ path ++ ": " ++ error.message
  | malformed reason => "invalid config file: " ++ reason

/-- What is wrong with the arguments of a search. -/
inductive UsageError
  | conflictingKinds
  | repeatedAttr (key : String)
  | repeatedName
deriving DecidableEq, Repr

def UsageError.message : UsageError → String
  | conflictingKinds => "--glob and --regexp are mutually exclusive"
  | repeatedAttr key => "attribute " ++ Text.quote key ++ " already specified"
  | repeatedName => "name already specified"

/-- A root that cannot be watched. -/
structure WatchError where
  root : String
  fault : FileFault
deriving DecidableEq, Repr

def WatchError.message (e : WatchError) : String :=
  e.root ++ ": " ++ if e.fault = .notFound then "No path was found." else e.fault.message

/-- Everything that can go wrong. -/
inductive Failure
  | file (error : FileError)
  | element (error : ElementError)
  | tag (error : TagError)
  | pattern (error : PatternError)
  | format (fault : IndexFault)
  | resolve (error : ResolveError)
  | location (error : LocationError)
  | scan (fault : Scan.Fault)
  | config (error : ConfigError)
  | usage (error : UsageError)
  | lint (error : LintError)
  | watch (error : WatchError)
deriving DecidableEq, Repr

namespace Failure

/-- The failure of reading an index: lines that are not text are a matter of the file. -/
def ofIndexFault : IndexFault → Failure
  | .notText => file .notText
  | fault => format fault

/-- What went wrong. -/
def message : Failure → String
  | file error => "IO error: " ++ error.message
  | element error => error.message
  | tag error => "Parse error: " ++ error.message
  | pattern error => "Match error: " ++ error.message
  | format fault => "Index format error: " ++ fault.message
  | resolve error => "Resolve error: " ++ error.message
  | location error => "Location error: " ++ error.message
  | scan fault => fault.message
  | config error => "Config error: " ++ error.message
  | usage error => error.message
  | lint error => "Lint error: " ++ error.message
  | watch error => "Watcher error: " ++ error.message

/-- What lies behind the failure, the nearest cause first. -/
def causes : Failure → List String
  | file error => [error.message]
  | element error => [error.cause.message]
  | tag error => [error.message]
  | pattern error => [error.message]
  | format fault => [fault.message]
  | resolve (.invalidSearch cause) => [(ResolveError.invalidSearch cause).message, cause.message]
  | resolve error => [error.message]
  | location error => [error.message]
  | scan _ | config _ | usage _ | lint _ | watch _ => []

/-- True if the failure only says that there is no such file. -/
def isNotFound : Failure → Bool
  | file error => error.isNotFound
  | _ => false

end Failure

end CrossTag
