import CrossTag.Index.Basic
import CrossTag.Record
import CrossTag.Text.Utf8

/-!
# Indexes as text

An index is written as a header line and one record per line, in the order of the index. The
header starts with a version marker, so that a file of another version is not read as this one;
what follows the marker is a comment.

Reading goes line by line. Blank lines are passed over, the first line that is not blank must be
a header, and every other line must be a record. Reading stops at the first line that is not as
it should be, and answers the entries before it together with the reason.
-/

namespace CrossTag

/-- Why a text is not an index. -/
inductive IndexFault
  | missingVersionMarker
  | malformedRecord (line : Nat) (reason : RecordError)
  /-- A line is not encoded text. -/
  | notText
deriving DecidableEq, Repr

/-- The text for bytes that cannot be decoded. -/
def notTextMessage : String := "stream did not contain valid UTF-8"

def IndexFault.message : IndexFault → String
  | missingVersionMarker => "missing or incompatible index version marker - please reindex"
  | malformedRecord line reason => "index line " ++ toString line ++ ": " ++ reason.message
  | notText => notTextMessage

namespace Index

/-- The start of the first line of an index. -/
def versionMarker : String := "# v4"

/-- The header with a comment. -/
def header (comment : String) : String :=
  if comment.isEmpty then versionMarker else versionMarker ++ " " ++ comment

/-- True if a line is a header. -/
def isHeader (line : List Char) : Bool :=
  match Text.dropStart? versionMarker.toList line with
  | some [] => true
  | some (c :: _) => c == ' '
  | none => false

/-- The lines of an index. -/
def lines (index : Index) (comment : String) : List String :=
  header comment :: index.entries.map Record.encode

/-- The text of an index. -/
def serialize (index : Index) (comment : String) : String :=
  String.join ((index.lines comment).map (· ++ "\n"))

/-! ### Reading -/

/-- What was read: entries in the order of their lines, and why reading stopped early. -/
structure Reading where
  entries : List Entry
  fault : Option IndexFault
deriving DecidableEq

/-- Reads lines, `none` for one that is not text. `headed` says whether the header was seen and
`number` is the number of the next line. -/
def readLines : (headed : Bool) → (number : Nat) → List (Option (List Char)) → Reading
  | headed, _, [] => ⟨[], if headed then none else some .missingVersionMarker⟩
  | _, _, none :: _ => ⟨[], some .notText⟩
  | headed, number, some line :: rest =>
    let text := Text.trim line
    if text.isEmpty then readLines headed (number + 1) rest
    else if headed then
      match Record.decode (String.ofList text) with
      | .error reason => ⟨[], some (.malformedRecord number reason)⟩
      | .ok entry =>
        let reading := readLines true (number + 1) rest
        ⟨entry :: reading.entries, reading.fault⟩
    else if isHeader text then readLines true (number + 1) rest
    else ⟨[], some .missingVersionMarker⟩

/-- The index of what was read, if reading reached the end. -/
def Reading.toIndex (reading : Reading) : Except IndexFault Index :=
  match reading.fault with
  | some fault => .error fault
  | none => .ok (ofList reading.entries)

/-- Reads the text of an index. -/
def readText (text : String) : Reading :=
  readLines false 1 ((text.toList.splitOn '\n').map some)

/-- Reads the bytes of an index. -/
def readBytes (bytes : Bytes) : Reading :=
  readLines false 1 ((bytes.splitOn 10).map Text.decode?)

/-- The index that a text stands for. -/
def deserialize (text : String) : Except IndexFault Index :=
  (readText text).toIndex

end Index

end CrossTag
