import CrossTag.Tag.Element
import CrossTag.Text.Utf8

/-!
# Scanning files

Tags stand between two delimiters on one line. A line is searched from the left: a match starts
at the first left delimiter and ends at the first right delimiter that has at least one character
before it, and the search goes on after it. Columns count the bytes of the line as it is read,
with U+FFFD for what is not text.

An element that starts with a percent sign is a pragma. Between `%stop` and `%cont` elements are
left out, and `%stop!` ends the file. Pragmas are checked wherever they stand.
-/

namespace CrossTag

/-- The delimiters around tags. -/
structure Bracket where
  left : String := "[#"
  right : String := "#]"
deriving DecidableEq, Repr, Inhabited

namespace Bracket

/-- The delimiters that are used unless others are given. -/
def standard : Bracket := {}

/-- The standard delimiters in place of a pair that is empty on both sides. -/
def orStandard (b : Bracket) : Bracket :=
  if b.left.isEmpty && b.right.isEmpty then standard else b

/-- Delimiters that can be searched for: neither is empty. -/
def isUsable (b : Bracket) : Bool :=
  !b.left.isEmpty && !b.right.isEmpty

end Bracket

namespace Scan

/-! ### Lines -/

/-- Drops a carriage return at the end. -/
def dropReturn (line : Bytes) : Bytes :=
  match line.reverse with
  | 13 :: rest => rest.reverse
  | _ => line

/-- The lines among pieces that were separated by line feeds. Only the last piece has no line
feed after it; it keeps a carriage return, and counts only if it is not empty. -/
def linesOf : List Bytes → List Bytes
  | [] => []
  | [last] => if last.isEmpty then [] else [last]
  | piece :: pieces => dropReturn piece :: linesOf pieces

/-- The lines of a file. -/
def lines (data : Bytes) : List Bytes :=
  linesOf (data.splitOn 10)

/-! ### Matches -/

/-- A match on a line: the bytes before it, the bytes up to its end, and what stands between
the delimiters. -/
structure Match where
  start : Nat
  stop : Nat
  inner : List Char
deriving DecidableEq, Repr

/-- The first match in a text: what stands before it, between its delimiters and after it. -/
def firstMatch? (left right cs : List Char) : Option (List Char × List Char × List Char) :=
  match Text.cutAt? left cs with
  | none => none
  | some (_, []) => none
  | some (before, c :: rest) =>
    match Text.cutAt? right rest with
    | none => none
    | some (inner, after) => some (before, c :: inner, after)

/-- What follows a match is shorter than the text. -/
theorem length_after_firstMatch? {left right cs before inner after : List Char}
    (h : firstMatch? left right cs = some (before, inner, after)) : after.length < cs.length := by
  unfold firstMatch? at h
  split at h
  · cases h
  · cases h
  · rename_i b c rest hleft
    split at h
    · cases h
    · rename_i i a hright
      cases h
      have h₁ := Text.length_after_cutAt? hleft
      have h₂ := Text.length_after_cutAt? hright
      simp only [List.length_cons] at h₁
      omega

/-- All matches in a text that starts at byte `offset` of its line. -/
def allMatches (left right : List Char) (offset : Nat) (cs : List Char) : List Match :=
  match h : firstMatch? left right cs with
  | none => []
  | some (before, inner, after) =>
    have := length_after_firstMatch? h
    let start := offset + Text.byteLength before
    let stop := start + Text.byteLength left + Text.byteLength inner + Text.byteLength right
    ⟨start, stop, inner⟩ :: allMatches left right stop after
termination_by cs.length

/-- The element of a match on a line. -/
def Match.toElement (m : Match) (path : String) (line : Nat) : Element where
  text := String.ofList (Text.trim m.inner)
  loc := ⟨path, line.toUInt32, m.start.toUInt32 + 1, m.stop.toUInt32⟩

/-- The elements of the lines of a file, pragmas included, with the number of the line of each;
`number` is that of the first line. -/
def elementsOf (b : Bracket) (path : String) : (number : Nat) → List Bytes → List (Nat × Element)
  | _, [] => []
  | number, line :: rest =>
    (allMatches b.left.toList b.right.toList 0 (Text.decodeLossy line)).map
        (fun m => (number, m.toElement path number))
      ++ elementsOf b path (number + 1) rest

/-! ### Pragmas -/

/-- What is wrong with a pragma. -/
inductive PragmaFault
  | alreadyStopped
  | notStopped
  | unknown (text : String)
deriving DecidableEq, Repr

def PragmaFault.message : PragmaFault → String
  | alreadyStopped => "already stopped"
  | notStopped => "not stopped"
  | unknown text => "unknown pragma: " ++ text

/-- A pragma that is wrong where it stands. -/
structure Fault where
  path : String
  line : Nat
  pragma : PragmaFault
deriving DecidableEq, Repr

def Fault.message (f : Fault) : String :=
  f.path ++ ":" ++ toString f.line ++ ": " ++ f.pragma.message

/-- Carries out the pragmas among the elements of a file and leaves the elements to report.
`stopped` says that reporting is suspended. -/
def applyPragmas (path : String) : (stopped : Bool) → List (Nat × Element) →
    Except Fault (List Element)
  | _, [] => .ok []
  | stopped, (line, e) :: rest =>
    match e.text.toList with
    | '%' :: _ =>
      if e.text = "%stop!" then .ok []
      else if e.text = "%stop" then
        if stopped then .error ⟨path, line, .alreadyStopped⟩ else applyPragmas path true rest
      else if e.text = "%cont" then
        if stopped then applyPragmas path false rest else .error ⟨path, line, .notStopped⟩
      else .error ⟨path, line, .unknown e.text⟩
    | _ =>
      if stopped then applyPragmas path stopped rest
      else (applyPragmas path stopped rest).map (e :: ·)

/-- The elements of a file with the given content. -/
def scan (b : Bracket) (path : String) (data : Bytes) : Except Fault (List Element) :=
  applyPragmas path false (elementsOf b path 1 (lines data))

/-! ### Binary files -/

/-- How many bytes are looked at to tell text from other files. -/
def sniffLength : Nat := 128

/-- True if the start of a file is not text: it holds a zero byte or an ill-formed part. A
character cut off by the end of the bytes looked at is still text. -/
def looksBinary (head : Bytes) : Bool :=
  head.contains 0 || Text.isIllFormed head

end Scan

end CrossTag
