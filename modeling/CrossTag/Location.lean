import CrossTag.Text.Cut
import CrossTag.Text.Quoted

/-!
# Locations

A location is a range of columns on one line of one file. Lines and columns count from one
and fit in a word of 32 bits; the range is half open. Locations are ordered by path, then
line, then start, then end.

The written form is `path:line.start-end`. Reading also takes `path:line.column`, which
stands for a range one column wide. The path is everything before the last colon, so it may
hold colons itself; it must not be empty nor hold a line feed. A text of this shape is
still refused if a number does not fit, if the line or the start is zero, or if the range
is empty.
-/

namespace CrossTag

/-- A range of columns on one line of a file. -/
structure Location where
  path : String
  line : UInt32
  startColumn : UInt32
  endColumn : UInt32
deriving DecidableEq, Repr, Inhabited

namespace Location

/-- By path, then line, then start, then end. -/
def cmp : Location → Location → Ordering :=
  compareLex (compareOn (·.path)) (compareLex (compareOn (·.line))
    (compareLex (compareOn (·.startColumn)) (compareOn (·.endColumn))))

instance : Ord Location := ⟨cmp⟩

instance : Std.TransOrd Location :=
  inferInstanceAs (Std.TransCmp (compareLex (compareOn fun l : Location => l.path)
    (compareLex (compareOn fun l : Location => l.line)
      (compareLex (compareOn fun l : Location => l.startColumn)
        (compareOn fun l : Location => l.endColumn)))))

/-- True if `a` does not come after `b`. -/
def le (a b : Location) : Bool :=
  (compare a b).isLE

/-- True if `inner` lies on the same line of the same file, within the columns of `outer`. -/
def contains (outer inner : Location) : Bool :=
  outer.path == inner.path && outer.line == inner.line
    && outer.startColumn ≤ inner.startColumn && inner.endColumn ≤ outer.endColumn

/-- The decimal digits of a number. -/
def digits (n : UInt32) : List Char :=
  Nat.toDigits 10 n.toNat

/-- The written form as a list of characters. -/
def toChars (l : Location) : List Char :=
  l.path.toList ++ ':' :: digits l.line ++ '.' :: digits l.startColumn
    ++ '-' :: digits l.endColumn

/-- The written form, `path:line.start-end`. -/
def render (l : Location) : String :=
  String.ofList l.toChars

/-! ### Reading -/

/-- What is wrong with the numbers of a location. -/
inductive RangeFault
  | line
  | startColumn
  | endColumn
  | lineZero
  | columnZero
  | emptyRange
deriving DecidableEq, Repr

def RangeFault.message : RangeFault → String
  | line => "invalid line number"
  | startColumn => "invalid start column"
  | endColumn => "invalid end column"
  | lineZero => "line numbers start at 1"
  | columnZero => "columns start at 1"
  | emptyRange => "end column must be after start column"

end Location

/-- Why a text is not a location. -/
inductive LocationError
  /-- The text does not have the shape of a location. -/
  | malformed (text : String)
  /-- The text has the shape, but its numbers do not make up a range. -/
  | outOfRange (text : String) (fault : Location.RangeFault)
deriving DecidableEq, Repr

def LocationError.message : LocationError → String
  | malformed text =>
    "invalid location " ++ Text.quote text ++ ": expected path:line.column[-end]"
  | outOfRange text fault => "invalid location " ++ Text.quote text ++ ": " ++ fault.message

namespace Location

/-- The parts of a text that has the shape of a location: the path and the digits of line,
start and end. -/
structure Shape where
  path : List Char
  line : List Char
  startColumn : List Char
  endColumn : Option (List Char)
deriving DecidableEq, Repr

/-- A run of digits that is not empty. -/
def isNumeral (cs : List Char) : Bool :=
  !cs.isEmpty && cs.all Char.isDigit

/-- The numbers after the colon. -/
def readNumbers (path cs : List Char) : Option Shape := do
  let (line, columns) ← Text.splitFirst? '.' cs
  match Text.splitFirst? '-' columns with
  | some (startColumn, endColumn) =>
    if isNumeral line && isNumeral startColumn && isNumeral endColumn then
      some ⟨path, line, startColumn, some endColumn⟩
    else none
  | none =>
    if isNumeral line && isNumeral columns then some ⟨path, line, columns, none⟩ else none

/-- Divides a text into the parts of a location. -/
def readShape (cs : List Char) : Option Shape := do
  let (path, numbers) ← Text.splitLast? ':' cs
  if path.isEmpty || path.contains '\n' then none else readNumbers path numbers

/-- The value of a run of digits, if it fits in a word. -/
def wordValue? (cs : List Char) : Option UInt32 :=
  let n := Nat.ofDigitChars 10 cs 0
  if n < UInt32.size then some (UInt32.ofNat n) else none

/-- One column after `n`; the last column has none after it. -/
def nextColumn (n : UInt32) : UInt32 :=
  if n.toNat + 1 < UInt32.size then n + 1 else n

/-- Checks the numbers of a shape: each must fit, then line and start must not be zero, then
the range must not be empty. -/
def ofShape (shape : Shape) : Except RangeFault Location := do
  let some line := wordValue? shape.line | throw .line
  let some startColumn := wordValue? shape.startColumn | throw .startColumn
  let some endColumn :=
      match shape.endColumn with
      | some cs => wordValue? cs
      | none => some (nextColumn startColumn)
    | throw .endColumn
  if line = 0 then throw .lineZero
  if startColumn = 0 then throw .columnZero
  if endColumn ≤ startColumn then throw .emptyRange
  return ⟨String.ofList shape.path, line, startColumn, endColumn⟩

/-- Reads `path:line.start-end` or `path:line.column`. -/
def parse (text : String) : Except LocationError Location :=
  match readShape text.toList with
  | none => .error (.malformed text)
  | some shape => (ofShape shape).mapError (.outOfRange text)

end Location

end CrossTag
