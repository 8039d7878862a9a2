import CrossTag.Entry
import CrossTag.Text.Blank

/-!
# Records

A record is an entry written on one line: the name, the location, the scope if there is one,
and the other attributes in the order of their keys, with a space between two fields. A field
that is empty or holds a blank or a quote is put in quotes; inside them a quote is doubled and
backslash, line feed and carriage return are escaped, so that a record never spans two lines.

Reading is more liberal: any blanks may stand between fields, any field may be quoted, and the
attributes may come in any order. An attribute is divided at its first equals sign; its key
must not be empty and must not occur twice.
-/

namespace CrossTag

/-- What is wrong with a line of fields. -/
inductive FieldFault
  | unknownEscape (c : Char)
  | unterminated
  | afterQuoted
  | bareQuote
deriving DecidableEq, Repr

def FieldFault.message : FieldFault → String
  | unknownEscape c => "unknown escape " ++ String.ofList ['\\', c] ++ " in quoted field"
  | unterminated => "unterminated quoted field"
  | afterQuoted => "extraneous character after quoted field"
  | bareQuote => "bare quote in unquoted field"

/-- Why a line is not a record. -/
inductive RecordError
  | fields (fault : FieldFault)
  /-- There are fewer than two fields. -/
  | tooShort
  | location (error : LocationError)
  | emptyKey (field : String)
  | duplicateKey (key : String)
deriving DecidableEq, Repr

def RecordError.message : RecordError → String
  | fields fault => fault.message
  | tooShort => "invalid record"
  | location error => "loc: " ++ error.message
  | emptyKey field => "empty attribute name in " ++ Text.quote field
  | duplicateKey key => "duplicate attribute " ++ Text.quote key

namespace Record

/-! ### Writing -/

/-- A field that cannot stand without quotes. -/
def needsQuotes (field : List Char) : Bool :=
  field.isEmpty || field.any fun c => Text.isBlank c || c == '"'

/-- One character inside quotes. -/
def escapeChar (c : Char) : List Char :=
  if c = '"' then ['"', '"']
  else if c = '\\' then ['\\', '\\']
  else if c = '\n' then ['\\', 'n']
  else if c = '\r' then ['\\', 'r']
  else [c]

/-- A field as it is written. -/
def encodeField (field : List Char) : List Char :=
  if needsQuotes field then '"' :: field.flatMap escapeChar ++ ['"'] else field

/-- The fields of an entry. -/
def fieldsOf (e : Entry) : List (List Char) :=
  let scope := e.attrs.pairs.filter (·.1 == Entry.scopeKey)
  let others := e.attrs.pairs.filter (·.1 != Entry.scopeKey)
  e.name.toList :: e.loc.toChars
    :: (scope ++ others).map fun (key, value) => (Attrs.showPair key value).toList

/-- Fields with a space between two of them. -/
def joinFields (fields : List (List Char)) : List Char :=
  [' '].intercalate (fields.map encodeField)

/-- The record of an entry, without a line end. -/
def encode (e : Entry) : String :=
  String.ofList (joinFields (fieldsOf e))

/-! ### Reading -/

/-- Reads a field after its opening quote: its content and what follows the closing quote. -/
def readQuoted : List Char → Except FieldFault (List Char × List Char)
  | [] => .error .unterminated
  | ['\\'] => .error .unterminated
  | '"' :: '"' :: cs => (readQuoted cs).map fun (field, rest) => ('"' :: field, rest)
  | '"' :: cs => .ok ([], cs)
  | '\\' :: '\\' :: cs => (readQuoted cs).map fun (field, rest) => ('\\' :: field, rest)
  | '\\' :: 'n' :: cs => (readQuoted cs).map fun (field, rest) => ('\n' :: field, rest)
  | '\\' :: 'r' :: cs => (readQuoted cs).map fun (field, rest) => ('\r' :: field, rest)
  | '\\' :: c :: _ => .error (.unknownEscape c)
  | c :: cs => (readQuoted cs).map fun (field, rest) => (c :: field, rest)

/-- What follows a quoted field is shorter than the text. -/
theorem length_after_readQuoted {cs field rest : List Char}
    (h : readQuoted cs = .ok (field, rest)) : rest.length < cs.length := by
  have key : ∀ {c : Char} {cs field rest : List Char},
      (readQuoted cs).map (fun (p : List Char × List Char) => (c :: p.1, p.2))
        = .ok (field, rest) → ∃ inner, readQuoted cs = .ok (inner, rest) := by
    intro c cs field rest h
    cases hr : readQuoted cs with
    | error fault => rw [hr] at h; cases h
    | ok p =>
      rw [hr] at h
      cases h
      exact ⟨p.1, rfl⟩
  fun_induction readQuoted cs generalizing field rest with
  | case1 => cases h
  | case2 => cases h
  | case3 cs ih =>
    obtain ⟨inner, hr⟩ := key h
    have := ih hr
    simp only [List.length_cons]
    omega
  | case4 cs _ => cases h; simp
  | case5 cs ih =>
    obtain ⟨inner, hr⟩ := key h
    have := ih hr
    simp only [List.length_cons]
    omega
  | case6 cs ih =>
    obtain ⟨inner, hr⟩ := key h
    have := ih hr
    simp only [List.length_cons]
    omega
  | case7 cs ih =>
    obtain ⟨inner, hr⟩ := key h
    have := ih hr
    simp only [List.length_cons]
    omega
  | case8 => cases h
  | case9 c cs _ _ _ _ _ _ _ ih =>
    obtain ⟨inner, hr⟩ := key h
    have := ih hr
    simp only [List.length_cons]
    omega

/-- A character that goes on an unquoted field. -/
def isFieldChar (c : Char) : Bool :=
  !Text.isBlank c

/-- The fields of a line. -/
def splitFields (cs : List Char) : Except FieldFault (List (List Char)) :=
  match cs with
  | [] => .ok []
  | c :: cs =>
    if Text.isBlank c then splitFields cs
    else if c = '"' then
      match h : readQuoted cs with
      | .error fault => .error fault
      | .ok (field, rest) =>
        have := length_after_readQuoted h
        if rest.head?.all Text.isBlank then (splitFields rest).map (field :: ·)
        else .error .afterQuoted
    else
      let field := c :: cs.takeWhile isFieldChar
      if field.contains '"' then .error .bareQuote
      else (splitFields (cs.dropWhile isFieldChar)).map (field :: ·)
termination_by cs.length
decreasing_by
  all_goals simp only [List.length_cons]
  · omega
  · omega
  · have := (List.dropWhile_sublist (l := cs) isFieldChar).length_le
    omega

/-- An attribute divided at its first equals sign. -/
def splitAttr (field : List Char) : String × String :=
  match Text.splitFirst? '=' field with
  | some (key, value) => (String.ofList key, String.ofList value)
  | none => (String.ofList field, "")

/-- Reads attributes into a map. -/
def readAttrs (attrs : Attrs) : List (List Char) → Except RecordError Attrs
  | [] => .ok attrs
  | field :: fields =>
    let (key, value) := splitAttr field
    if key.isEmpty then .error (.emptyKey (String.ofList field))
    else if attrs.contains key then .error (.duplicateKey key)
    else readAttrs (attrs.insert key value) fields

/-- Reads the fields of a record. -/
def ofFields : List (List Char) → Except RecordError Entry
  | name :: loc :: fields => do
    let loc ← (Location.parse (String.ofList loc)).mapError .location
    let attrs ← readAttrs Attrs.empty fields
    return ⟨String.ofList name, attrs, loc⟩
  | _ => .error .tooShort

/-- Reads a record. -/
def decode (line : String) : Except RecordError Entry := do
  let fields ← (splitFields line.toList).mapError .fields
  ofFields fields

end Record

end CrossTag
