import CrossTag.Index.Text

/-!
# Reading an index entry by entry

A reader hands out the entries of an index one at a time, in the order of their lines, so that the
first of them are known before the last line is looked at. Each call goes on to the next line that
is a record. A fault is handed out once, in place of an entry, and nothing comes after it.
-/

namespace CrossTag.Index

/-- A reader between two calls. -/
structure Reader where
  /-- The lines that are still to be read, `none` for one that is not text. -/
  rest : List (Option (List Char))
  /-- How many lines were read. -/
  number : Nat := 0
  /-- True if the header was seen. -/
  headed : Bool := false
  /-- True if a fault was handed out. -/
  failed : Bool := false
deriving DecidableEq

namespace Reader

/-- A reader at the start of the bytes of an index. -/
def ofBytes (bytes : Bytes) : Reader where
  rest := (bytes.splitOn 10).map Text.decode?

/-- Goes on to the next record or fault, past blank lines and the header. -/
def advance : (headed : Bool) → (number : Nat) → List (Option (List Char)) →
    Option (Except IndexFault Entry) × Reader
  | true, number, [] => (none, ⟨[], number, true, false⟩)
  | false, number, [] => (some (.error .missingVersionMarker), ⟨[], number, false, true⟩)
  | headed, number, none :: rest => (some (.error .notText), ⟨rest, number, headed, true⟩)
  | headed, number, some line :: rest =>
    let text := Text.trim line
    if text.isEmpty then advance headed (number + 1) rest
    else if headed then
      match Record.decode (String.ofList text) with
      | .error reason =>
        (some (.error (.malformedRecord (number + 1) reason)), ⟨rest, number + 1, true, true⟩)
      | .ok entry => (some (.ok entry), ⟨rest, number + 1, true, false⟩)
    else if isHeader text then advance true (number + 1) rest
    else (some (.error .missingVersionMarker), ⟨rest, number + 1, false, true⟩)

/-- What a call hands out, and the reader after it. -/
def next (r : Reader) : Option (Except IndexFault Entry) × Reader :=
  if r.failed then (none, r) else advance r.headed r.number r.rest

/-- What is handed out by the call that `n` others come before. -/
def answer (r : Reader) : (n : Nat) → Option (Except IndexFault Entry)
  | 0 => r.next.1
  | n + 1 => r.next.2.answer n

end Reader

end CrossTag.Index
