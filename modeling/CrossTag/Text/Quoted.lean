import CrossTag.Text.Category

/-!
# Quoted text

Messages show texts in double quotes, so that blanks and invisible characters can be told
apart. Quotes and backslashes are escaped by a backslash, four controls have escapes of
their own, and a character that would not be seen on its own is written by its code point:
controls, formats, private use, unassigned code points, blanks other than the space, and
combining marks.
-/

namespace CrossTag.Text

/-- A character that can be shown as it is. -/
def isShown (c : Char) : Bool :=
  c == ' ' || !((category c).isOther || (category c).isSeparator)

/-- The digits of `n` in base sixteen, lower case. -/
def hexDigits (n : Nat) : List Char :=
  Nat.toDigits 16 n

/-- Pads `digits` with zeros on the left to at least `width` characters. -/
def padZeros (width : Nat) (digits : List Char) : List Char :=
  List.replicate (width - digits.length) '0' ++ digits

/-- One character inside quotes. -/
def quoteChar (c : Char) : List Char :=
  if c = '\x00' then ['\\', '0']
  else if c = '\t' then ['\\', 't']
  else if c = '\r' then ['\\', 'r']
  else if c = '\n' then ['\\', 'n']
  else if c = '"' ∨ c = '\\' then ['\\', c]
  else if isExtending c || !isShown c then
    ['\\', 'u', '\x7b'] ++ hexDigits c.toNat ++ ['\x7d']
  else [c]

/-- A text in double quotes. -/
def quote (s : String) : String :=
  String.ofList ('"' :: s.toList.flatMap quoteChar ++ ['"'])

/-- A list of texts, each quoted, in square brackets. -/
def quoteList (xs : List String) : String :=
  "[" ++ ", ".intercalate (xs.map quote) ++ "]"

end CrossTag.Text
