import CrossTag.Text.Quoted

/-!
# JSON

Values are written over several lines with two spaces for each level, members in the order in
which they are given, and empty lists and objects in one piece.
-/

namespace CrossTag

/-- The values that are written as JSON. -/
inductive Json
  | text (s : String)
  | number (n : Nat)
  | array (items : List Json)
  | object (fields : List (String × Json))
deriving Repr

namespace Json

/-- One character of a text: quotes, backslashes and controls are escaped. -/
def escapeChar (c : Char) : List Char :=
  if c = '"' then ['\\', '"']
  else if c = '\\' then ['\\', '\\']
  else if c = '\x08' then ['\\', 'b']
  else if c = '\t' then ['\\', 't']
  else if c = '\n' then ['\\', 'n']
  else if c = '\x0c' then ['\\', 'f']
  else if c = '\r' then ['\\', 'r']
  else if c < ' ' then '\\' :: 'u' :: Text.padZeros 4 (Text.hexDigits c.toNat)
  else [c]

/-- A text in quotes. -/
def quoted (s : String) : String :=
  String.ofList ('"' :: s.toList.flatMap escapeChar ++ ['"'])

/-- The start of a line at a given level. -/
def indent (level : Nat) : String :=
  String.ofList ('\n' :: List.replicate (2 * level) ' ')

mutual

/-- Writes a value whose first line starts at a given level. -/
def render (level : Nat) : Json → String
  | text s => quoted s
  | number n => toString n
  | array [] => "[]"
  | array (item :: items) => "[" ++ renderItems (level + 1) (item :: items) ++ indent level ++ "]"
  | object [] => "\x7b\x7d"
  | object (field :: fields) =>
    "\x7b" ++ renderFields (level + 1) (field :: fields) ++ indent level ++ "\x7d"

/-- Writes the items of an array, each on lines of its own. -/
def renderItems (level : Nat) : List Json → String
  | [] => ""
  | [item] => indent level ++ item.render level
  | item :: items => indent level ++ item.render level ++ "," ++ renderItems level items

/-- Writes the fields of an object, each on lines of its own. -/
def renderFields (level : Nat) : List (String × Json) → String
  | [] => ""
  | [(key, value)] => indent level ++ quoted key ++ ": " ++ value.render level
  | (key, value) :: fields =>
    indent level ++ quoted key ++ ": " ++ value.render level ++ "," ++ renderFields level fields

end

end Json

end CrossTag
