import CrossTag.Text.Cut

/-!
# Words of scripts

A script is a sequence of words and operators. A word is made up of pieces: text that stands
for itself, text in quotes, and parameters whose value is put in their place. In quotes nothing
but parameters has a meaning, between single quotes not even those.

Texts in which a command would have to be run to find out what they stand for are refused.
-/

namespace CrossTag.Shell

/-- What is made of the value of a parameter. -/
inductive Use
  | value
  | length
  /-- Another text if the parameter is not set, or also if it is empty. -/
  | orElse (orEmpty : Bool) (text : List Char)
  /-- Another text if the parameter is set, and perhaps only if it is not empty. -/
  | ifSet (notEmpty : Bool) (text : List Char)
  /-- The value without what a pattern matches at its start or at its end. -/
  | without (atEnd longest : Bool) (pattern : List Char)
deriving DecidableEq, Repr

/-- A piece of a word. -/
inductive Piece
  | plain (c : Char)
  | quoted (text : List Char)
  | param (name : String) (use : Use) (quoted : Bool)
deriving DecidableEq, Repr

/-- A word of a script. -/
abbrev Word := List Piece

/-- The text of a word without quotes and parameters. -/
def Word.literal? (w : Word) : Option String :=
  (w.mapM fun
    | Piece.plain c => some c
    | _ => none).map String.ofList

/-- A word or an operator. -/
inductive Lexeme
  | word (w : Word)
  | operator (text : String)
deriving DecidableEq, Repr

/-! ### Parameters -/

def isNameStart (c : Char) : Bool :=
  c.isAlpha || c == '_'

def isNameChar (c : Char) : Bool :=
  c.isAlphanum || c == '_'

/-- The name of a parameter at the front of a text, and what follows it. -/
def readName? : List Char → Option (String × List Char)
  | [] => none
  | c :: cs =>
    if isNameStart c then
      some (String.ofList (c :: cs.takeWhile isNameChar), cs.dropWhile isNameChar)
    else if c.isDigit || "#?@*".toList.contains c then some (c.toString, cs)
    else none

/-- What is made of a parameter, given the text between its name and the closing brace. -/
def readUse? : List Char → Option Use
  | [] => some .value
  | ':' :: '-' :: text => some (.orElse true text)
  | ':' :: '=' :: text => some (.orElse true text)
  | ':' :: '+' :: text => some (.ifSet true text)
  | '-' :: text => some (.orElse false text)
  | '=' :: text => some (.orElse false text)
  | '+' :: text => some (.ifSet false text)
  | '#' :: '#' :: pattern => some (.without false true pattern)
  | '#' :: pattern => some (.without false false pattern)
  | '%' :: '%' :: pattern => some (.without true true pattern)
  | '%' :: pattern => some (.without true false pattern)
  | _ => none

/-- Drops the quotes from the text in braces. -/
def dropQuotes (cs : List Char) : List Char :=
  cs.filter fun c => c != '"' && c != '\''

/-- Reads a parameter after its dollar sign: the piece and how many characters it takes up. A
dollar sign in front of anything else stands for itself. -/
def readParam? (quoted : Bool) (cs : List Char) : Option (Piece × Nat) :=
  match cs with
  | '(' :: _ => none
  | '\x7b' :: rest => do
    let (inside, _) ← Text.splitFirst? '\x7d' rest
    let width := inside.length + 2
    match inside with
    | '#' :: c :: more =>
      let (name, after) ← readName? (c :: more)
      if after.isEmpty then some (.param name .length quoted, width) else none
    | _ =>
      let (name, after) ← readName? inside
      let use ← readUse? (dropQuotes after)
      some (.param name use quoted, width)
  | _ =>
    match readName? cs with
    | some (name, rest) => some (.param name .value quoted, cs.length - rest.length)
    | none => some (.quoted ['$'], 0)

/-! ### Words -/

/-- The characters that end a word. -/
def endsWord (c : Char) : Bool :=
  " \t\n;&|()<>".toList.contains c

/-- How a part of a word is quoted. -/
inductive Mode
  | unquoted
  | single
  | double
deriving DecidableEq, Repr

/-- Puts a piece in front of what was read after it. -/
def prepend (piece : Piece) (read : Option (Word × List Char)) : Option (Word × List Char) :=
  read.map fun (w, rest) => (piece :: w, rest)

/-- Reads a word: its pieces and what follows it. `skip` characters belong to a parameter that
was read already. -/
def readWord (mode : Mode) (skip : Nat) (cs : List Char) : Option (Word × List Char) :=
  match cs with
  | [] => if mode = .unquoted then some ([], []) else none
  | c :: cs =>
    match skip with
    | n + 1 => readWord mode n cs
    | 0 =>
      match mode with
      | .single =>
        if c = '\'' then readWord .unquoted 0 cs else prepend (.quoted [c]) (readWord .single 0 cs)
      | .double =>
        if c = '"' then readWord .unquoted 0 cs
        else if c = '`' then none
        else if c = '$' then
          match readParam? true cs with
          | some (piece, width) =>
            prepend piece (readWord .double width cs)
          | none => none
        else if c = '\\' then
          match cs with
          | d :: more =>
            if d = '\n' then readWord .double 0 more
            else if "$`\"\\".toList.contains d then prepend (.quoted [d]) (readWord .double 0 more)
            else prepend (.quoted [c]) (readWord .double 0 (d :: more))
          | [] => none
        else prepend (.quoted [c]) (readWord .double 0 cs)
      | .unquoted =>
        if endsWord c then some ([], c :: cs)
        else if c = '\'' then prepend (.quoted []) (readWord .single 0 cs)
        else if c = '"' then prepend (.quoted []) (readWord .double 0 cs)
        else if c = '`' then none
        else if c = '$' then
          match readParam? false cs with
          | some (piece, width) =>
            prepend piece (readWord .unquoted width cs)
          | none => none
        else if c = '\\' then
          match cs with
          | d :: more =>
            if d = '\n' then readWord .unquoted 0 more
            else prepend (.quoted [d]) (readWord .unquoted 0 more)
          | [] => some ([.quoted [c]], [])
        else prepend (.plain c) (readWord .unquoted 0 cs)
termination_by cs.length
decreasing_by all_goals simp only [List.length_cons]; omega

/-! ### Scripts -/

/-- The operators, longer ones before those that they start with. -/
def operators : List String :=
  ["&&", "||", ";;", ">>", ">&", "<&", ";", "&", "|", "(", ")", "<", ">", "\n"]

/-- The operator at the front of a text and what follows it. -/
def readOperator? (cs : List Char) : Option (String × List Char) :=
  operators.findSome? fun op => (Text.dropStart? op.toList cs).map fun rest => (op, rest)

/-- The words and operators of a script, given more steps than there are characters. -/
def lex : (steps : Nat) → List Char → Option (List Lexeme)
  | 0, _ => none
  | _, [] => some []
  | steps + 1, c :: cs =>
    if c = ' ' ∨ c = '\t' then lex steps cs
    else if c = '#' then lex steps (cs.dropWhile (· != '\n'))
    else
      match readOperator? (c :: cs) with
      | some (op, rest) => (lex steps rest).map (.operator op :: ·)
      | none =>
        match readWord .unquoted 0 (c :: cs) with
        | some (w, rest) => (lex steps rest).map (.word w :: ·)
        | none => none

end CrossTag.Shell
