import CrossTag.Shell.Word

/-!
# Scripts

A script joins commands: one after the other, the second only if the first succeeds or fails,
with the outcome turned round, under a condition, or by the pattern that a word matches. There
are no loops and no pipes, so every script comes to an end.

Where a command writes to or reads from does not matter here, so redirections are dropped.
-/

namespace CrossTag.Shell

/-- A script. -/
inductive Script
  /-- Does nothing. -/
  | skip
  /-- Gives values to variables and runs a command, if there is one. -/
  | command (assignments : List (String × Word)) (words : List Word)
  | negate (script : Script)
  /-- The second only if the first succeeds. -/
  | both (first second : Script)
  /-- The second only if the first fails. -/
  | either (first second : Script)
  | sequence (first second : Script)
  /-- A script of its own, whose end is not the end of this one. -/
  | group (script : Script)
  | branch (condition yes no : Script)
  /-- The first script if a word matches one of the patterns, otherwise the second. -/
  | select (subject : Word) (patterns : List Word) (yes no : Script)
deriving Repr

namespace Script

/-! ### Reading scripts -/

/-- Splits a word that gives a value to a variable. -/
def assignment? (w : Word) : Option (String × Word) :=
  let name := w.takeWhile fun
    | Piece.plain c => isNameChar c
    | _ => false
  match Word.literal? name, w.drop name.length with
  | some text, .plain '=' :: value =>
    if text.toList.head?.any isNameStart then some (text, value) else none
  | _, _ => none

/-- Operators that redirect a stream to the word behind them. -/
def isRedirection (op : String) : Bool :=
  [">", ">>", "<", ">&", "<&"].contains op

/-- True for a word of digits, which names a stream if a redirection follows. -/
def isStream (w : Word) : Bool :=
  (Word.literal? w).any fun text => !text.isEmpty && text.toList.all Char.isDigit

/-- Drops redirections. -/
def dropRedirections : List Lexeme → List Lexeme
  | .word w :: .operator op :: .word v :: rest =>
    if isRedirection op then
      if isStream w then dropRedirections rest else .word w :: dropRedirections rest
    else .word w :: .operator op :: dropRedirections (.word v :: rest)
  | .operator op :: .word v :: rest =>
    if isRedirection op then dropRedirections rest
    else .operator op :: dropRedirections (.word v :: rest)
  | lexeme :: rest => lexeme :: dropRedirections rest
  | [] => []
termination_by lexemes => lexemes.length

/-- A reader of scripts. -/
abbrev Reader := StateT (List Lexeme) Option

/-- The text of the next word, if it is a plain word or an operator. -/
def peek : Reader String := do
  match (← get).head? with
  | some (.operator op) => return op
  | some (.word w) => return (Word.literal? w).getD ""
  | none => return ""

/-- Moves over the next lexeme. -/
def advance : Reader Unit :=
  modify (·.drop 1)

/-- Moves over a given word or operator if it comes next. -/
def accept (text : String) : Reader Bool := do
  if (← peek) = text ∧ text ≠ "" then
    advance
    return true
  else return false

/-- Moves over a given word or operator, which must come next. -/
def expect (text : String) : Reader Unit := do
  if ← accept text then return () else failure

/-- Moves over line ends. -/
def skipLines : Reader Unit :=
  modify (·.dropWhile (· == .operator "\n"))

/-- Takes the words up to the next operator. -/
def words : Reader (List Word) := do
  let found := (← get).takeWhile fun
    | Lexeme.word _ => true
    | _ => false
  modify (·.drop found.length)
  return found.filterMap fun
    | Lexeme.word w => some w
    | _ => none

/-- Words that cannot be the name of a command where they stand. -/
def closing : List String :=
  ["then", "elif", "else", "fi", "esac", "do", "done", "\x7d", ")", ";;"]

/-- Words that start something that is not read here. -/
def unsupported : List String :=
  ["for", "while", "until", "function", "|", "&"]

/-- Reads a command without parts of its own. -/
def simple : Reader Script := do
  let found ← words
  if found.isEmpty then failure
  let assignments := (found.map assignment?).takeWhile Option.isSome |>.filterMap id
  return .command assignments (found.drop assignments.length)

/-- Reads the patterns of an arm. -/
def patterns : (fuel : Nat) → Reader (List Word)
  | 0 => failure
  | fuel + 1 => do
    match (← get).head? with
    | some (.word w) =>
      advance
      if ← accept "|" then return w :: (← patterns fuel)
      else return [w]
    | _ => failure

mutual

/-- Reads commands up to a word that closes them. -/
def list : (fuel : Nat) → Reader Script
  | 0 => failure
  | fuel + 1 => do
    skipLines
    if (← get).isEmpty || closing.contains (← peek) then return .skip
    let first ← chain fuel
    if (← accept ";") || (← accept "\n") then return .sequence first (← list fuel)
    if (← get).isEmpty || closing.contains (← peek) then return first
    failure

/-- Reads commands that are joined by conditions. -/
def chain : (fuel : Nat) → Reader Script
  | 0 => failure
  | fuel + 1 => do
    let first ← item fuel
    chainFrom fuel first

/-- Goes on with the conditions behind a command. -/
def chainFrom : (fuel : Nat) → Script → Reader Script
  | 0, _ => failure
  | fuel + 1, first => do
    if ← accept "&&" then
      skipLines
      chainFrom fuel (.both first (← item fuel))
    else if ← accept "||" then
      skipLines
      chainFrom fuel (.either first (← item fuel))
    else return first

/-- Reads one command. -/
def item : (fuel : Nat) → Reader Script
  | 0 => failure
  | fuel + 1 => do
    if unsupported.contains (← peek) then failure
    if ← accept "!" then return .negate (← item fuel)
    if ← accept "(" then
      let body ← list fuel
      expect ")"
      return .group body
    if ← accept "\x7b" then
      let body ← list fuel
      expect "\x7d"
      return body
    if ← accept "if" then return ← condition fuel
    if ← accept "case" then
      match (← get).head? with
      | some (.word subject) =>
        advance
        skipLines
        expect "in"
        return ← arms fuel subject
      | _ => failure
    simple

/-- Reads what follows `if` or `elif`. -/
def condition : (fuel : Nat) → Reader Script
  | 0 => failure
  | fuel + 1 => do
    let test ← list fuel
    expect "then"
    let yes ← list fuel
    if ← accept "elif" then return .branch test yes (← condition fuel)
    if ← accept "else" then
      let no ← list fuel
      expect "fi"
      return .branch test yes no
    expect "fi"
    return .branch test yes .skip

/-- Reads the arms of a selection. -/
def arms : (fuel : Nat) → Word → Reader Script
  | 0, _ => failure
  | fuel + 1, subject => do
    skipLines
    if ← accept "esac" then return .skip
    let _ ← accept "("
    let choices ← patterns fuel
    expect ")"
    let body ← list fuel
    if ← accept ";;" then return .select subject choices body (← arms fuel subject)
    expect "esac"
    return .select subject choices body .skip

end

/-- Reads a script. -/
def parse? (text : String) : Option Script := do
  let lexemes ← lex (text.length + 1) text.toList
  let lexemes := dropRedirections lexemes
  let (script, rest) ← (list (4 * lexemes.length + 4)).run lexemes
  if rest.isEmpty then some script else none

end Script

end CrossTag.Shell
