import CrossTag.Files.Tree
import CrossTag.Lint.Basic
import CrossTag.Pattern.Wildcard
import CrossTag.Shell.Script

/-!
# Running commands

The commands of lint rules are run on the tree, with the entry in their environment. The
programs that there are compare texts and numbers, look at files, or run a script in the same
terms; a rule passes if its command succeeds. A program that does not exist cannot be run at
all, which is an error and not a failed check.
-/

namespace CrossTag.Shell

/-! ### Comparisons -/

/-- An integer as comparisons read it. -/
def integer? (text : String) : Option Int :=
  let cs := Text.trim text.toList
  match cs with
  | '-' :: digits => if isNumber digits then some (-(number digits : Int)) else none
  | '+' :: digits => if isNumber digits then some (number digits) else none
  | digits => if isNumber digits then some (number digits) else none
where
  isNumber (cs : List Char) : Bool := !cs.isEmpty && cs.all Char.isDigit
  number (cs : List Char) : Nat := cs.foldl (fun n c => n * 10 + (c.toNat - '0'.toNat)) 0

/-- A condition on one word. -/
def unary? (t : Tree) (op word : String) : Option Bool :=
  match op with
  | "-n" => some !word.isEmpty
  | "-z" => some word.isEmpty
  | "-e" | "-r" | "-w" => some (t.leads word)
  | "-f" => some (t.leads word && !t.isDir word)
  | "-d" => some (t.isDir word)
  | "-x" => some (t.isDir word)
  | "-s" => some (t.isDir word || (t.contentOf word).toOption.any (!·.isEmpty))
  | "-h" | "-L" => some false
  | _ => none

/-- Compares two integers. -/
def onIntegers (a b : String) (p : Int → Int → Bool) : Option Bool := do
  return p (← integer? a) (← integer? b)

/-- A condition on two words. -/
def binary? (a op b : String) : Option Bool :=
  match op with
  | "=" => some (a == b)
  | "!=" => some (a != b)
  | "-eq" => onIntegers a b (· == ·)
  | "-ne" => onIntegers a b (· != ·)
  | "-lt" => onIntegers a b (· < ·)
  | "-le" => onIntegers a b (· ≤ ·)
  | "-gt" => onIntegers a b (· > ·)
  | "-ge" => onIntegers a b (· ≥ ·)
  | "<" => some (a < b)
  | ">" => some (b < a)
  | _ => none

/-- The operators on two words. -/
def isBinary (op : String) : Bool :=
  ["=", "!=", "-eq", "-ne", "-lt", "-le", "-gt", "-ge", "<", ">"].contains op

/-- The meaning of a condition that is not joined from others. -/
def condition? (t : Tree) : List String → Option Bool
  | [] => some false
  | [word] => some !word.isEmpty
  | [a, b] => if a = "!" then some b.isEmpty else unary? t a b
  | [a, b, c] =>
    if isBinary b then binary? a b c
    else if a = "!" then (condition? t [b, c]).map not
    else if a = "(" ∧ c = ")" then some !b.isEmpty
    else none
  | a :: rest => if a = "!" then (condition? t rest).map not else none

/-- The meaning of all conditions, joined by `-o` and, more tightly, by `-a`. -/
def conditions? (t : Tree) (words : List String) : Option Bool := do
  if words.length ≤ 2 then condition? t words
  else
    let parts ← (words.splitOn "-o").mapM fun part => do
      let results ← (part.splitOn "-a").mapM (condition? t)
      return results.all id
    return parts.any id

/-- The exit status of a condition: a condition that makes no sense is neither true nor
false. -/
def testStatus (t : Tree) (words : List String) : Nat :=
  match conditions? t words with
  | some true => 0
  | some false => 1
  | none => 2

/-! ### Values of words -/

/-- What a script knows while it runs. -/
structure Context where
  tree : Tree
  bindings : List (String × String)
  /-- The name of the script and its arguments. -/
  arguments : List String := []
  /-- The exit status of the last command. -/
  status : Nat := 0

namespace Context

/-- The value of a parameter. -/
def param? (ctx : Context) (name : String) : Option String :=
  match name.toList with
  | ['?'] => some (toString ctx.status)
  | ['#'] => some (toString (ctx.arguments.length - 1))
  | ['@'] | ['*'] => some (" ".intercalate (ctx.arguments.drop 1))
  | [c] => if c.isDigit then ctx.arguments[c.toNat - '0'.toNat]? else ctx.bindings.lookup name
  | _ => ctx.bindings.lookup name

/-- Gives a variable a value. -/
def assign (ctx : Context) (name value : String) : Context :=
  { ctx with bindings := (name, value) :: ctx.bindings }

end Context

/-- The items of a pattern: outside of quotes, stars and question marks are special. -/
def patternItems : List Char → List Wildcard.Item
  | [] => []
  | '*' :: cs => .run :: patternItems cs
  | '?' :: cs => .anyChar :: patternItems cs
  | '[' :: cs =>
    match h : Wildcard.readBracket cs with
    | some (item, rest) =>
      have := Wildcard.length_after_readBracket h
      item :: patternItems rest
    | none => .literal '[' :: patternItems cs
  | c :: cs => .literal c :: patternItems cs
termination_by cs => cs.length

/-- A text without its shortest or longest start that a pattern matches. -/
def dropStart (pattern : List Wildcard.Item) (longest : Bool) (text : List Char) : List Char :=
  let cuts := (List.range (text.length + 1)).filter fun n =>
    Wildcard.matchItems pattern (text.take n)
  match if longest then cuts.getLast? else cuts.head? with
  | some n => text.drop n
  | none => text

/-- What is made of the value of a parameter. -/
def Use.apply (use : Use) (value : Option String) : List Char :=
  let text := (value.getD "").toList
  match use with
  | .value => text
  | .length => (toString text.length).toList
  | .orElse orEmpty other =>
    if value.isNone || (orEmpty && text.isEmpty) then other else text
  | .ifSet notEmpty other =>
    if value.isSome && !(notEmpty && text.isEmpty) then other else []
  | .without false longest pattern => dropStart (patternItems pattern) longest text
  | .without true longest pattern =>
    (dropStart (patternItems pattern).reverse longest text.reverse).reverse

/-- The text of a word, without splitting it. -/
def expand (ctx : Context) (w : Word) : String :=
  String.ofList (w.flatMap fun
    | .plain c => [c]
    | .quoted text => text
    | .param name use _ => use.apply (ctx.param? name))

/-- The pattern that a word stands for: quoted text is literal. -/
def expandPattern (ctx : Context) (w : Word) : List Wildcard.Item :=
  let step : Piece → List Char × List Wildcard.Item → List Char × List Wildcard.Item
    | .plain c, (text, items) => (c :: text, items)
    | .quoted literal, (text, items) => ([], literal.map .literal ++ (patternItems text ++ items))
    | .param name use true, (text, items) =>
      ([], (use.apply (ctx.param? name)).map .literal ++ (patternItems text ++ items))
    | .param name use false, (text, items) => (use.apply (ctx.param? name) ++ text, items)
  let (text, items) := w.foldr step ([], [])
  patternItems text ++ items

/-- Fields of a word that is being split: the finished ones in reverse order, the open one, and
whether the open one counts even if it is empty. -/
structure Fields where
  done : List (List Char) := []
  current : List Char := []
  counts : Bool := false

namespace Fields

/-- Adds text that is not split. -/
def push (f : Fields) (text : List Char) : Fields :=
  { f with current := f.current ++ text, counts := true }

/-- Finishes the open field. -/
def finish (f : Fields) : Fields :=
  if f.counts then { done := f.current :: f.done } else { f with current := [] }

/-- Adds a character of a value that is split at blanks. -/
def pushSplit (f : Fields) (c : Char) : Fields :=
  if c = ' ' ∨ c = '\t' ∨ c = '\n' then f.finish else f.push [c]

/-- Adds a piece of a word. -/
def pushPiece (ctx : Context) (f : Fields) : Piece → Fields
  | .plain c => f.push [c]
  | .quoted text => f.push text
  | .param name use true => f.push (use.apply (ctx.param? name))
  | .param name use false => (use.apply (ctx.param? name)).foldl pushSplit f

end Fields

/-- The fields of a word, which is split at the blanks in unquoted values. -/
def fields (ctx : Context) (w : Word) : List String :=
  (w.foldl (Fields.pushPiece ctx) {}).finish.done.reverse.map String.ofList

/-! ### Commands -/

/-- How a part of a script ends. -/
inductive Outcome
  | status (n : Nat)
  /-- The script ends here. -/
  | exit (n : Nat)
deriving DecidableEq, Repr

/-- The exit status of a command of a script. -/
def command (ctx : Context) : List String → Outcome
  | [] => .status 0
  | "exit" :: rest => .exit ((rest.head?.bind String.toNat?).getD ctx.status % 256)
  | "test" :: rest => .status (testStatus ctx.tree rest)
  | "[" :: rest =>
    .status (if rest.getLast? = some "]" then testStatus ctx.tree rest.dropLast else 2)
  | name :: _ =>
    if [":", "true", "echo", "printf", "export", "set"].contains name then .status 0
    else if name = "false" then .status 1
    else .status 127

/-- Goes on after a part of a script, unless that has ended the script. -/
def Outcome.next (result : Context × Outcome) (go : Context → Nat → Context × Outcome) :
    Context × Outcome :=
  match result with
  | (ctx, .exit n) => (ctx, .exit n)
  | (ctx, .status n) => go { ctx with status := n } n

/-- Runs a script. -/
def Script.run (ctx : Context) : Script → Context × Outcome
  | .skip => (ctx, .status 0)
  | .command assignments words =>
    let ctx := assignments.foldl (fun ctx (name, w) => ctx.assign name (expand ctx w)) ctx
    (ctx, Shell.command ctx (words.flatMap (fields ctx)))
  | .negate script =>
    Outcome.next (script.run ctx) fun ctx n => (ctx, .status (if n = 0 then 1 else 0))
  | .both first second =>
    Outcome.next (first.run ctx) fun ctx n =>
      if n = 0 then second.run ctx else (ctx, .status n)
  | .either first second =>
    Outcome.next (first.run ctx) fun ctx n =>
      if n = 0 then (ctx, .status 0) else second.run ctx
  | .sequence first .skip => first.run ctx
  | .sequence first second => Outcome.next (first.run ctx) fun ctx _ => second.run ctx
  | .group script =>
    match script.run ctx with
    | (_, .exit n) => (ctx, .status n)
    | (_, .status n) => (ctx, .status n)
  | .branch condition yes no =>
    Outcome.next (condition.run ctx) fun ctx n => if n = 0 then yes.run ctx else no.run ctx
  | .select subject patterns yes no =>
    let text := (expand ctx subject).toList
    if patterns.any fun w => Wildcard.matchItems (expandPattern ctx w) text then yes.run ctx
    else no.run ctx

/-! ### Programs -/

/-- The exit status of a script with arguments. -/
def scriptStatus (ctx : Context) (text : String) (arguments : List String) : Nat :=
  match Script.parse? text with
  | none => 2
  | some script =>
    match (script.run { ctx with arguments := arguments }).2 with
    | .status n => n
    | .exit n => n

/-- The programs that there are. -/
def program? (ctx : Context) (name : String) (arguments : List String) : Option Nat :=
  match name with
  | "true" => some 0
  | "false" => some 1
  | "test" => some (testStatus ctx.tree arguments)
  | "[" =>
    some (if arguments.getLast? = some "]" then testStatus ctx.tree arguments.dropLast else 2)
  | "sh" =>
    match arguments with
    | "-c" :: text :: rest => some (scriptStatus ctx text (if rest.isEmpty then [name] else rest))
    | _ => some 0
  | _ => none

/-- The directories in which programs are found. -/
def programDirs : List String := ["/bin/", "/usr/bin/"]

/-- The name of a program that is called by its path. -/
def programName (path : String) : String :=
  let names := programDirs.filterMap fun dir => Text.dropStart? dir.toList path.toList
  match names with
  | name :: _ => String.ofList name
  | [] => path

/-- Runs a command: its exit status, or why it cannot be run. -/
def run (ctx : Context) (name : String) (arguments : List String) : Except FileFault Nat :=
  match program? ctx (programName name) arguments with
  | some status => .ok status
  | none =>
    if name.toList.contains separator then
      match ctx.tree.resolve name with
      | .error fault => .error fault
      | .ok _ => .error .denied
    else .error .notFound

/-- True if a text can be handed to a program. -/
def isPassable (text : String) : Bool :=
  !text.toList.contains '\x00'

/-- Checks entries by running the commands of rules on a tree. -/
def executor (t : Tree) : Executor Id := fun rule e =>
  let environment := Lint.environment e
  match rule.shell with
  | [] => .error (rule.name ++ ": empty command")
  | name :: arguments =>
    if !(rule.shell.all isPassable && environment.all fun (key, value) =>
        isPassable key && isPassable value) then
      .error (name ++ ": nul byte found in provided data")
    else
    match run { tree := t, bindings := environment.reverse } name arguments with
    | .ok status => .ok (status == 0)
    | .error fault => .error (name ++ ": " ++ fault.message)

end CrossTag.Shell
