import CrossTag.Entry
import CrossTag.Lint.Rule

/-!
# Linting

A linter runs the rules that select an entry, in their order, and reports the numbers of those
that the entry fails. How a command is run is not fixed here: an executor is any way to answer,
in some monad, whether an entry passes a rule, so that calls may be recorded. The first error of
an executor ends the check of the entry.
-/

namespace CrossTag

/-- Why linting fails. -/
inductive LintError
  | noRule (i : Nat)
  /-- What an executor reports about a rule. -/
  | inRule (rule : String) (report : String)
deriving DecidableEq, Repr

def LintError.message : LintError → String
  | noRule i => "no rule #" ++ toString i
  | inRule rule report => "rule " ++ rule ++ ": Lint error: " ++ report

/-- A rule with its compiled filter. -/
structure CheckedRule where
  rule : Rule
  filter : Option Pattern

/-- The rules of a linter. -/
structure Linter where
  rules : List CheckedRule

/-- Answers whether an entry passes a rule, or reports an error. -/
abbrev Executor (m : Type → Type) := Rule → Entry → m (Except String Bool)

namespace Linter

/-- Compiles the filters of rules with numbers from `start` on. -/
def compileFrom : (start : Nat) → List Rule → Except RuleError (List CheckedRule)
  | _, [] => .ok []
  | start, r :: rs =>
    match r.filter with
    | .error e => .error ⟨r.displayName start, .badFilter e⟩
    | .ok filter => (compileFrom (start + 1) rs).map (⟨r, filter⟩ :: ·)

/-- The linter of a list of rules: all of them are checked before any filter is compiled. -/
def ofRules (rules : List Rule) : Except RuleError Linter := do
  Rule.validateAll 0 rules
  let rules ← compileFrom 0 rules
  return ⟨rules⟩

/-- The number of rules. -/
def size (l : Linter) : Nat :=
  l.rules.length

/-- True if a rule applies to an entry: it has no filter, or its filter matches the path. -/
def selects (r : CheckedRule) (e : Entry) : Bool :=
  r.filter.all (·.isMatch e.loc.path)

section Checking

variable {m : Type → Type} [Monad m] (executor : Executor m)

/-- Checks one rule; an entry that it does not select passes. -/
def check (r : CheckedRule) (i : Nat) (e : Entry) : m (Except LintError Bool) := do
  if selects r e then
    let answer ← executor r.rule e
    return answer.mapError fun report => .inRule (r.rule.displayName i) report
  else return .ok true

/-- Checks the rule with a given number. -/
def lintRule (l : Linter) (i : Nat) (e : Entry) : m (Except LintError Bool) :=
  match l.rules[i]? with
  | some r => check executor r i e
  | none => return .error (.noRule i)

/-- The numbers of the rules, counted from `start`, that an entry fails. -/
def failures : (start : Nat) → List CheckedRule → Entry → m (Except LintError (List Nat))
  | _, [], _ => return .ok []
  | start, r :: rs, e => do
    match ← check executor r start e with
    | .error error => return .error error
    | .ok passed =>
      let rest ← failures (start + 1) rs e
      return rest.map fun fails => if passed then fails else start :: fails

/-- The numbers of the rules that an entry fails. -/
def lint (l : Linter) (e : Entry) : m (Except LintError (List Nat)) :=
  failures executor 0 l.rules e

end Checking

/-- How reports call a rule. -/
def ruleName (l : Linter) (i : Nat) : String :=
  match l.rules[i]? with
  | some r => r.rule.displayName i
  | none => ""

end Linter

/-! ### The environment of commands -/

namespace Lint

/-- One character of a key in the name of a variable. -/
def envChar (c : Char) : Char :=
  if c = '-' ∨ c = ':' then '_' else c.toUpper

/-- The name of the variable for an attribute. -/
def attrVariable (key : String) : String :=
  "TAGREF_ATTR_" ++ String.ofList (key.toList.map envChar)

/-- The variables that a command sees: the name, the path and every attribute, in this order.
Of two variables with one name the later counts. -/
def environment (e : Entry) : List (String × String) :=
  ("TAGREF_NAME", e.name) :: ("TAGREF_PATH", e.loc.path)
    :: e.attrs.pairs.map fun (key, value) => (attrVariable key, value)

end Lint

end CrossTag
