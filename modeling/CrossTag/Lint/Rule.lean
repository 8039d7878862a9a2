import CrossTag.Pattern.Basic

/-!
# Lint rules

A lint rule names a command that checks entries, and may select the entries it applies to by
their paths, with a glob or with a regular expression, but not with both. A rule without a name
goes by its number.
-/

namespace CrossTag

/-- A rule as it is configured. -/
structure Rule where
  name : String := ""
  pathGlob : Option String := none
  pathRegex : Option String := none
  /-- The command and its arguments. -/
  shell : List String := []
deriving DecidableEq, Repr

/-- What is wrong with a rule. -/
inductive RuleFault
  | twoFilters
  | noShell
  | badFilter (error : PatternError)
deriving DecidableEq, Repr

def RuleFault.message : RuleFault → String
  | twoFilters => "path-glob and path-re are mutually exclusive"
  | noShell => "shell is required"
  | badFilter error => error.message

/-- A rule that cannot be used: how reports call it, and what is wrong with it. -/
structure RuleError where
  rule : String
  fault : RuleFault
deriving DecidableEq, Repr

def RuleError.message (e : RuleError) : String :=
  "rule " ++ e.rule ++ ": " ++ e.fault.message

namespace Rule

/-- How reports call the rule with number `i`. -/
def displayName (r : Rule) (i : Nat) : String :=
  if r.name.isEmpty then "#" ++ toString i else r.name

/-- Checks a rule by itself. -/
def validate (r : Rule) : Except RuleFault Unit :=
  if r.pathGlob.isSome && r.pathRegex.isSome then .error .twoFilters
  else if r.shell.isEmpty then .error .noShell
  else .ok ()

/-- Checks rules in their order, with numbers from `start` on. -/
def validateAll : (start : Nat) → List Rule → Except RuleError Unit
  | _, [] => .ok ()
  | start, r :: rs =>
    match r.validate with
    | .error fault => .error ⟨r.displayName start, fault⟩
    | .ok () => validateAll (start + 1) rs

/-- The pattern that selects paths, if there is one. -/
def filter (r : Rule) : Except PatternError (Option Pattern) :=
  match r.pathGlob, r.pathRegex with
  | some text, _ => some <$> Pattern.compile .glob text
  | none, some text => some <$> Pattern.compile .regexp text
  | none, none => .ok none

end Rule

end CrossTag
