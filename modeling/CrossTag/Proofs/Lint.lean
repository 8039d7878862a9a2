import Mathlib.Data.List.Forall2
import CrossTag.Proofs.Query
import CrossTag.Shell.Run

/-!
# Checking entries against rules

A check of an entry goes through the rules of a linter. What it comes to is said in two steps, with
the list of the rules that apply in between:

    rules  --chosen-->  rules that apply, with their numbers
                          --called-->   those that an executor is asked about
                          --verdict-->  what is reported

The first step is settled by the filters, which an accepted rule has at most one of
(`mem_chosen_iff`). The second step knows nothing of filters any more, and ends at the first rule
that errs (`of_answers`, `of_error`). That a check has no other effects than those of the calls is
shown for executors in any monad (`failures_withEffect`), so that calls may be recorded, and so that
running commands is covered as well.
-/

namespace CrossTag

open Outcome

/-! ### Rules that are accepted -/

namespace Rule

/-- A rule that can be used: it has a command and at most one filter. -/
structure Usable (r : Rule) : Prop where
  shell : r.shell ≠ []
  filters : r.pathGlob = none ∨ r.pathRegex = none

/-- A rule applies to an entry if the path of the entry fits every filter that the rule has. -/
structure Selects (r : Rule) (e : Entry) : Prop where
  glob : ∀ text, r.pathGlob = some text → PatternKind.glob.Fits text e.loc.path
  regexp : ∀ text, r.pathRegex = some text → PatternKind.regexp.Fits text e.loc.path

theorem validate_eq_ok_iff {r : Rule} : r.validate = .ok () ↔ r.Usable := by
  have hfilters : (r.pathGlob.isSome && r.pathRegex.isSome) = false ↔
      r.pathGlob = none ∨ r.pathRegex = none := by
    cases r.pathGlob <;> cases r.pathRegex <;> simp
  rw [validate]
  cases hboth : r.pathGlob.isSome && r.pathRegex.isSome with
  | true =>
    refine iff_of_false ?_ fun h => ?_
    · intro h
      cases h
    · rw [hfilters.2 h.filters] at hboth
      cases hboth
  | false =>
    by_cases hshell : r.shell = []
    · refine iff_of_false ?_ fun h => h.shell hshell
      simp [hshell]
    · exact iff_of_true (by simp [hshell]) ⟨hshell, hfilters.1 hboth⟩

theorem validateAll_eq_ok_iff {start : Nat} {rules : List Rule} :
    validateAll start rules = .ok () ↔ ∀ r ∈ rules, r.Usable := by
  induction rules generalizing start with
  | nil => simp [validateAll]
  | cons r rules ih =>
    have hrest : validateAll (start + 1) rules = .ok () ↔ ∀ r ∈ rules, r.Usable := ih
    rw [validateAll, List.forall_mem_cons, ← validate_eq_ok_iff, ← hrest]
    cases r.validate with
    | error fault => simp
    | ok _ => simp

/-- The compiled filter of a rule lets those entries through that the rule applies to. -/
theorem all_filter_iff {r : Rule} (h : r.Usable) {filter : Option Pattern}
    (hfilter : r.filter = .ok filter) {e : Entry} :
    filter.all (·.isMatch e.loc.path) = true ↔ r.Selects e := by
  have hcompile : ∀ {kind : PatternKind} {text : String},
      some <$> Pattern.compile kind text = .ok filter →
        (filter.all (·.isMatch e.loc.path) = true ↔ kind.Fits text e.loc.path) := by
    intro kind text hcompile
    obtain ⟨p, hp, rfl⟩ := map_eq_ok_iff.1 hcompile
    rw [PatternKind.fits_iff_of_compile hp]
    rfl
  rw [Rule.filter] at hfilter
  cases hglob : r.pathGlob with
  | some text =>
    have hregex : r.pathRegex = none := h.filters.resolve_left (by simp [hglob])
    rw [hglob, hregex] at hfilter
    rw [hcompile hfilter]
    exact ⟨fun hfits => ⟨by simp [hglob, hfits], by simp [hregex]⟩, fun hsel => hsel.glob text hglob⟩
  | none =>
    cases hregex : r.pathRegex with
    | some text =>
      rw [hglob, hregex] at hfilter
      rw [hcompile hfilter]
      exact ⟨fun hfits => ⟨by simp [hglob], by simp [hregex, hfits]⟩,
        fun hsel => hsel.regexp text hregex⟩
    | none =>
      rw [hglob, hregex] at hfilter
      cases hfilter
      exact iff_of_true rfl ⟨by simp [hglob], by simp [hregex]⟩

end Rule

namespace Linter

/-- A rule that was checked and compiled. -/
structure Compiles (r : Rule) (c : CheckedRule) : Prop where
  rule : c.rule = r
  filter : r.filter = .ok c.filter

theorem compileFrom_eq_ok_iff {start : Nat} {rules : List Rule} {checked : List CheckedRule} :
    compileFrom start rules = .ok checked ↔ List.Forall₂ Compiles rules checked := by
  induction rules generalizing start checked with
  | nil => simp [compileFrom, eq_comm]
  | cons r rules ih =>
    rw [compileFrom, List.forall₂_cons_left_iff]
    cases hfilter : r.filter with
    | error fault =>
      refine iff_of_false (by simp) ?_
      rintro ⟨c, -, hc, -, -⟩
      rw [hc.filter] at hfilter
      cases hfilter
    | ok filter =>
      simp only [map_eq_ok_iff, ih]
      constructor
      · rintro ⟨rest, hrest, rfl⟩
        exact ⟨⟨r, filter⟩, rest, ⟨rfl, hfilter⟩, hrest, rfl⟩
      · rintro ⟨⟨rule, filter'⟩, rest, hc, hrest, rfl⟩
        obtain ⟨rfl, hfilter'⟩ := hc
        cases hfilter.symm.trans hfilter'
        exact ⟨rest, hrest, rfl⟩

/-- **Which lists of rules are accepted.** -/
theorem ofRules_eq_ok_iff {rules : List Rule} {l : Linter} :
    ofRules rules = .ok l ↔ (∀ r ∈ rules, r.Usable) ∧ List.Forall₂ Compiles rules l.rules := by
  rw [ofRules, bind_eq_ok_iff]
  constructor
  · rintro ⟨_, hvalid, h⟩
    obtain ⟨checked, hchecked, h⟩ := bind_eq_ok_iff.1 h
    cases h
    exact ⟨Rule.validateAll_eq_ok_iff.1 hvalid, compileFrom_eq_ok_iff.1 hchecked⟩
  · rintro ⟨husable, hcompiles⟩
    refine ⟨(), Rule.validateAll_eq_ok_iff.2 husable, ?_⟩
    exact bind_eq_ok_iff.2 ⟨l.rules, compileFrom_eq_ok_iff.2 hcompiles, rfl⟩

/-! ### What is called -/

/-- The rules that apply to an entry, with their numbers. -/
def chosen (start : Nat) (checked : List CheckedRule) (e : Entry) : List (Nat × Rule) :=
  (checked.zipIdx start).filterMap fun p =>
    if selects p.1 e then some (p.2, p.1.rule) else none

theorem chosen_cons (start : Nat) (c : CheckedRule) (cs : List CheckedRule) (e : Entry) :
    chosen start (c :: cs) e
      = if selects c e then (start, c.rule) :: chosen (start + 1) cs e
        else chosen (start + 1) cs e := by
  rw [chosen, List.zipIdx_cons]
  by_cases hsel : selects c e = true
  · simp only [List.filterMap_cons, if_pos hsel, chosen]
  · simp only [List.filterMap_cons, if_neg hsel, chosen]

section Calls

variable (answer : Rule → Entry → Except String Bool) (e : Entry)

/-- The rules that are called, in order: those up to the first error. -/
def called : List (Nat × Rule) → List (Nat × Rule)
  | [] => []
  | (i, r) :: rest =>
    match answer r e with
    | .error _ => [(i, r)]
    | .ok _ => (i, r) :: called rest

/-- What comes of the answers for some rules. -/
def verdict : List (Nat × Rule) → Except LintError (List Nat)
  | [] => .ok []
  | (i, r) :: rest =>
    match answer r e with
    | .error report => .error (.inRule (r.displayName i) report)
    | .ok passed => (verdict rest).map fun fails => if passed then fails else i :: fails

/-- None of the rules errs. -/
def AllAnswer (rules : List (Nat × Rule)) : Prop :=
  ∀ p ∈ rules, ∃ passed, answer p.2 e = .ok passed

/-- An executor with an effect of its own before each answer. -/
def withEffect {m : Type → Type} [Monad m] (effect : Rule → Entry → m Unit) : Executor m :=
  fun r e => do
    effect r e
    return answer r e

variable {m : Type → Type} [Monad m] [LawfulMonad m] (effect : Rule → Entry → m Unit)

/-- **The effects of a check are those of the rules that are called.** -/
theorem failures_withEffect (start : Nat) (checked : List CheckedRule) :
    failures (withEffect answer effect) start checked e = do
      (called answer e (chosen start checked e)).forM fun p => effect p.2 e
      return verdict answer e (chosen start checked e) := by
  induction checked generalizing start with
  | nil => simp [failures, chosen, called, verdict]
  | cons c cs ih =>
    rw [failures, check, chosen_cons]
    split
    · cases hanswer : answer c.rule e with
      | error report => simp [withEffect, hanswer, called, verdict, Except.mapError]
      | ok passed => simp [withEffect, hanswer, called, verdict, Except.mapError, ih]
    · -- A rule that does not apply passes, and leaves the rest as it is.
      have hmap : ∀ x : Except LintError (List Nat), x.map (fun fails => fails) = x := by
        rintro (_ | _) <;> rfl
      simp [ih, hmap]

variable {answer e}

/-- If no rule errs, all of them are called, and those that the entry fails are reported. -/
theorem of_answers {rules : List (Nat × Rule)} (h : AllAnswer answer e rules) :
    called answer e rules = rules
      ∧ verdict answer e rules
        = .ok ((rules.filter fun p => (answer p.2 e).toOption = some false).map (·.1)) := by
  induction rules with
  | nil => exact ⟨rfl, rfl⟩
  | cons p rest ih =>
    obtain ⟨⟨passed, hpassed⟩, hrest⟩ := List.forall_mem_cons.1 h
    obtain ⟨hcalled, hverdict⟩ := ih hrest
    cases passed with
    | true => simp [called, verdict, hpassed, hcalled, hverdict, Except.map, Except.toOption]
    | false => simp [called, verdict, hpassed, hcalled, hverdict, Except.map, Except.toOption]

/-- The first rule that errs is the last that is called, and it is reported. -/
theorem of_error {before : List (Nat × Rule)} {r : Rule} {report : String}
    (hbefore : AllAnswer answer e before) (h : answer r e = .error report) (i : Nat)
    (after : List (Nat × Rule)) :
    called answer e (before ++ (i, r) :: after) = before ++ [(i, r)]
      ∧ verdict answer e (before ++ (i, r) :: after)
        = .error (.inRule (r.displayName i) report) := by
  induction before with
  | nil => simp [called, verdict, h]
  | cons p rest ih =>
    obtain ⟨⟨passed, hpassed⟩, hrest⟩ := List.forall_mem_cons.1 hbefore
    obtain ⟨hcalled, hverdict⟩ := ih hrest
    simp [called, verdict, hpassed, hcalled, hverdict, Except.map]

theorem toOption_eq_false_iff {x : Except String Bool} :
    x.toOption = some false ↔ x = .ok false := by
  cases x with
  | error report => simp [Except.toOption]
  | ok passed => simp [Except.toOption]

/-- If something is reported, no rule has erred. -/
theorem allAnswer_of_verdict {rules : List (Nat × Rule)} {fails : List Nat}
    (h : verdict answer e rules = .ok fails) : AllAnswer answer e rules := by
  induction rules generalizing fails with
  | nil => simp [AllAnswer]
  | cons p rest ih =>
    rw [verdict] at h
    cases hanswer : answer p.2 e with
    | error report =>
      simp only [hanswer] at h
      cases h
    | ok passed =>
      simp only [hanswer] at h
      obtain ⟨fails', hrest, -⟩ := map_eq_ok_iff.1 h
      exact List.forall_mem_cons.2 ⟨⟨passed, hanswer⟩, ih hrest⟩

/-- What is reported are the rules that the entry fails. -/
theorem mem_of_verdict_iff {rules : List (Nat × Rule)} {fails : List Nat}
    (h : verdict answer e rules = .ok fails) (i : Nat) :
    i ∈ fails ↔ ∃ r, (i, r) ∈ rules ∧ answer r e = .ok false := by
  have hfails := (of_answers (allAnswer_of_verdict h)).2
  cases h.symm.trans hfails
  simp [toOption_eq_false_iff]

/-- If some rule errs, there is a first one that does. -/
theorem exists_first_error {rules : List (Nat × Rule)} (h : ¬ AllAnswer answer e rules) :
    ∃ before i r after report, rules = before ++ (i, r) :: after ∧ AllAnswer answer e before
      ∧ answer r e = .error report := by
  induction rules with
  | nil => exact absurd (by simp [AllAnswer]) h
  | cons p rest ih =>
    obtain ⟨i, r⟩ := p
    cases hanswer : answer r e with
    | error report => exact ⟨[], i, r, rest, report, rfl, by simp [AllAnswer], hanswer⟩
    | ok passed =>
      have hrest : ¬ AllAnswer answer e rest := fun hrest =>
        h (List.forall_mem_cons.2 ⟨⟨passed, hanswer⟩, hrest⟩)
      obtain ⟨before, j, r', after, report, rfl, hbefore, hreport⟩ := ih hrest
      exact ⟨(i, r) :: before, j, r', after, report, rfl,
        List.forall_mem_cons.2 ⟨⟨passed, hanswer⟩, hbefore⟩, hreport⟩

/-- What is reported was answered for one of the rules. -/
theorem exists_of_verdict_error {rules : List (Nat × Rule)} {error : LintError}
    (h : verdict answer e rules = .error error) :
    ∃ i r report, (i, r) ∈ rules ∧ answer r e = .error report
      ∧ error = .inRule (r.displayName i) report := by
  induction rules with
  | nil => cases h
  | cons p rest ih =>
    obtain ⟨i, r⟩ := p
    rw [verdict] at h
    cases hanswer : answer r e with
    | error report =>
      simp only [hanswer] at h
      cases h
      exact ⟨i, r, report, List.mem_cons_self, hanswer, rfl⟩
    | ok passed =>
      simp only [hanswer] at h
      cases hrest : verdict answer e rest with
      | error error' =>
        rw [hrest] at h
        cases h
        obtain ⟨j, r', report, hmem, hreport, rfl⟩ := ih hrest
        exact ⟨j, r', report, List.mem_cons_of_mem _ hmem, hreport, rfl⟩
      | ok fails =>
        rw [hrest] at h
        cases h

end Calls

/-! ### Rules that are chosen -/

/-- Rules are chosen in the order of their numbers. -/
theorem chosen_sublist (start : Nat) (checked : List CheckedRule) (e : Entry) :
    ((chosen start checked e).map (·.1)).Sublist (List.range' start checked.length) := by
  induction checked generalizing start with
  | nil => exact .slnil
  | cons c cs ih =>
    rw [chosen_cons, List.length_cons, List.range'_succ]
    split
    · exact (ih (start + 1)).cons_cons start
    · exact (ih (start + 1)).cons start

theorem chosen_ordered (checked : List CheckedRule) (e : Entry) :
    (chosen 0 checked e).Pairwise fun p q => p.1 < q.1 :=
  List.pairwise_map.1 (List.Pairwise.sublist (chosen_sublist 0 checked e) List.pairwise_lt_range')

theorem getElem?_compiled {rules : List Rule} {checked : List CheckedRule}
    (h : List.Forall₂ Compiles rules checked) (i : Nat) :
    rules[i]? = none ∧ checked[i]? = none
      ∨ ∃ r c, rules[i]? = some r ∧ checked[i]? = some c ∧ Compiles r c := by
  induction h generalizing i with
  | nil => simp
  | cons hc _ ih =>
    cases i with
    | zero => exact .inr ⟨_, _, rfl, rfl, hc⟩
    | succ i => exact ih i

/-- The rules that apply to an entry, in the order of their numbers. -/
structure IsSelection (rules : List Rule) (e : Entry) (chosen : List (Nat × Rule)) : Prop where
  ordered : chosen.Pairwise fun p q => p.1 < q.1
  mem_iff : ∀ i r, (i, r) ∈ chosen ↔ rules[i]? = some r ∧ r.Selects e

section Accepted

variable {rules : List Rule} {l : Linter} {e : Entry}

theorem usable_of_getElem? (h : ofRules rules = .ok l) {i : Nat} {r : Rule}
    (hr : rules[i]? = some r) : r.Usable :=
  (ofRules_eq_ok_iff.1 h).1 r (List.mem_of_getElem? hr)

theorem selects_iff (h : ofRules rules = .ok l) {i : Nat} {r : Rule} {c : CheckedRule}
    (hr : rules[i]? = some r) (hc : Compiles r c) : selects c e = true ↔ r.Selects e :=
  Rule.all_filter_iff (usable_of_getElem? h hr) hc.filter

/-- A rule stands compiled where it was given. -/
theorem exists_compiled (h : ofRules rules = .ok l) {i : Nat} {r : Rule}
    (hr : rules[i]? = some r) : ∃ c, l.rules[i]? = some c ∧ Compiles r c := by
  rcases getElem?_compiled (ofRules_eq_ok_iff.1 h).2 i with ⟨hnone, -⟩ | ⟨r', c, hr', hc, hcomp⟩
  · rw [hr] at hnone
    cases hnone
  · cases hr.symm.trans hr'
    exact ⟨c, hc, hcomp⟩

/-- Exactly those rules are chosen that apply to the entry. -/
theorem mem_chosen_iff (h : ofRules rules = .ok l) {i : Nat} {r : Rule} :
    (i, r) ∈ chosen 0 l.rules e ↔ rules[i]? = some r ∧ r.Selects e := by
  rw [chosen, List.mem_filterMap]
  constructor
  · rintro ⟨⟨c, j⟩, hmem, hsome⟩
    split at hsome
    · rename_i hsel
      cases hsome
      rw [List.mk_mem_zipIdx_iff_getElem?] at hmem
      rcases getElem?_compiled (ofRules_eq_ok_iff.1 h).2 j with ⟨-, hnone⟩ | ⟨r, c', hr, hc, hcomp⟩
      · rw [hmem] at hnone
        cases hnone
      · cases hmem.symm.trans hc
        rw [hcomp.rule]
        exact ⟨hr, (selects_iff h hr hcomp).1 hsel⟩
    · cases hsome
  · rintro ⟨hr, hsel⟩
    obtain ⟨c, hc, hcomp⟩ := exists_compiled h hr
    refine ⟨(c, i), List.mk_mem_zipIdx_iff_getElem?.2 hc, ?_⟩
    rw [if_pos ((selects_iff h hr hcomp).2 hsel), hcomp.rule]

theorem isSelection_chosen (h : ofRules rules = .ok l) (e : Entry) :
    IsSelection rules e (chosen 0 l.rules e) :=
  ⟨chosen_ordered l.rules e, fun _ _ => mem_chosen_iff h⟩

end Accepted

/-! ### Calls that are recorded -/

/-- Records a call. -/
def note (r : Rule) (e : Entry) : StateM (List (Rule × Entry)) Unit :=
  modify (· ++ [(r, e)])

/-- An executor that answers by a function and keeps a record of its calls. -/
def recording (answer : Rule → Entry → Except String Bool) :
    Executor (StateM (List (Rule × Entry))) :=
  withEffect answer note

theorem run_notes (e : Entry) (rules : List (Nat × Rule)) (record : List (Rule × Entry)) :
    (rules.forM fun p => note p.2 e).run record
      = ((), record ++ rules.map fun p => (p.2, e)) := by
  induction rules generalizing record with
  | nil =>
    rw [List.map_nil, List.append_nil]
    rfl
  | cons p rest ih =>
    rw [List.map_cons, List.append_cons, ← ih]
    rfl

theorem run_lint (answer : Rule → Entry → Except String Bool) (l : Linter) (e : Entry)
    (record : List (Rule × Entry)) :
    (l.lint (recording answer) e).run record
      = (verdict answer e (chosen 0 l.rules e),
          record ++ (called answer e (chosen 0 l.rules e)).map fun p => (p.2, e)) := by
  rw [lint, recording, failures_withEffect, StateT.run_bind, run_notes]
  rfl

/-- An executor without effects only answers. -/
theorem lint_pure (executor : Executor Id) (l : Linter) (e : Entry) :
    l.lint executor e = verdict executor e (chosen 0 l.rules e) :=
  failures_withEffect executor e (fun _ _ => pure ()) 0 l.rules

section SingleRule

variable {rules : List Rule} {l : Linter} {e : Entry} {i : Nat} {r : Rule}

/-- A rule that applies is called once, and answers for itself. -/
theorem lintRule_of_selects {m : Type → Type} [Monad m] (executor : Executor m)
    (h : ofRules rules = .ok l) (hr : rules[i]? = some r) (hsel : r.Selects e) :
    l.lintRule executor i e = do
      let answer ← executor r e
      return answer.mapError fun report => .inRule (r.displayName i) report := by
  obtain ⟨c, hc, hcomp⟩ := exists_compiled h hr
  rw [lintRule, hc]
  show check executor c i e = _
  rw [check, if_pos ((selects_iff h hr hcomp).2 hsel), hcomp.rule]

/-- A rule that does not apply passes without a call. -/
theorem lintRule_of_not_selects {m : Type → Type} [Monad m] (executor : Executor m)
    (h : ofRules rules = .ok l) (hr : rules[i]? = some r) (hsel : ¬ r.Selects e) :
    l.lintRule executor i e = pure (.ok true) := by
  obtain ⟨c, hc, hcomp⟩ := exists_compiled h hr
  rw [lintRule, hc]
  show check executor c i e = _
  rw [check, if_neg fun hselects => hsel ((selects_iff h hr hcomp).1 hselects)]

theorem lintRule_of_length_le {m : Type → Type} [Monad m] (executor : Executor m)
    (h : ofRules rules = .ok l) (hi : rules.length ≤ i) :
    l.lintRule executor i e = pure (.error (.noRule i)) := by
  rcases getElem?_compiled (ofRules_eq_ok_iff.1 h).2 i with ⟨-, hnone⟩ | ⟨r, c, hr, -, -⟩
  · rw [lintRule, hnone]
  · rw [List.getElem?_eq_none hi] at hr
    cases hr

end SingleRule

end Linter

/-! ### Commands -/

/-- A rule with a command is never reported as one without. -/
theorem Shell.executor_ne_empty {r : Rule} (h : r.shell ≠ []) (t : Tree) (e : Entry)
    (name : String) : Shell.executor t r e ≠ .error (name ++ ": empty command") := by
  -- The texts of all other reports end differently.
  have hlast : ∀ {report : String}, report = name ++ ": empty command" →
      report.toList.getLast? = some 'd' := by
    rintro _ rfl
    simp
  obtain ⟨program, arguments, hshell⟩ := List.exists_cons_of_ne_nil h
  intro herror
  simp only [Shell.executor, hshell] at herror
  split at herror
  · have := hlast (Except.error.inj herror)
    simp at this
  · split at herror
    · cases herror
    · rename_i fault _
      have hend : fault.message.toList.getLast? = some ')' := by cases fault <;> rfl
      have := hlast (Except.error.inj herror)
      rw [String.toList_append, List.getLast?_append, hend] at this
      cases this

namespace Linter

section Whole

variable {rules : List Rule} {l : Linter} {answer : Rule → Entry → Except String Bool} {e : Entry}

/-- A single rule passes exactly if it is not among those that are reported. -/
theorem lintRule_of_lint (h : ofRules rules = .ok l) {i : Nat} {r : Rule}
    (hr : rules[i]? = some r) {fails : List Nat} {record : List (Rule × Entry)}
    (hlint : ((l.lint (recording answer) e).run record).1 = .ok fails) :
    ((l.lintRule (recording answer) i e).run record).1 = .ok (decide (i ∉ fails)) := by
  rw [run_lint] at hlint
  have hverdict : verdict answer e (chosen 0 l.rules e) = .ok fails := hlint
  have hmem := mem_of_verdict_iff hverdict i
  simp only [mem_chosen_iff h] at hmem
  by_cases hsel : r.Selects e
  · obtain ⟨passed, hpassed⟩ := allAnswer_of_verdict hverdict (i, r)
      ((mem_chosen_iff h).2 ⟨hr, hsel⟩)
    have hpassed : answer r e = .ok passed := hpassed
    rw [lintRule_of_selects _ h hr hsel]
    show (answer r e).mapError _ = _
    have hiff : i ∈ fails ↔ passed = false := by
      rw [hmem]
      simp [hr, hsel, hpassed]
    cases passed with
    | true => simp [hpassed, hiff, Except.mapError]
    | false => simp [hpassed, hiff, Except.mapError]
  · have hnot : i ∉ fails := by
      rw [hmem]
      rintro ⟨r', ⟨hr', hsel'⟩, -⟩
      cases hr.symm.trans hr'
      exact hsel hsel'
    rw [lintRule_of_not_selects _ h hr hsel]
    show Except.ok true = _
    simp [hnot]

/-- No command is reported as missing. -/
theorem lint_ne_empty (h : ofRules rules = .ok l) (t : Tree) (e : Entry) (name program : String) :
    l.lint (Shell.executor t) e ≠ .error (.inRule name (program ++ ": empty command")) := by
  intro herror
  rw [lint_pure] at herror
  obtain ⟨i, r, report, hmem, hreport, heq⟩ := exists_of_verdict_error herror
  cases heq
  have hr := ((mem_chosen_iff h).1 hmem).1
  exact Shell.executor_ne_empty (usable_of_getElem? h hr).shell t e program hreport

theorem lintRule_ne_empty (h : ofRules rules = .ok l) (t : Tree) (e : Entry)
    (name program : String) (i : Nat) :
    l.lintRule (Shell.executor t) i e ≠ .error (.inRule name (program ++ ": empty command")) := by
  intro herror
  cases hr : rules[i]? with
  | none =>
    rw [lintRule_of_length_le _ h (List.getElem?_eq_none_iff.1 hr)] at herror
    cases herror
  | some r =>
    by_cases hsel : r.Selects e
    · rw [lintRule_of_selects _ h hr hsel] at herror
      obtain ⟨report, hreport, heq⟩ := mapError_eq_error_iff.1 herror
      cases heq
      exact Shell.executor_ne_empty (usable_of_getElem? h hr).shell t e program hreport
    · rw [lintRule_of_not_selects _ h hr hsel] at herror
      cases herror

end Whole

/-- **Each rule that applies is checked once, in order.** A list of rules is accepted only if all of
them have a command and at most one filter. The rules that apply to an entry, in the order of their
numbers, are then called one after the other. If none of them errs, exactly the failed ones are
reported, in order. Otherwise the first one that errs is reported by its name, and no rule behind it
is called. A single rule is called if it applies, and answers as it does in a whole check. No command
is ever reported as missing. -/
theorem lint_selected {rules : List Rule} {l : Linter} (h : ofRules rules = .ok l)
    (answer : Rule → Entry → Except String Bool) (e : Entry) (record : List (Rule × Entry)) :
    (∀ r ∈ rules, r.Usable)
      ∧ (∃ selection, IsSelection rules e selection
          ∧ (AllAnswer answer e selection →
              ∃ fails, (l.lint (recording answer) e).run record
                  = (.ok fails, record ++ selection.map fun p => (p.2, e))
                ∧ fails.Pairwise (· < ·)
                ∧ ∀ i, i ∈ fails ↔ ∃ r, (i, r) ∈ selection ∧ answer r e = .ok false)
          ∧ (¬ AllAnswer answer e selection →
              ∃ before i r after report, selection = before ++ (i, r) :: after
                ∧ AllAnswer answer e before ∧ answer r e = .error report
                ∧ (l.lint (recording answer) e).run record
                  = (.error (.inRule (r.displayName i) report),
                      record ++ (before ++ [(i, r)]).map fun p => (p.2, e))))
      ∧ (∀ i r, rules[i]? = some r →
          (r.Selects e → (l.lintRule (recording answer) i e).run record
              = ((answer r e).mapError fun report => .inRule (r.displayName i) report,
                  record ++ [(r, e)]))
            ∧ (¬ r.Selects e →
                (l.lintRule (recording answer) i e).run record = (.ok true, record))
            ∧ ∀ fails, ((l.lint (recording answer) e).run record).1 = .ok fails →
                ((l.lintRule (recording answer) i e).run record).1 = .ok (decide (i ∉ fails)))
      ∧ (∀ i, rules.length ≤ i →
          (l.lintRule (recording answer) i e).run record = (.error (.noRule i), record))
      ∧ ∀ (t : Tree) (name program : String),
          l.lint (Shell.executor t) e ≠ .error (.inRule name (program ++ ": empty command"))
            ∧ ∀ i, l.lintRule (Shell.executor t) i e
                ≠ .error (.inRule name (program ++ ": empty command")) := by
  refine ⟨(ofRules_eq_ok_iff.1 h).1, ⟨_, isSelection_chosen h e, ?_, ?_⟩, ?_, ?_, ?_⟩
  · -- no rule errs
    intro hanswer
    obtain ⟨hcalled, hverdict⟩ := of_answers hanswer
    refine ⟨_, by rw [run_lint, hcalled, hverdict], ?_, mem_of_verdict_iff hverdict⟩
    exact List.pairwise_map.2 ((chosen_ordered l.rules e).filter _)
  · -- the first rule that errs
    intro herror
    obtain ⟨before, i, r, after, report, hsplit, hbefore, hreport⟩ := exists_first_error herror
    obtain ⟨hcalled, hverdict⟩ := of_error hbefore hreport i after
    exact ⟨before, i, r, after, report, hsplit, hbefore, hreport,
      by rw [run_lint, hsplit, hcalled, hverdict]⟩
  · intro i r hr
    refine ⟨fun hsel => ?_, fun hsel => ?_, fun fails => lintRule_of_lint h hr⟩
    · rw [lintRule_of_selects _ h hr hsel]
      rfl
    · rw [lintRule_of_not_selects _ h hr hsel]
      rfl
  · intro i hi
    rw [lintRule_of_length_le _ h hi]
    rfl
  · intro t name program
    exact ⟨lint_ne_empty h t e name program, lintRule_ne_empty h t e name program⟩

/-- Three rules, of which the second is for other files. -/
def threeRules : List Rule :=
  [{ shell := ["a"] }, { name := "b", pathGlob := some "*.c", shell := ["b"] },
    { name := "c", shell := ["c"] }]

/-- The same rules with their filters compiled. -/
def threeChecked : Linter where
  rules := [⟨{ shell := ["a"] }, none⟩,
    ⟨{ name := "b", pathGlob := some "*.c", shell := ["b"] },
      some (.glob ⟨"*.c", .anywhere ⟨[.run, .literal '.', .literal 'c']⟩, false⟩)⟩,
    ⟨{ name := "c", shell := ["c"] }, none⟩]

/-- An entry that the second rule does not apply to. -/
def meowInRust : Entry :=
  ⟨"meow", .empty, ⟨"a.rs", 1, 1, 10⟩⟩

theorem lint_selected_threeRules :
    ofRules threeRules = .ok threeChecked
      ∧ ((threeChecked.lint (recording fun _ _ => .ok false) meowInRust).run []).1 = .ok [0, 2]
      ∧ ((threeChecked.lintRule (recording fun _ _ => .ok false) 1 meowInRust).run []).1
        = .ok true := by
  have h : ofRules threeRules = .ok threeChecked := by with_unfolding_all rfl
  have hlint : ((threeChecked.lint (recording fun _ _ => .ok false) meowInRust).run []).1
      = .ok [0, 2] := by with_unfolding_all rfl
  obtain ⟨-, -, hsingle, -⟩ := lint_selected h (fun _ _ => .ok false) meowInRust []
  exact ⟨h, hlint, by simpa using (hsingle 1 _ rfl).2.2 _ hlint⟩

end Linter

end CrossTag
