import CrossTag.Pattern.Glob

/-!
# What a `**` absorbs

A glob with separators describes a path if its segments can be laid over the components from
the left: a pattern over one component that fits it, a `**` over any number of them. Matching
does not look for such a covering; it lays every `**` as short as it can and never comes back.
This module says what that is worth.

`Spans` is the relation between segments and components, with a parameter for what a `**` may
absorb. With `anything` it is the meaning of a glob; with `firstFit` it is what matching finds
(`consume_eq_some_iff`). The second implies the first. The converse needs two things:

* some segment is a pattern, since matching never selects a path of which it took no component;
* the glob is *steady*: every pattern that has a `**` somewhere before it has one directly before
  it. Then a pattern that took an earlier component than it had to leaves more to the segments
  behind it, all of which can skip what they do not need (`Spans.firstFit_of_steady`).

In a glob that is not steady, a pattern follows a `**` at a distance. Where the first fit of the
patterns between them is not the right one, matching fails, and components for which that is so
are easily found (`not_spans_firstFit`). So the two meanings agree on all paths, whatever the
component patterns say, exactly for the globs above and for those that match nothing at all
(`isMatchBy_anchored`).
-/

namespace CrossTag.Glob

section Matching

variable {α β : Type} {holds : α → β → Bool}

/-! ### Coverings -/

/-- `Spans holds absorbs segments cs rest`: the segments cover the components `cs` up to `rest`.
`absorbs` says which components a `**` before the given segments may absorb; at the end of a
glob it absorbs none. -/
inductive Spans (holds : α → β → Bool) (absorbs : List (Segment α) → List β → Prop) :
    List (Segment α) → List β → List β → Prop
  | done (cs : List β) : Spans holds absorbs [] cs cs
  | root {segments : List (Segment α)} {cs rest : List β} :
      Spans holds absorbs segments cs rest → Spans holds absorbs (.root :: segments) cs rest
  | lastDirs (cs : List β) : Spans holds absorbs [.anyDirs] cs cs
  | dirs {segments : List (Segment α)} {skipped cs rest : List β} :
      segments ≠ [] → absorbs segments skipped → Spans holds absorbs segments cs rest →
      Spans holds absorbs (.anyDirs :: segments) (skipped ++ cs) rest
  | one {pattern : α} {c : β} {segments : List (Segment α)} {cs rest : List β} :
      holds pattern c = true → Spans holds absorbs segments cs rest →
      Spans holds absorbs (.one pattern :: segments) (c :: cs) rest

/-- A `**` absorbs any components. -/
def anything (_ : List (Segment α)) (_ : List β) : Prop := True

/-- A `**` directly before a pattern absorbs the components up to the first one that fits, and
any other absorbs nothing. -/
def firstFit (holds : α → β → Bool) : List (Segment α) → List β → Prop
  | .one pattern :: _, skipped => ∀ c ∈ skipped, holds pattern c = false
  | _, skipped => skipped = []

/-- The segments cover the components, and a glob for directories leaves one over unless the
path is a directory. -/
def Covers (holds : α → β → Bool) (absorbs : List (Segment α) → List β → Prop)
    (dirOnly isDir : Bool) (segments : List (Segment α)) (cs : List β) : Prop :=
  ∃ rest, Spans holds absorbs segments cs rest ∧ (dirOnly = true → isDir = false → rest ≠ [])

variable {absorbs : List (Segment α) → List β → Prop} {segments : List (Segment α)}
  {cs rest : List β}

@[simp] theorem spans_nil_iff : Spans holds absorbs [] cs rest ↔ cs = rest := by
  constructor
  · rintro ⟨⟩
    rfl
  · rintro rfl
    exact .done cs

@[simp] theorem spans_root_iff :
    Spans holds absorbs (.root :: segments) cs rest ↔ Spans holds absorbs segments cs rest := by
  constructor
  · rintro ⟨⟩
    assumption
  · exact .root

@[simp] theorem not_spans_never : ¬ Spans holds absorbs (.never :: segments) cs rest := by
  rintro ⟨⟩

@[simp] theorem spans_lastDirs_iff : Spans holds absorbs [.anyDirs] cs rest ↔ cs = rest := by
  constructor
  · intro h
    cases h with
    | lastDirs => rfl
    | dirs hne _ _ => exact absurd rfl hne
  · rintro rfl
    exact .lastDirs cs

theorem spans_dirs_iff (hne : segments ≠ []) :
    Spans holds absorbs (.anyDirs :: segments) cs rest ↔
      ∃ skipped tail, cs = skipped ++ tail ∧ absorbs segments skipped
        ∧ Spans holds absorbs segments tail rest := by
  constructor
  · intro h
    cases h with
    | lastDirs => exact absurd rfl hne
    | dirs _ habsorbs h => exact ⟨_, _, rfl, habsorbs, h⟩
  · rintro ⟨skipped, tail, rfl, habsorbs, h⟩
    exact .dirs hne habsorbs h

theorem spans_one_iff {pattern : α} :
    Spans holds absorbs (.one pattern :: segments) cs rest ↔
      ∃ c tail, cs = c :: tail ∧ holds pattern c = true
        ∧ Spans holds absorbs segments tail rest := by
  constructor
  · rintro ⟨⟩
    exact ⟨_, _, rfl, ‹_›, ‹_›⟩
  · rintro ⟨c, tail, rfl, hc, h⟩
    exact .one hc h

theorem spans_one_cons_iff {pattern : α} {c : β} :
    Spans holds absorbs (.one pattern :: segments) (c :: cs) rest ↔
      holds pattern c = true ∧ Spans holds absorbs segments cs rest := by
  constructor
  · rintro ⟨⟩
    exact ⟨‹_›, ‹_›⟩
  · rintro ⟨hc, h⟩
    exact .one hc h

/-- A `**` that may absorb more covers more. -/
theorem Spans.mono {absorbs' : List (Segment α) → List β → Prop}
    (hle : ∀ segments skipped, absorbs segments skipped → absorbs' segments skipped)
    (h : Spans holds absorbs segments cs rest) : Spans holds absorbs' segments cs rest := by
  induction h with
  | done cs => exact .done cs
  | root _ ih => exact .root ih
  | lastDirs cs => exact .lastDirs cs
  | dirs hne habsorbs _ ih => exact .dirs hne (hle _ _ habsorbs) ih
  | one hc _ ih => exact .one hc ih

/-! ### Matching finds the first fit -/

theorem skipTo_eq_some_iff {pattern : α} :
    skipTo holds pattern cs = some rest ↔
      ∃ skipped c, cs = skipped ++ c :: rest ∧ (∀ d ∈ skipped, holds pattern d = false)
        ∧ holds pattern c = true := by
  induction cs with
  | nil => simp [skipTo]
  | cons c cs ih =>
    rw [skipTo]
    by_cases hc : holds pattern c = true
    · rw [if_pos hc, Option.some.injEq]
      constructor
      · rintro rfl
        exact ⟨[], c, rfl, by simp, hc⟩
      · rintro ⟨skipped, d, heq, hskipped, -⟩
        cases skipped with
        | nil => exact (List.cons.inj heq).2
        | cons d skipped =>
          have hd : holds pattern c = false := (List.cons.inj heq).1 ▸ hskipped d List.mem_cons_self
          rw [hc] at hd
          cases hd
    · rw [if_neg hc, ih]
      constructor
      · rintro ⟨skipped, d, rfl, hskipped, hd⟩
        refine ⟨c :: skipped, d, rfl, ?_, hd⟩
        intro e he
        rcases List.mem_cons.1 he with rfl | he
        · simpa using hc
        · exact hskipped e he
      · rintro ⟨skipped, d, heq, hskipped, hd⟩
        cases skipped with
        | nil => exact absurd ((List.cons.inj heq).1 ▸ hd) hc
        | cons e skipped =>
          exact ⟨skipped, d, (List.cons.inj heq).2,
            fun x hx => hskipped x (List.mem_cons_of_mem _ hx), hd⟩

/-- True if the first segment is no pattern. -/
def StartsFree (segments : List (Segment α)) : Prop :=
  ∀ pattern, segments.head? ≠ some (.one pattern)

/-- Where no pattern follows, a `**` is laid over nothing. -/
theorem spans_firstFit_dirs_iff (hfree : StartsFree segments) :
    Spans holds (firstFit holds) (.anyDirs :: segments) cs rest ↔
      Spans holds (firstFit holds) segments cs rest := by
  cases segments with
  | nil => rw [spans_lastDirs_iff, spans_nil_iff]
  | cons s segments =>
    have hempty : ∀ skipped : List β, firstFit holds (s :: segments) skipped ↔ skipped = [] := by
      intro skipped
      cases s with
      | one pattern => exact absurd rfl (hfree pattern)
      | root => exact Iff.rfl
      | anyDirs => exact Iff.rfl
      | never => exact Iff.rfl
    rw [spans_dirs_iff (by simp)]
    constructor
    · rintro ⟨skipped, tail, rfl, hskipped, h⟩
      rw [(hempty skipped).1 hskipped]
      exact h
    · intro h
      exact ⟨[], cs, rfl, (hempty []).2 rfl, h⟩

/-- Laid over the first fit, a `**` and a pattern behind it cover what skipping takes. -/
theorem spans_firstFit_skip_iff {pattern : α} :
    Spans holds (firstFit holds) (.anyDirs :: .one pattern :: segments) cs rest ↔
      ∃ tail, skipTo holds pattern cs = some tail
        ∧ Spans holds (firstFit holds) segments tail rest := by
  rw [spans_dirs_iff (by simp)]
  constructor
  · rintro ⟨skipped, _, rfl, hskipped, h⟩
    obtain ⟨c, tail, rfl, hc, h⟩ := spans_one_iff.1 h
    exact ⟨tail, skipTo_eq_some_iff.2 ⟨skipped, c, rfl, hskipped, hc⟩, h⟩
  · rintro ⟨tail, hskip, h⟩
    obtain ⟨skipped, c, rfl, hskipped, hc⟩ := skipTo_eq_some_iff.1 hskip
    exact ⟨skipped, c :: tail, rfl, hskipped, .one hc h⟩

/-- **Matching answers the rest behind the covering by first fits,** provided that it took a
component. A pending `skip` stands for a `**` in front. -/
theorem consume_eq_some_iff {skip matched : Bool} :
    consume holds skip matched segments cs = some rest ↔
      (matched = true ∨ ∃ pattern, .one pattern ∈ segments)
        ∧ Spans holds (firstFit holds) (if skip then .anyDirs :: segments else segments) cs
          rest := by
  induction segments generalizing skip matched cs with
  | nil => cases skip <;> cases matched <;> simp [consume]
  | cons s segments ih =>
    cases s with
    | root =>
      have hskip : Spans holds (firstFit holds)
          (if skip then .anyDirs :: .root :: segments else .root :: segments) cs rest
          ↔ Spans holds (firstFit holds) segments cs rest := by
        cases skip with
        | false => simp
        | true =>
          rw [if_pos rfl, spans_firstFit_dirs_iff (by simp [StartsFree]), spans_root_iff]
      rw [consume, ih, hskip]
      simp
    | anyDirs =>
      have hskip : Spans holds (firstFit holds)
          (if skip then .anyDirs :: .anyDirs :: segments else .anyDirs :: segments) cs rest
          ↔ Spans holds (firstFit holds) (.anyDirs :: segments) cs rest := by
        cases skip with
        | false => simp
        | true => rw [if_pos rfl, spans_firstFit_dirs_iff (by simp [StartsFree])]
      rw [hskip]
      cases segments with
      | nil => cases matched <;> simp [consume]
      | cons next segments =>
        rw [consume, ih]
        · simp
        · simp
    | never =>
      have hnot : ¬ Spans holds (firstFit holds)
          (if skip then .anyDirs :: .never :: segments else .never :: segments) cs rest := by
        cases skip with
        | false => simp
        | true =>
          rw [if_pos rfl, spans_firstFit_dirs_iff (by simp [StartsFree])]
          exact not_spans_never
      simp [consume, hnot]
    | one pattern =>
      cases skip with
      | true =>
        rw [consume, if_pos rfl, spans_firstFit_skip_iff]
        cases skipTo holds pattern cs with
        | none => simp
        | some tail => simp [ih]
      | false =>
        cases cs with
        | nil => simp [consume, spans_one_iff]
        | cons c cs =>
          rw [consume, if_neg Bool.false_ne_true, spans_one_cons_iff]
          by_cases hc : holds pattern c = true
          · simp [hc, ih]
          · simp [hc]

theorem matchSegments_eq_true_iff {dirOnly isDir : Bool} :
    matchSegments holds dirOnly isDir segments cs = true ↔
      (∃ pattern, .one pattern ∈ segments)
        ∧ Covers holds (firstFit holds) dirOnly isDir segments cs := by
  have hconsume : ∀ rest, consume holds false false segments cs = some rest ↔
      (∃ pattern, .one pattern ∈ segments)
        ∧ Spans holds (firstFit holds) segments cs rest := by
    intro rest
    rw [consume_eq_some_iff]
    simp
  have hrest : ∀ rest : List β, (!(dirOnly && !isDir && rest.isEmpty)) = true ↔
      (dirOnly = true → isDir = false → rest ≠ []) := by
    intro rest
    cases dirOnly <;> cases isDir <;> cases rest <;> simp
  rw [matchSegments]
  cases h : consume holds false false segments cs with
  | none =>
    simp only [Bool.false_eq_true, false_iff]
    rintro ⟨hpattern, rest, hspans, -⟩
    rw [(hconsume rest).2 ⟨hpattern, hspans⟩] at h
    cases h
  | some rest =>
    obtain ⟨hpattern, hspans⟩ := (hconsume rest).1 h
    constructor
    · intro hleft
      exact ⟨hpattern, rest, hspans, (hrest rest).1 hleft⟩
    · -- The covering by first fits is the only one.
      rintro ⟨-, rest', hspans', hleft⟩
      have heq := (hconsume rest').2 ⟨hpattern, hspans'⟩
      rw [h] at heq
      cases heq
      exact (hrest rest).2 hleft

/-! ### Steady globs -/

/-- Every pattern with a `**` somewhere before it has one directly before it. -/
def Steady (segments : List (Segment α)) : Prop :=
  ∀ before pattern after, segments = before ++ .one pattern :: after → .anyDirs ∈ before →
    before.getLast? = some .anyDirs

theorem Steady.tail {s : Segment α} (h : Steady (s :: segments)) : Steady segments := by
  rintro before pattern after rfl hmem
  have hlast := h (s :: before) pattern after rfl (List.mem_cons_of_mem s hmem)
  rwa [List.getLast?_cons_of_ne_nil (List.ne_nil_of_mem hmem)] at hlast

/-- Behind a `**` and another segment there is no pattern. -/
theorem Steady.startsFree {s : Segment α} (hs : s ≠ .anyDirs)
    (h : Steady (.anyDirs :: s :: segments)) : StartsFree segments := by
  intro pattern hhead
  obtain ⟨after, rfl⟩ := List.head?_eq_some_iff.1 hhead
  have hlast := h [.anyDirs, s] pattern after rfl List.mem_cons_self
  exact hs (Option.some.inj hlast)

theorem Steady.drop_second {s : Segment α} (hs : s ≠ .anyDirs)
    (h : Steady (.anyDirs :: s :: segments)) : Steady (.anyDirs :: segments) := by
  intro before pattern after heq _
  cases before with
  | nil => cases heq
  | cons first before =>
    obtain ⟨rfl, rfl⟩ := List.cons.inj heq
    have hne : before ≠ [] := by
      rintro rfl
      exact h.startsFree hs pattern rfl
    have hlast := h (.anyDirs :: s :: before) pattern after rfl List.mem_cons_self
    rw [List.getLast?_cons_of_ne_nil (by simp), List.getLast?_cons_of_ne_nil hne] at hlast
    rwa [List.getLast?_cons_of_ne_nil hne]

theorem Spans.anyDirs_cons (h : Spans holds anything segments cs rest) :
    Spans holds anything (.anyDirs :: segments) cs rest := by
  by_cases hne : segments = []
  · subst hne
    rw [spans_lastDirs_iff, ← spans_nil_iff]
    exact h
  · exact (spans_dirs_iff hne).2 ⟨[], cs, rfl, trivial, h⟩

/-- The first fit leaves at least what any fit leaves. -/
theorem skipTo_of_suffix {pattern : α} {c : β} {tail : List β} (hc : holds pattern c = true)
    (hsuffix : c :: tail <:+ cs) :
    ∃ tail', skipTo holds pattern cs = some tail' ∧ tail <:+ tail' := by
  induction cs with
  | nil => simp at hsuffix
  | cons d cs ih =>
    rw [skipTo]
    by_cases hd : holds pattern d = true
    · refine ⟨cs, if_pos hd, ?_⟩
      rcases List.suffix_cons_iff.1 hsuffix with heq | hshort
      · obtain ⟨-, rfl⟩ := List.cons.inj heq
        exact List.suffix_refl tail
      · exact (List.suffix_cons c tail).trans hshort
    · rw [if_neg hd]
      rcases List.suffix_cons_iff.1 hsuffix with heq | hshort
      · exact absurd ((List.cons.inj heq).1 ▸ hc) hd
      · exact ih hshort

/-- Behind a `**`, a steady glob covers a longer list if it covers a shorter one, and then first
fits leave at least as much. -/
theorem Spans.firstFit_of_suffix (hsteady : Steady (.anyDirs :: segments)) {cs' : List β}
    (h : Spans holds anything (.anyDirs :: segments) cs rest) (hsuffix : cs <:+ cs') :
    ∃ rest', Spans holds (firstFit holds) (.anyDirs :: segments) cs' rest' ∧ rest <:+ rest' := by
  induction segments generalizing cs cs' with
  | nil =>
    rw [spans_lastDirs_iff] at h
    subst h
    exact ⟨cs', .lastDirs cs', hsuffix⟩
  | cons s segments ih =>
    rw [spans_dirs_iff (by simp)] at h
    obtain ⟨skipped, tail, rfl, -, h⟩ := h
    have htail : tail <:+ cs' := (List.suffix_append skipped tail).trans hsuffix
    cases s with
    | root =>
      -- No pattern follows, so first fits lay this `**` over nothing and lose nothing by it.
      have hfree := hsteady.startsFree (by simp)
      rw [spans_root_iff] at h
      obtain ⟨rest', hrest', hle⟩ := ih (hsteady.drop_second (by simp)) h.anyDirs_cons htail
      rw [spans_firstFit_dirs_iff hfree] at hrest'
      refine ⟨rest', ?_, hle⟩
      rw [spans_firstFit_dirs_iff (by simp [StartsFree]), spans_root_iff]
      exact hrest'
    | anyDirs =>
      obtain ⟨rest', hrest', hle⟩ := ih hsteady.tail h htail
      refine ⟨rest', ?_, hle⟩
      rw [spans_firstFit_dirs_iff (by simp [StartsFree])]
      exact hrest'
    | never => exact absurd h not_spans_never
    | one pattern =>
      have hfree := hsteady.startsFree (by simp)
      obtain ⟨c, tail, rfl, hc, h⟩ := spans_one_iff.1 h
      -- The first fit comes no later than `c`, and what follows can skip the difference.
      obtain ⟨tail', hskip, htail'⟩ := skipTo_of_suffix hc htail
      obtain ⟨rest', hrest', hle⟩ := ih (hsteady.drop_second (by simp)) h.anyDirs_cons htail'
      rw [spans_firstFit_dirs_iff hfree] at hrest'
      exact ⟨rest', spans_firstFit_skip_iff.2 ⟨tail', hskip, hrest'⟩, hle⟩

/-- **A steady glob that covers some components covers them by first fits,** which leave at least
as much. -/
theorem Spans.firstFit_of_steady (hsteady : Steady segments)
    (h : Spans holds anything segments cs rest) :
    ∃ rest', Spans holds (firstFit holds) segments cs rest' ∧ rest <:+ rest' := by
  induction h with
  | done cs => exact ⟨cs, .done cs, List.suffix_refl cs⟩
  | root _ ih =>
    obtain ⟨rest', hrest', hle⟩ := ih hsteady.tail
    exact ⟨rest', .root hrest', hle⟩
  | lastDirs cs => exact ⟨cs, .lastDirs cs, List.suffix_refl cs⟩
  | dirs hne hskipped h _ =>
    -- The components covered behind the `**` change from here on, so the hypothesis is no use.
    exact Spans.firstFit_of_suffix hsteady (.dirs hne hskipped h) (List.suffix_refl _)
  | one hc _ ih =>
    obtain ⟨rest', hrest', hle⟩ := ih hsteady.tail
    exact ⟨rest', .one hc hrest', hle⟩

theorem Spans.never_not_mem (h : Spans holds absorbs segments cs rest) : .never ∉ segments := by
  induction h with
  | done => simp
  | root _ ih => simpa using ih
  | lastDirs => simp
  | dirs _ _ _ ih => simpa using ih
  | one _ _ ih => simpa using ih

/-- **Matching agrees with the meaning of a glob that matches nothing, or that is steady and has
a pattern.** -/
theorem matchSegments_eq_true_iff_covers {dirOnly isDir : Bool}
    (h : .never ∈ segments ∨ (∃ pattern, .one pattern ∈ segments) ∧ Steady segments) :
    matchSegments holds dirOnly isDir segments cs = true ↔
      Covers holds anything dirOnly isDir segments cs := by
  rw [matchSegments_eq_true_iff]
  constructor
  · rintro ⟨-, rest, hspans, hleft⟩
    exact ⟨rest, hspans.mono fun _ _ _ => trivial, hleft⟩
  · rintro ⟨rest, hspans, hleft⟩
    rcases h with hnever | ⟨hpattern, hsteady⟩
    · exact absurd hnever hspans.never_not_mem
    · obtain ⟨rest', hspans', hle⟩ := hspans.firstFit_of_steady hsteady
      refine ⟨hpattern, rest', hspans', ?_⟩
      intro hdir hfile hnil
      subst hnil
      exact hleft hdir hfile (List.suffix_nil.1 hle)

/-! ### Globs that are not steady

From here on there is a component that fits every pattern and one that fits none. Patterns take
the former one by one, whether they skip or not, until one that cannot skip meets the latter. -/

/-- The number of patterns among the segments. -/
def patternCount : List (Segment α) → Nat
  | [] => 0
  | .one _ :: segments => patternCount segments + 1
  | _ :: segments => patternCount segments

@[simp] theorem patternCount_one (pattern : α) :
    patternCount (.one pattern :: segments) = patternCount segments + 1 := rfl

@[simp] theorem patternCount_anyDirs :
    patternCount (.anyDirs :: segments) = patternCount segments := rfl

theorem patternCount_append (front : List (Segment α)) :
    patternCount (front ++ segments) = patternCount front + patternCount segments := by
  induction front with
  | nil => simp [patternCount]
  | cons s front ih =>
    cases s with
    | root => exact ih
    | anyDirs => exact ih
    | never => exact ih
    | one pattern =>
      rw [List.cons_append, patternCount_one, patternCount_one, ih]
      omega

theorem Spans.append {front : List (Segment α)} {mid : List β}
    (hfront : Spans holds anything front cs mid) (h : Spans holds anything segments mid rest) :
    Spans holds anything (front ++ segments) cs rest := by
  induction hfront with
  | done => exact h
  | root _ ih => exact .root (ih h)
  | lastDirs => exact h.anyDirs_cons
  | dirs hne _ _ ih => exact .dirs (by simp [hne]) trivial (ih h)
  | one hc _ ih => exact .one hc (ih h)

section Candidates

variable {yes : β} (hyes : ∀ pattern, holds pattern yes = true)
include hyes

/-- Components that fit every pattern are covered one by one. -/
theorem spans_replicate (hnever : .never ∉ segments) (cs : List β) :
    Spans holds anything segments (List.replicate (patternCount segments) yes ++ cs) cs := by
  induction segments with
  | nil => exact .done cs
  | cons s segments ih =>
    have h := ih fun hmem => hnever (List.mem_cons_of_mem s hmem)
    cases s with
    | root => exact .root h
    | anyDirs => exact h.anyDirs_cons
    | never => exact absurd List.mem_cons_self hnever
    | one pattern => exact .one (hyes pattern) h

/-- A `**` absorbs the component that fits no pattern, together with those before it that belong
to patterns behind it. -/
theorem exists_spans_replicate (no : β) {before after : List (Segment α)} {pattern : α}
    (hnever : .never ∉ before ++ .one pattern :: after) (hdirs : .anyDirs ∈ before) :
    ∃ n rest, rest ≠ [] ∧ Spans holds anything (before ++ .one pattern :: after)
      (List.replicate (patternCount before) yes ++ no :: List.replicate n yes) rest := by
  obtain ⟨front, back, rfl⟩ := List.append_of_mem hdirs
  rw [List.append_assoc, List.mem_append, List.cons_append, List.mem_cons] at hnever
  simp only [not_or] at hnever
  have hback := spans_replicate hyes hnever.2.2 [yes]
  have hfront := spans_replicate hyes hnever.1
    ((List.replicate (patternCount back) yes ++ [no])
      ++ (List.replicate (patternCount (back ++ .one pattern :: after)) yes ++ [yes]))
  refine ⟨patternCount (back ++ .one pattern :: after) + 1, [yes], by simp, ?_⟩
  rw [List.append_assoc, List.cons_append, patternCount_append, patternCount_anyDirs,
    ← List.replicate_append_replicate, List.replicate_succ']
  have hdirs : Spans holds anything (.anyDirs :: (back ++ .one pattern :: after))
      ((List.replicate (patternCount back) yes ++ [no])
        ++ (List.replicate (patternCount (back ++ .one pattern :: after)) yes ++ [yes])) [yes] :=
    .dirs (by simp) trivial hback
  simpa only [List.append_assoc, List.singleton_append] using hfront.append hdirs

/-- First fits do not get past it. -/
theorem not_spans_firstFit {no : β} (hno : ∀ pattern, holds pattern no = false)
    {before after : List (Segment α)} {pattern : α} (hlast : before.getLast? ≠ some .anyDirs)
    (tail : List β) :
    ¬ Spans holds (firstFit holds) (before ++ .one pattern :: after)
      (List.replicate (patternCount before) yes ++ no :: tail) rest := by
  induction before with
  | nil =>
    rintro ⟨⟩
    rename_i hfits _
    rw [hno] at hfits
    cases hfits
  | cons s before ih =>
    have hlast' : before.getLast? ≠ some .anyDirs := by
      cases before with
      | nil => simp
      | cons => simpa [List.getLast?_cons_cons] using hlast
    cases s with
    | root =>
      rw [List.cons_append, spans_root_iff]
      exact ih hlast'
    | never => exact not_spans_never
    | one p =>
      intro h
      exact ih hlast' (spans_one_cons_iff.1 h).2
    | anyDirs =>
      cases before with
      | nil => exact absurd rfl hlast
      | cons next before =>
        by_cases hfree : StartsFree (next :: before)
        · have hfree' : StartsFree (next :: before ++ .one pattern :: after) := hfree
          rw [List.cons_append, spans_firstFit_dirs_iff hfree']
          exact ih hlast'
        · cases next with
          | one p =>
            -- The first component fits already, so a pattern that may skip does not.
            intro h
            obtain ⟨tail', hskip, h⟩ := spans_firstFit_skip_iff.1 h
            refine ih hlast' (.one (hyes p) ?_)
            rw [patternCount_anyDirs, patternCount_one, List.replicate_succ, List.cons_append,
              skipTo, if_pos (hyes p)] at hskip
            cases hskip
            exact h
          | root => exact absurd (by simp [StartsFree]) hfree
          | anyDirs => exact absurd (by simp [StartsFree]) hfree
          | never => exact absurd (by simp [StartsFree]) hfree

end Candidates

end Matching

/-! ### Paths -/

/-- Matching a path with any relation between component patterns and components in place of that
of wildcards. -/
def isMatchBy (holds : Wildcard → List Char → Bool) (g : Glob) (path : String) : Bool :=
  let cs := path.toList
  match g.shape with
  | .anywhere pattern => matchAny holds g.dirOnly (isDirectory cs) pattern (components cs)
  | .anchored segments => matchSegments holds g.dirOnly (isDirectory cs) segments (components cs)

theorem isMatch_eq_isMatchBy (g : Glob) (path : String) :
    g.isMatch path = g.isMatchBy Wildcard.isMatch path := rfl

/-- The segments of a glob cover the components of a path. -/
def Describes (holds : Wildcard → List Char → Bool)
    (absorbs : List (Segment Wildcard) → List (List Char) → Prop) (dirOnly : Bool)
    (segments : List (Segment Wildcard)) (path : String) : Prop :=
  Covers holds absorbs dirOnly (isDirectory path.toList) segments (components path.toList)

variable {g : Glob} {segments : List (Segment Wildcard)}

theorem isMatchBy_eq_true_iff (hg : g.shape = .anchored segments)
    (holds : Wildcard → List Char → Bool) (path : String) :
    g.isMatchBy holds path = true ↔
      (∃ pattern, .one pattern ∈ segments)
        ∧ Describes holds (firstFit holds) g.dirOnly segments path := by
  rw [isMatchBy, hg]
  exact matchSegments_eq_true_iff

/-- A path can have any components that hold no separator. -/
theorem components_intercalate {cs : List (List Char)} (hne : cs ≠ [])
    (h : ∀ c ∈ cs, separator ∉ c) :
    components (String.ofList ([separator].intercalate cs)).toList = cs := by
  rw [String.toList_ofList]
  exact List.splitOn_intercalate separator h hne

/-- Matching agrees with the meaning of the glob, whatever the component patterns say. -/
def Agrees (g : Glob) (segments : List (Segment Wildcard)) : Prop :=
  ∀ holds path, g.isMatchBy holds path = true ↔
    Describes holds anything g.dirOnly segments path

/-- A relation in which the component `y` fits every pattern and any other fits none. -/
def fitsYes (_ : Wildcard) (c : List Char) : Bool :=
  c == ['y']

theorem fitsYes_yes (pattern : Wildcard) : fitsYes pattern ['y'] = true := rfl

theorem fitsYes_no (pattern : Wildcard) : fitsYes pattern ['n'] = false := rfl

/-- Where matching agrees with the meaning, a covering that leaves something gives a pattern and
a covering by first fits, since the components are those of a path. -/
theorem Agrees.firstFit_of_spans (h : g.Agrees segments) (hg : g.shape = .anchored segments)
    {cs rest : List (List Char)} (hcs : ∀ c ∈ cs, c = ['y'] ∨ c = ['n']) (hne : cs ≠ [])
    (hspans : Spans fitsYes anything segments cs rest) (hrest : rest ≠ []) :
    (∃ pattern, .one pattern ∈ segments)
      ∧ ∃ rest', Spans fitsYes (firstFit fitsYes) segments cs rest' := by
  have hcomponents : components (String.ofList ([separator].intercalate cs)).toList = cs := by
    refine components_intercalate hne ?_
    intro c hc
    rcases hcs c hc with rfl | rfl <;> decide
  have hdescribes : Describes fitsYes anything g.dirOnly segments
      (String.ofList ([separator].intercalate cs)) := by
    refine ⟨rest, ?_, fun _ _ => hrest⟩
    rw [hcomponents]
    exact hspans
  obtain ⟨hpattern, rest', hfirst, -⟩ :=
    (isMatchBy_eq_true_iff hg _ _).1 ((h _ _).2 hdescribes)
  rw [hcomponents] at hfirst
  exact ⟨hpattern, rest', hfirst⟩

theorem Agrees.exists_pattern (h : g.Agrees segments) (hg : g.shape = .anchored segments)
    (hnever : .never ∉ segments) : ∃ pattern, .one pattern ∈ segments := by
  have hspans := spans_replicate fitsYes_yes hnever [['y']]
  refine (h.firstFit_of_spans hg ?_ (by simp) hspans (by simp)).1
  intro c hc
  rw [List.mem_append, List.mem_replicate, List.mem_singleton] at hc
  exact .inl (hc.elim (·.2) id)

theorem Agrees.steady (h : g.Agrees segments) (hg : g.shape = .anchored segments)
    (hnever : .never ∉ segments) : Steady segments := by
  rintro before pattern after rfl hdirs
  obtain ⟨n, rest, hrest, hspans⟩ := exists_spans_replicate fitsYes_yes ['n'] hnever hdirs
  have hcs : ∀ c ∈ List.replicate (patternCount before) ['y'] ++ ['n'] :: List.replicate n ['y'],
      c = ['y'] ∨ c = ['n'] := by
    intro c hc
    rw [List.mem_append, List.mem_cons, List.mem_replicate, List.mem_replicate] at hc
    rcases hc with ⟨-, hc⟩ | hc | ⟨-, hc⟩
    · exact .inl hc
    · exact .inr hc
    · exact .inl hc
  obtain ⟨-, rest', hfirst⟩ := h.firstFit_of_spans hg hcs (by simp) hspans hrest
  -- So the pattern did not meet a component that fits none, and it can skip.
  exact Decidable.byContradiction fun hlast =>
    not_spans_firstFit fitsYes_yes fitsYes_no hlast _ hfirst

/-- **What matching a glob with separators is worth.** It selects a path if the glob has a pattern
and describes the path by first fits. That is the meaning of the glob, on all paths and for
whatever the component patterns say, exactly if the glob has a segment that matches nothing, or
has a pattern and is steady. -/
theorem isMatchBy_anchored (hg : g.shape = .anchored segments) :
    (∀ path, g.isMatch path = g.isMatchBy Wildcard.isMatch path)
      ∧ (∀ holds path, g.isMatchBy holds path = true ↔
          (∃ pattern, .one pattern ∈ segments)
            ∧ Describes holds (firstFit holds) g.dirOnly segments path)
      ∧ (g.Agrees segments
          ↔ .never ∈ segments ∨ (∃ pattern, .one pattern ∈ segments) ∧ Steady segments) := by
  refine ⟨isMatch_eq_isMatchBy g, isMatchBy_eq_true_iff hg, ?_⟩
  constructor
  · intro hagrees
    by_cases hnever : .never ∈ segments
    · exact .inl hnever
    · exact .inr ⟨hagrees.exists_pattern hg hnever, hagrees.steady hg hnever⟩
  · intro hcondition holds path
    rw [isMatchBy, hg]
    exact matchSegments_eq_true_iff_covers hcondition

/-- The segments of `**/a/b`, where the last pattern follows the `**` at a distance. -/
def distant : List (Segment Wildcard) :=
  [.anyDirs, .one ⟨[.literal 'a']⟩, .one ⟨[.literal 'b']⟩]

theorem not_agrees_distant :
    parse "**/a/b" = .ok ⟨"**/a/b", .anchored distant, false⟩
      ∧ ¬ Agrees ⟨"**/a/b", .anchored distant, false⟩ distant := by
  refine ⟨by cbv, ?_⟩
  rw [(isMatchBy_anchored rfl).2.2]
  rintro (hnever | ⟨-, hsteady⟩)
  · simp [distant] at hnever
  · have hlast := hsteady [.anyDirs, .one ⟨[.literal 'a']⟩] ⟨[.literal 'b']⟩ [] rfl
      List.mem_cons_self
    cases hlast

/-- The `**` could absorb the first `a`, but the pattern behind it takes that one. -/
theorem not_isMatch_distant :
    parse "**/a/b" = .ok ⟨"**/a/b", .anchored distant, false⟩
      ∧ Describes Wildcard.isMatch anything false distant "a/a/b"
      ∧ isMatch ⟨"**/a/b", .anchored distant, false⟩ "a/a/b" = false := by
  refine ⟨by cbv, ⟨[], ?_, by simp⟩, by decide⟩
  have hcomponents : components "a/a/b".toList = [['a']] ++ [['a'], ['b']] := by decide
  rw [hcomponents]
  exact .dirs (by simp) trivial (.one (by decide) (.one (by decide) (.done [])))

end CrossTag.Glob
