import CrossTag.Proofs.Glob
import CrossTag.Proofs.Outcome

/-!
# Components assigned to patterns

What a glob says about a path can be put without its segments being laid over anything: some of
the components, from the front of the path on, are assigned to the patterns of the glob, in order,
and components stay without a pattern only where a `**` stands (`Assigns`). Here a `**` at the end
may absorb components like any other. That makes no difference to which paths are described, since
what it could absorb may as well be left over (`covers_iff_assigned`).

    glob                 selected, hence          assigned, hence
    without separator    some component fits      selected
    with separators      assigned                 selected, if the glob is tame

The last entry is the one that needs an argument. A tame glob has at most one pattern between a
`**` and the next, and nothing else there, so every pattern behind a `**` stands directly behind
one (`Tame.steady`), and for such globs the first fit is as good as any.

The shape of a glob is that of its written pattern (`shape_of_parse`): it has separators or it has
none, once a leading `!`, spaces at the end and one separator at the end are taken off.
-/

namespace CrossTag.Glob

section Matching

variable {α β : Type} {holds : α → β → Bool}

/-! ### Assignments -/

/-- `Assigns holds segments used`: the components `used` are assigned to the patterns among the
segments, one after another, each to one that it fits. Components without a pattern stand only at
a `**`, and a segment that mixes `**` with other text admits nothing. -/
inductive Assigns (holds : α → β → Bool) : List (Segment α) → List β → Prop
  | done : Assigns holds [] []
  | root {segments : List (Segment α)} {used : List β} :
      Assigns holds segments used → Assigns holds (.root :: segments) used
  | dirs {segments : List (Segment α)} {used : List β} (gap : List β) :
      Assigns holds segments used → Assigns holds (.anyDirs :: segments) (gap ++ used)
  | one {pattern : α} {c : β} {segments : List (Segment α)} {used : List β} :
      holds pattern c = true → Assigns holds segments used →
      Assigns holds (.one pattern :: segments) (c :: used)

/-- Components from the front are assigned to the segments, and a glob for directories leaves one
over unless the path is a directory. -/
def Assigned (holds : α → β → Bool) (dirOnly isDir : Bool) (segments : List (Segment α))
    (cs : List β) : Prop :=
  ∃ used rest, cs = used ++ rest ∧ Assigns holds segments used
    ∧ (dirOnly = true → isDir = false → rest ≠ [])

variable {segments : List (Segment α)} {cs rest : List β} {dirOnly isDir : Bool}

/-- What the segments cover is assigned to them. -/
theorem Spans.exists_assigns (h : Spans holds anything segments cs rest) :
    ∃ used, cs = used ++ rest ∧ Assigns holds segments used := by
  induction h with
  | done cs => exact ⟨[], rfl, .done⟩
  | root _ ih =>
    obtain ⟨used, rfl, hused⟩ := ih
    exact ⟨used, rfl, .root hused⟩
  | lastDirs cs => exact ⟨[], rfl, .dirs [] .done⟩
  | @dirs segments skipped cs rest _ _ _ ih =>
    obtain ⟨used, rfl, hused⟩ := ih
    exact ⟨skipped ++ used, (List.append_assoc _ _ _).symm, .dirs skipped hused⟩
  | @one pattern c segments cs rest hc _ ih =>
    obtain ⟨used, rfl, hused⟩ := ih
    exact ⟨c :: used, rfl, .one hc hused⟩

/-- Segments cover what is assigned to them, and a `**` at the end gives back what it absorbed. -/
theorem Assigns.exists_spans {used : List β} (h : Assigns holds segments used) (rest : List β) :
    ∃ rest', Spans holds anything segments (used ++ rest) rest' ∧ rest <:+ rest' := by
  induction h with
  | done => exact ⟨rest, .done rest, List.suffix_refl rest⟩
  | root _ ih =>
    obtain ⟨rest', hspans, hle⟩ := ih
    exact ⟨rest', .root hspans, hle⟩
  | @dirs segments used gap hused ih =>
    by_cases hlast : segments = []
    · subst hlast
      cases hused
      refine ⟨gap ++ [] ++ rest, .lastDirs _, ?_⟩
      exact List.suffix_append (gap ++ []) rest
    · obtain ⟨rest', hspans, hle⟩ := ih
      refine ⟨rest', ?_, hle⟩
      rw [List.append_assoc]
      exact .dirs hlast trivial hspans
  | one hc _ ih =>
    obtain ⟨rest', hspans, hle⟩ := ih
    exact ⟨rest', .one hc hspans, hle⟩

/-- **To cover components and to be assigned components is the same.** -/
theorem covers_iff_assigned :
    Covers holds anything dirOnly isDir segments cs ↔
      Assigned holds dirOnly isDir segments cs := by
  constructor
  · rintro ⟨rest, hspans, hleft⟩
    obtain ⟨used, hcs, hused⟩ := hspans.exists_assigns
    exact ⟨used, rest, hcs, hused, hleft⟩
  · rintro ⟨used, rest, rfl, hused, hleft⟩
    obtain ⟨rest', hspans, hle⟩ := hused.exists_spans rest
    refine ⟨rest', hspans, ?_⟩
    intro hdir hfile hnil
    apply hleft hdir hfile
    rw [hnil] at hle
    exact List.suffix_nil.1 hle

/-! ### Globs without separators -/

/-- The first component that fits decides, and no later one decides otherwise. -/
theorem matchAny_eq_true_iff {pattern : α} :
    matchAny holds dirOnly isDir pattern cs = true ↔
      ∃ before c after, cs = before ++ c :: after ∧ holds pattern c = true
        ∧ (dirOnly = true → isDir = false → after ≠ []) := by
  induction cs with
  | nil => simp [matchAny]
  | cons d cs ih =>
    rw [matchAny]
    by_cases hd : holds pattern d = true
    · rw [if_pos hd]
      have hlast : (!(dirOnly && !isDir && cs.isEmpty)) = true ↔
          (dirOnly = true → isDir = false → cs ≠ []) := by
        cases dirOnly <;> cases isDir <;> cases cs <;> simp
      rw [hlast]
      constructor
      · intro hleft
        exact ⟨[], d, cs, rfl, hd, hleft⟩
      · rintro ⟨before, c, after, heq, -, hleft⟩ hdir hfile hnil
        -- With nothing behind the first component, a later one that fits is the first.
        subst hnil
        cases before with
        | nil =>
          obtain ⟨-, rfl⟩ := List.cons.inj heq
          exact hleft hdir hfile rfl
        | cons e before => simp at heq
    · rw [if_neg hd, ih]
      constructor
      · rintro ⟨before, c, after, rfl, hc, hleft⟩
        exact ⟨d :: before, c, after, rfl, hc, hleft⟩
      · rintro ⟨before, c, after, heq, hc, hleft⟩
        cases before with
        | nil => exact absurd ((List.cons.inj heq).1 ▸ hc) hd
        | cons e before => exact ⟨before, c, after, (List.cons.inj heq).2, hc, hleft⟩

/-! ### Tame globs -/

/-- Segments on which taking the first fit does no harm: there is a pattern, no segment is empty
but for the first, none mixes `**` with other text, and of the segments between a `**` and the
next at most one is a pattern. -/
structure Tame (segments : List (Segment α)) : Prop where
  has_pattern : ∃ pattern, .one pattern ∈ segments
  no_root : .root ∉ segments.tail
  no_never : .never ∉ segments
  one_each : ∀ before run after, segments = before ++ .anyDirs :: (run ++ after) →
    .anyDirs ∉ run → patternCount run ≤ 1

/-- Segments that are neither empty nor mixed nor `**` are patterns. -/
theorem length_eq_patternCount {run : List (Segment α)} (hroot : .root ∉ run)
    (hdirs : .anyDirs ∉ run) (hnever : .never ∉ run) : run.length = patternCount run := by
  induction run with
  | nil => rfl
  | cons s run ih =>
    simp only [List.mem_cons, not_or] at hroot hdirs hnever
    cases s with
    | root => exact absurd rfl hroot.1
    | anyDirs => exact absurd rfl hdirs.1
    | never => exact absurd rfl hnever.1
    | one pattern =>
      rw [List.length_cons, patternCount_one, ih hroot.2 hdirs.2 hnever.2]

/-- In a tame glob a pattern with a `**` before it has one directly before it. -/
theorem Tame.steady (h : Tame segments) : Steady segments := by
  rintro before pattern after rfl hdirs
  -- The last `**` before the pattern, and what stands between the two.
  obtain ⟨back, front, hback, hlast⟩ := List.eq_append_cons_of_mem (List.mem_reverse.2 hdirs)
  have hbefore : before = front.reverse ++ .anyDirs :: back.reverse := by
    rw [← List.reverse_reverse before, hback]
    simp
  have hrun : .anyDirs ∉ back.reverse := by simpa using hlast
  have hcount := h.one_each front.reverse (back.reverse ++ [.one pattern]) after
    (by rw [hbefore]; simp) (by simpa using hlast)
  have hroot : .root ∉ back.reverse := by
    intro hmem
    apply h.no_root
    rw [hbefore]
    cases front.reverse with
    | nil => simp [List.mem_reverse.1 hmem]
    | cons s front => simp [List.mem_reverse.1 hmem]
  have hnever : .never ∉ back.reverse := by
    intro hmem
    apply h.no_never
    rw [hbefore]
    simp [List.mem_reverse.1 hmem]
  have hlength := length_eq_patternCount hroot hrun hnever
  rw [patternCount_append, patternCount_one] at hcount
  have hnil : back.reverse = [] := List.length_eq_zero_iff.1 (by omega)
  rw [hbefore, hnil, List.getLast?_concat]

/-- **What is selected is assigned.** -/
theorem assigned_of_matchSegments (h : matchSegments holds dirOnly isDir segments cs = true) :
    .never ∉ segments ∧ Assigned holds dirOnly isDir segments cs := by
  obtain ⟨-, rest, hspans, hleft⟩ := matchSegments_eq_true_iff.1 h
  have hany : Spans holds anything segments cs rest := hspans.mono fun _ _ _ => trivial
  exact ⟨hspans.never_not_mem, covers_iff_assigned.1 ⟨rest, hany, hleft⟩⟩

/-- **A tame glob selects what is assigned to it.** -/
theorem Tame.matchSegments (h : Tame segments)
    (hassigned : Assigned holds dirOnly isDir segments cs) :
    matchSegments holds dirOnly isDir segments cs = true :=
  (matchSegments_eq_true_iff_covers (.inr ⟨h.has_pattern, h.steady⟩)).2
    (covers_iff_assigned.2 hassigned)

end Matching

/-! ### Written patterns -/

/-- The components of a pattern as it is written, without a leading `!`, spaces at the end and a
separator at the end. -/
def body (pattern : String) : List Char :=
  (dropSeparator (dropSpaces ((Text.dropStart? ['!'] pattern.toList).getD pattern.toList))).1

/-- The shape of a glob is that of its pattern. -/
theorem shape_of_parse {pattern : String} {g : Glob} (h : parse pattern = .ok g) :
    (separator ∉ body pattern
        ∧ ∃ w, Wildcard.parse (mergeStars (body pattern)) = .ok w ∧ g.shape = .anywhere w)
      ∨ (separator ∈ body pattern
        ∧ ∃ segments, (components (body pattern)).mapM readSegment = .ok segments
          ∧ g.shape = .anchored segments) := by
  rw [parse] at h
  split at h
  rename_i cs dirOnly hdrop
  have hbody : body pattern = cs := congrArg Prod.fst hdrop
  rw [hbody]
  split at h
  · rename_i hsep
    obtain ⟨segments, hsegments, h⟩ := Outcome.bind_eq_ok_iff.1 h
    cases h
    exact .inr ⟨by simpa using hsep, segments, hsegments, rfl⟩
  · rename_i hsep
    obtain ⟨w, hw, h⟩ := Outcome.bind_eq_ok_iff.1 h
    cases h
    exact .inl ⟨by simpa using hsep, w, hw, rfl⟩

/-- **Which paths a glob selects,** whatever its component patterns say of a component. Without
separators it selects a path one of whose components fits, the last one excepted if the glob is for
directories and the path is none. With separators, components from the front of a path that it
selects are assigned to its patterns, and one is left over if the glob is for directories and the
path is none. If the glob is tame, it selects every path for which that can be done. -/
theorem isMatchBy_assigned {pattern : String} {g : Glob} (hg : parse pattern = .ok g) :
    (∀ path, g.isMatch path = g.isMatchBy Wildcard.isMatch path)
      ∧ (separator ∉ body pattern → ∃ w, g.shape = .anywhere w ∧
          ∀ holds path, g.isMatchBy holds path = true ↔
            ∃ before c after, components path.toList = before ++ c :: after ∧ holds w c = true
              ∧ (g.dirOnly = true → isDirectory path.toList = false → after ≠ []))
      ∧ (separator ∈ body pattern → ∃ segments,
          (components (body pattern)).mapM readSegment = .ok segments
          ∧ g.shape = .anchored segments
          ∧ ∀ holds path,
            (g.isMatchBy holds path = true →
              .never ∉ segments
                ∧ Assigned holds g.dirOnly (isDirectory path.toList) segments
                  (components path.toList))
            ∧ (Tame segments →
              Assigned holds g.dirOnly (isDirectory path.toList) segments
                (components path.toList) →
              g.isMatchBy holds path = true)) := by
  refine ⟨isMatch_eq_isMatchBy g, ?_, ?_⟩
  · intro hsep
    obtain ⟨-, w, -, hshape⟩ | ⟨hsep', -⟩ := shape_of_parse hg
    · refine ⟨w, hshape, ?_⟩
      intro holds path
      rw [isMatchBy, hshape]
      exact matchAny_eq_true_iff
    · exact absurd hsep' hsep
  · intro hsep
    obtain ⟨hsep', -⟩ | ⟨-, segments, hsegments, hshape⟩ := shape_of_parse hg
    · exact absurd hsep hsep'
    · refine ⟨segments, hsegments, hshape, ?_⟩
      intro holds path
      rw [isMatchBy, hshape]
      exact ⟨assigned_of_matchSegments, fun htame hassigned => htame.matchSegments hassigned⟩

/-- The segments of `**/a/**/b/`. -/
def twoGaps : List (Segment Wildcard) :=
  [.anyDirs, .one ⟨[.literal 'a']⟩, .anyDirs, .one ⟨[.literal 'b']⟩]

theorem tame_twoGaps : Tame twoGaps where
  has_pattern := ⟨_, List.mem_cons_of_mem _ List.mem_cons_self⟩
  no_root := by decide
  no_never := by decide
  one_each := by
    intro before run after heq hrun
    rcases before with _ | ⟨_, _ | ⟨_, _ | ⟨_, _ | ⟨_, before⟩⟩⟩⟩
    · -- Behind the first `**`: the pattern `a` at most, since a `**` follows it.
      rcases run with _ | ⟨s, _ | ⟨t, run⟩⟩
      · decide
      · cases s <;> simp [patternCount]
      · simp only [twoGaps, List.nil_append, List.cons_append, List.cons.injEq] at heq
        obtain ⟨-, -, rfl, -⟩ := heq
        simp at hrun
    · simp [twoGaps] at heq
    · -- Behind the second `**`: the pattern `b` at most, since it is the last segment.
      rcases run with _ | ⟨s, _ | ⟨t, run⟩⟩
      · decide
      · cases s <;> simp [patternCount]
      · simp [twoGaps] at heq
    · simp [twoGaps] at heq
    · simp [twoGaps] at heq

theorem isMatchBy_assigned_twoGaps :
    parse "**/a/**/b/" = .ok ⟨"**/a/**/b/", .anchored twoGaps, true⟩
      ∧ separator ∈ body "**/a/**/b/" ∧ Tame twoGaps
      ∧ isMatch ⟨"**/a/**/b/", .anchored twoGaps, true⟩ "a/b/a/y/b/z" = true := by
  have hparse : parse "**/a/**/b/" = .ok ⟨"**/a/**/b/", .anchored twoGaps, true⟩ := by cbv
  have hsep : separator ∈ body "**/a/**/b/" := by decide +kernel
  obtain ⟨hmatch, -, hanchored⟩ := isMatchBy_assigned hparse
  obtain ⟨segments, -, hshape, hpaths⟩ := hanchored hsep
  cases hshape
  refine ⟨hparse, hsep, tame_twoGaps, ?_⟩
  rw [hmatch]
  apply (hpaths _ _).2 tame_twoGaps
  -- Here the two gaps are laid as far to the right as they go.
  refine ⟨[['a'], ['b']] ++ ['a'] :: ([['y']] ++ [['b']]), [['z']], by decide +kernel, ?_, ?_⟩
  · exact .dirs _ (.one (by decide) (.dirs _ (.one (by decide) .done)))
  · simp

end CrossTag.Glob
