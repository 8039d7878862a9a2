import CrossTag.Proofs.Assignment
import CrossTag.Proofs.Directories

/-!
# What lies below an ignored directory

Globs see a directory with a separator at its end, and behind that separator one more component,
which is empty. A glob that selects a directory may do so in two ways:

    it reaches the directory    components of the directory itself are enough
    it does not                 it takes the empty component behind the separator as well

In the first case everything below the directory is selected, since what follows is only left over
(`Spans.frame`). In the second case the pattern that took the empty component describes every name,
because only runs describe the empty one, and so it takes the first name below the directory in
place of the empty one (`Spans.last_taken`). Then everything below is selected too, unless the glob
is for directories and that name is a file, with which nothing is left over. The glob that is
written as nothing is a case of its own: it describes the empty name and no other.

`isMatch_below` says this of one glob, `isIgnored_below` of a walker: with a directory that is
ignored all directories below it are, and the files below it that are not are named.
-/

namespace CrossTag

open Outcome

/-! ### Patterns for the empty name -/

namespace Wildcard

theorem nil_mem_suffixes (cs : List Char) : [] ∈ suffixes cs := by
  induction cs with
  | nil => exact List.mem_singleton.2 rfl
  | cons c cs ih => exact List.mem_cons_of_mem _ ih

/-- A pattern with items that describes the empty name starts with a run, and describes every
name. -/
theorem matchItems_of_nil {items : List Item} (hne : items ≠ []) (h : matchItems items [] = true)
    (name : List Char) : matchItems items name = true := by
  cases items with
  | nil => exact absurd rfl hne
  | cons item items =>
    cases item with
    | run =>
      rw [matchItems, List.any_eq_true] at h ⊢
      obtain ⟨rest, hrest, h⟩ := h
      cases List.mem_singleton.1 hrest
      exact ⟨[], nil_mem_suffixes name, h⟩
    | literal c => cases h
    | anyChar => cases h
    | oneOf members => cases h
    | noneOf members => cases h

/-- Only nothing is read as a pattern without items. -/
theorem readItems_ne_nil {position : Nat} {cs : List Char} {items : List Item} (hcs : cs ≠ [])
    (h : readItems position cs = .ok items) : items ≠ [] := by
  unfold readItems at h
  split at h
  · exact absurd rfl hcs
  · cases h
  · split at h
    · cases h
      simp
    · cases h
  · cases h
  · obtain ⟨rest, -, h⟩ := bind_eq_ok_iff.1 h
    cases h
    simp
  · obtain ⟨rest, -, h⟩ := bind_eq_ok_iff.1 h
    cases h
    simp
  · split at h
    · cases h
    · obtain ⟨rest, -, h⟩ := bind_eq_ok_iff.1 h
      cases h
      simp
  · obtain ⟨rest, -, h⟩ := bind_eq_ok_iff.1 h
    cases h
    simp

theorem isMatch_of_empty {cs : List Char} {w : Wildcard} (hcs : cs ≠ []) (hw : parse cs = .ok w)
    (h : w.isMatch [] = true) (name : List Char) : w.isMatch name = true := by
  obtain ⟨items, hitems, rfl⟩ := map_eq_ok_iff.1 hw
  exact matchItems_of_nil (readItems_ne_nil hcs hitems) h name

end Wildcard

namespace Glob

/-! ### Coverings and what follows them -/

section Matching

variable {α β : Type} {holds : α → β → Bool} {segments : List (Segment α)}

/-- What segments cover does not depend on what is left over. -/
theorem Spans.frame {absorbs : List (Segment α) → List β → Prop} {cs rest : List β}
    (h : Spans holds absorbs segments cs rest) :
    ∃ used, cs = used ++ rest ∧ ∀ rest', Spans holds absorbs segments (used ++ rest') rest' := by
  induction h with
  | done cs => exact ⟨[], rfl, .done⟩
  | root _ ih =>
    obtain ⟨used, rfl, hused⟩ := ih
    exact ⟨used, rfl, fun rest' => .root (hused rest')⟩
  | lastDirs cs => exact ⟨[], rfl, .lastDirs⟩
  | @dirs segments skipped cs rest hne habsorbs _ ih =>
    obtain ⟨used, rfl, hused⟩ := ih
    refine ⟨skipped ++ used, (List.append_assoc _ _ _).symm, ?_⟩
    intro rest'
    rw [List.append_assoc]
    exact .dirs hne habsorbs (hused rest')
  | @one pattern c segments cs rest hc _ ih =>
    obtain ⟨used, rfl, hused⟩ := ih
    exact ⟨c :: used, rfl, fun rest' => .one hc (hused rest')⟩

/-- If nothing is left over, the last component is taken by a pattern, and any other that fits
this pattern could stand in its place. -/
theorem Spans.last_taken {front : List β} {c : β}
    (h : Spans holds (firstFit holds) segments (front ++ [c]) []) :
    ∃ pattern, .one pattern ∈ segments ∧ holds pattern c = true
      ∧ ∀ c', holds pattern c' = true →
        Spans holds (firstFit holds) segments (front ++ [c']) [] := by
  induction segments generalizing front with
  | nil => simp at h
  | cons s segments ih =>
    cases s with
    | never => exact absurd h not_spans_never
    | root =>
      obtain ⟨pattern, hmem, hc, hother⟩ := ih (spans_root_iff.1 h)
      exact ⟨pattern, List.mem_cons_of_mem _ hmem, hc, fun c' hc' => .root (hother c' hc')⟩
    | one pattern =>
      obtain ⟨d, tail, hcs, hd, h⟩ := spans_one_iff.1 h
      cases front with
      | nil =>
        obtain ⟨rfl, rfl⟩ := List.cons.inj hcs
        exact ⟨pattern, List.mem_cons_self, hd, fun c' hc' => .one hc' h⟩
      | cons e front =>
        obtain ⟨rfl, rfl⟩ := List.cons.inj hcs
        obtain ⟨pattern', hmem, hc, hother⟩ := ih h
        exact ⟨pattern', List.mem_cons_of_mem _ hmem, hc, fun c' hc' => .one hd (hother c' hc')⟩
    | anyDirs =>
      have hne : segments ≠ [] := by
        rintro rfl
        simp at h
      obtain ⟨skipped, tail, hcs, hskipped, h⟩ := (spans_dirs_iff hne).1 h
      -- First fits skip components only before one that is taken, so the last is not skipped.
      have htail : tail ≠ [] := by
        rintro rfl
        cases segments with
        | nil => exact hne rfl
        | cons s segments =>
          cases s with
          | one pattern => cases h
          | root | anyDirs | never =>
            have hskipped : skipped = [] := hskipped
            rw [hskipped] at hcs
            simp at hcs
      obtain ⟨front', c', rfl⟩ := (List.eq_nil_or_concat tail).resolve_left htail
      rw [List.concat_eq_append, ← List.append_assoc] at hcs
      obtain ⟨rfl, hlast⟩ := List.append_inj' hcs rfl
      cases hlast
      rw [List.concat_eq_append] at h
      obtain ⟨pattern, hmem, hc, hother⟩ := ih h
      refine ⟨pattern, List.mem_cons_of_mem _ hmem, hc, ?_⟩
      intro c' hc'
      rw [List.append_assoc]
      exact .dirs hne hskipped (hother c' hc')

/-- A last component is left over, or it is taken by a pattern. In both cases what stands behind
it does not matter, and in the second case any component that fits the pattern may take its
place. -/
theorem Spans.left_or_taken {front rest : List β} {c : β}
    (h : Spans holds (firstFit holds) segments (front ++ [c]) rest) :
    (∃ left, ∀ back, Spans holds (firstFit holds) segments (front ++ back) (left ++ back))
      ∨ ∃ pattern, .one pattern ∈ segments ∧ holds pattern c = true
        ∧ ∀ c' back, holds pattern c' = true →
          Spans holds (firstFit holds) segments (front ++ c' :: back) back := by
  obtain ⟨used, hused, hframe⟩ := h.frame
  rcases List.eq_nil_or_concat rest with rfl | ⟨left, last, rfl⟩
  · obtain ⟨pattern, hmem, hc, hother⟩ := h.last_taken
    refine .inr ⟨pattern, hmem, hc, ?_⟩
    intro c' back hc'
    obtain ⟨used', hused', hframe'⟩ := (hother c' hc').frame
    have hspans := hframe' back
    rwa [← List.append_nil used', ← hused', List.append_assoc] at hspans
  · refine .inl ⟨left, ?_⟩
    rw [List.concat_eq_append, ← List.append_assoc] at hused
    obtain ⟨rfl, -⟩ := List.append_inj' hused rfl
    intro back
    rw [List.append_assoc]
    exact hframe (left ++ back)

/-! ### Matching and what follows -/

variable {dirOnly isDir : Bool} {front back : List β}

/-- What matching answers where first fits cover the components. -/
theorem matchSegments_of_spans {cs rest : List β} (hpattern : ∃ pattern, .one pattern ∈ segments)
    (h : Spans holds (firstFit holds) segments cs rest) :
    matchSegments holds dirOnly isDir segments cs = !(dirOnly && !isDir && rest.isEmpty) := by
  have hconsume : consume holds false false segments cs = some rest :=
    consume_eq_some_iff.2 ⟨.inr hpattern, h⟩
  rw [matchSegments, hconsume]

/-- With more behind it, a path that is selected stays selected, also by a glob for directories. -/
theorem matchSegments_append (dirOnly' isDir' : Bool) (hback : back ≠ [])
    (h : matchSegments holds dirOnly isDir segments front = true) :
    matchSegments holds dirOnly' isDir' segments (front ++ back) = true := by
  obtain ⟨hpattern, rest, hspans, -⟩ := matchSegments_eq_true_iff.1 h
  obtain ⟨used, rfl, hframe⟩ := hspans.frame
  rw [List.append_assoc, matchSegments_of_spans hpattern (hframe (rest ++ back))]
  simp [hback]

/-- A glob without separators selects by a component in front, or by those behind alone. -/
theorem matchAny_append_iff {pattern : α} (isDir' : Bool) (hback : back ≠ []) :
    matchAny holds dirOnly isDir pattern (front ++ back) = true ↔
      matchAny holds false isDir' pattern front = true
        ∨ matchAny holds dirOnly isDir pattern back = true := by
  induction front with
  | nil => simp [matchAny]
  | cons c front ih =>
    rw [List.cons_append, matchAny, matchAny]
    split
    · simp [hback]
    · exact ih

end Matching

/-! ### Globs on written paths -/

/-- The glob that is written as nothing. It describes the empty component alone. -/
def IsBlank (g : Glob) : Prop :=
  g.shape = .anywhere ⟨[]⟩

/-- True if the glob selects a path by its own components, that is, also if nothing is below it. -/
def reaches (g : Glob) (path : String) : Bool :=
  isMatch { g with dirOnly := false } path

/-- A glob that selects a directory may spare a file below it: it does not reach the directory, and
the file, which is found by `way` from the directory, gives it nothing to select. -/
def Spares (g : Glob) (dir way : String) : Prop :=
  g.reaches dir = false
    ∧ (g.IsBlank ∧ [] ∉ components way.toList
      ∨ ¬ g.IsBlank ∧ g.dirOnly = true ∧ separator ∉ way.toList)

theorem components_below (dir way : String) :
    components (dir ++ "/" ++ way).toList = components dir.toList ++ components way.toList := by
  have hlist : (dir ++ "/" ++ way).toList = dir.toList ++ separator :: way.toList := by
    simp [separator]
  rw [hlist]
  exact List.splitOn_append_cons_self _ _

theorem isDirectory_below {way : String} (hway : way ≠ "") (dir : String) :
    isDirectory (dir ++ "/" ++ way).toList = isDirectory way.toList := by
  have hne : way.toList ≠ [] := by simpa using hway
  rw [isDirectory, isDirectory, String.toList_append, List.getLast?_append,
    List.getLast?_eq_some_getLast hne, Option.some_or]

/-- The components of a path: one, or with a separator more than one. -/
theorem exists_components (way : String) :
    ∃ c cs, components way.toList = c :: cs ∧ (cs ≠ [] ↔ separator ∈ way.toList) := by
  by_cases hsep : separator ∈ way.toList
  · obtain ⟨before, after, hway⟩ := List.append_of_mem hsep
    have hcomponents : components way.toList = components before ++ components after := by
      rw [hway]
      exact List.splitOn_append_cons_self _ _
    have hbefore : components before ≠ [] := List.splitOn_ne_nil _ _
    have hafter : components after ≠ [] := List.splitOn_ne_nil _ _
    obtain ⟨c, cs, hcs⟩ := List.exists_cons_of_ne_nil hbefore
    refine ⟨c, cs ++ components after, ?_, by simp [hafter, hsep]⟩
    rw [hcomponents, hcs, List.cons_append]
  · refine ⟨way.toList, [], ?_, by simp [hsep]⟩
    exact List.splitOn_eq_singleton hsep

theorem mem_of_isDirectory {way : String} (h : isDirectory way.toList = true) :
    separator ∈ way.toList ∧ [] ∈ components way.toList := by
  obtain ⟨front, rfl⟩ := Path.exists_of_isDirectory h
  constructor
  · simp [separator]
  · have hempty : components "".toList = [[]] := rfl
    have hcomponents := components_below front ""
    rw [String.append_empty, hempty] at hcomponents
    rw [hcomponents]
    exact List.mem_append_right _ List.mem_cons_self

/-- The blank glob selects a path with an empty component, wherever that stands. -/
theorem matchAny_blank_iff {way : String} (hway : way ≠ "") {dirOnly : Bool} :
    matchAny Wildcard.isMatch dirOnly (isDirectory way.toList) ⟨[]⟩ (components way.toList) = true
      ↔ [] ∈ components way.toList := by
  rw [matchAny_eq_true_iff]
  constructor
  · rintro ⟨before, c, after, hcs, hc, -⟩
    obtain rfl : c = [] := List.isEmpty_iff.1 hc
    rw [hcs]
    simp
  · intro hmem
    obtain ⟨before, after, hcs⟩ := List.append_of_mem hmem
    refine ⟨before, [], after, hcs, rfl, ?_⟩
    rintro - hfile rfl
    -- An empty component at the end stands behind a separator at the end.
    have hpieces : Path.pieces way = before.map String.ofList ++ [""] := by
      rw [Path.pieces, hcs, List.map_append]
      rfl
    exact Path.last_ne_empty hpieces hway hfile rfl

/-- Unless it is blank, a glob without separators that selects a directory selects it by its own
components: a pattern that describes the empty name describes the first of them. -/
theorem matchAny_of_ne_blank {w : Wildcard} (hw : w ≠ ⟨[]⟩) {dirOnly : Bool} (isDir : Bool)
    {dir : String}
    (h : matchAny Wildcard.isMatch dirOnly true w (components dir.toList ++ [[]]) = true) :
    matchAny Wildcard.isMatch false isDir w (components dir.toList) = true := by
  rcases (matchAny_append_iff isDir (by simp)).1 h with hdir | hempty
  · exact hdir
  · have hitems : w.items ≠ [] := by
      intro hitems
      apply hw
      rw [← hitems]
    have hnil : w.isMatch [] = true := by
      rw [matchAny] at hempty
      split at hempty
      · assumption
      · cases hempty
    obtain ⟨c, cs, hcs, -⟩ := exists_components dir
    have hc : w.isMatch c = true := Wildcard.matchItems_of_nil hitems hnil c
    rw [hcs, matchAny, if_pos hc]
    rfl

/-- In a glob that was read, a pattern that describes the empty name describes every name. -/
theorem isMatch_of_anchored {pattern : String} {g : Glob} (hg : parse pattern = .ok g)
    {segments : List (Segment Wildcard)} (hshape : g.shape = .anchored segments) {w : Wildcard}
    (hw : .one w ∈ segments) (h : w.isMatch [] = true) (name : List Char) :
    w.isMatch name = true := by
  obtain ⟨-, w', -, hshape'⟩ | ⟨-, segments', hread, hshape'⟩ := shape_of_parse hg
  · rw [hshape] at hshape'
    cases hshape'
  · rw [hshape] at hshape'
    cases hshape'
    obtain ⟨cs, -, hcs⟩ := mem_of_mapM hread hw
    rw [readSegment] at hcs
    split at hcs
    · cases hcs
    · rename_i hne
      split at hcs
      · cases hcs
      · split at hcs
        · cases hcs
        · obtain ⟨w', hparse, heq⟩ := map_eq_ok_iff.1 hcs
          cases heq
          exact Wildcard.isMatch_of_empty (by simpa using hne) hparse h name

variable {g : Glob} {dir way : String}

/-- A glob reaches what it selects. -/
theorem reaches_of_isMatch (h : g.isMatch dir = true) : g.reaches dir = true := by
  rw [isMatch] at h
  rw [reaches, isMatch]
  cases hshape : g.shape with
  | anywhere w =>
    simp only [hshape] at h ⊢
    obtain ⟨before, c, after, hcs, hc, -⟩ := matchAny_eq_true_iff.1 h
    exact matchAny_eq_true_iff.2 ⟨before, c, after, hcs, hc, by simp⟩
  | anchored segments =>
    simp only [hshape] at h ⊢
    obtain ⟨hpattern, rest, hspans, -⟩ := matchSegments_eq_true_iff.1 h
    exact matchSegments_eq_true_iff.2 ⟨hpattern, rest, hspans, by simp⟩

/-- A glob selects everything below what it reaches. -/
theorem isMatch_of_reaches (hway : way ≠ "") (h : g.reaches dir = true) :
    g.isMatch (dir ++ "/" ++ way) = true := by
  have hcomponents : components way.toList ≠ [] := List.splitOn_ne_nil _ _
  rw [reaches, isMatch] at h
  rw [isMatch, components_below, isDirectory_below hway]
  cases hshape : g.shape with
  | anywhere w =>
    simp only [hshape] at h ⊢
    exact (matchAny_append_iff _ hcomponents).2 (.inl h)
  | anchored segments =>
    simp only [hshape] at h ⊢
    exact matchSegments_append _ _ hcomponents h

/-- A glob that selects a directory without reaching it is blank, or one of its patterns takes the
empty component behind the directory. -/
theorem takes_empty (h : g.isMatch (Walker.candidate dir true) = true)
    (hreach : g.reaches dir = false) :
    g.IsBlank ∨ ∃ segments w, g.shape = .anchored segments ∧ .one w ∈ segments
      ∧ w.isMatch [] = true ∧ ∀ c back, w.isMatch c = true →
        Spans Wildcard.isMatch (firstFit Wildcard.isMatch) segments
          (components dir.toList ++ c :: back) back := by
  -- The directory does not end in a separator, or it would be selected as it is.
  have hdir : isDirectory dir.toList = false := by
    cases hdir : isDirectory dir.toList with
    | false => rfl
    | true =>
      have hcandidate : Walker.candidate dir true = dir := by simp [Walker.candidate, hdir]
      rw [hcandidate] at h
      rw [reaches_of_isMatch h] at hreach
      cases hreach
  have hcandidate : Walker.candidate dir true = dir ++ "/" ++ "" := by
    simp [Walker.candidate, hdir]
  have hempty : components "".toList = [[]] := rfl
  have hslash : isDirectory (dir ++ "/" ++ "").toList = true := by
    simp [isDirectory, separator]
  rw [hcandidate, isMatch, components_below, hempty, hslash] at h
  rw [reaches, isMatch] at hreach
  cases hshape : g.shape with
  | anywhere w =>
    simp only [hshape] at h hreach
    by_cases hw : w = ⟨[]⟩
    · subst hw
      exact .inl hshape
    · rw [matchAny_of_ne_blank hw _ h] at hreach
      cases hreach
  | anchored segments =>
    simp only [hshape] at h hreach
    obtain ⟨hpattern, rest, hspans, -⟩ := matchSegments_eq_true_iff.1 h
    rcases hspans.left_or_taken with ⟨left, hleft⟩ | ⟨w, hw, hnil, hother⟩
    · have hfront := hleft []
      rw [List.append_nil, List.append_nil] at hfront
      rw [matchSegments_of_spans hpattern hfront] at hreach
      cases hreach
    · exact .inr ⟨segments, w, rfl, hw, hnil, hother⟩

/-- **What a glob that selects a directory does not select below it:** exactly what it spares. -/
theorem isMatch_below {pattern : String} (hg : parse pattern = .ok g) (hway : way ≠ "")
    (h : g.isMatch (Walker.candidate dir true) = true) :
    g.isMatch (dir ++ "/" ++ way) = false ↔ g.Spares dir way := by
  cases hreach : g.reaches dir with
  | true => simp [Spares, hreach, isMatch_of_reaches hway hreach]
  | false =>
    rw [isMatch, components_below, isDirectory_below hway, Spares]
    rcases takes_empty h hreach with hblank | ⟨segments, w, hshape, hw, hnil, htakes⟩
    · have hcomponents : components way.toList ≠ [] := List.splitOn_ne_nil _ _
      have hshape : g.shape = .anywhere ⟨[]⟩ := hblank
      have hdir : matchAny Wildcard.isMatch false (isDirectory dir.toList) ⟨[]⟩
          (components dir.toList) = false := by
        simpa only [reaches, isMatch, hshape] using hreach
      simp only [hshape]
      rw [← Bool.not_eq_true, matchAny_append_iff (isDirectory dir.toList) hcomponents,
        matchAny_blank_iff hway, hdir]
      simp [hblank, hreach]
    · -- The pattern takes the first name of the way, and the others are left over.
      obtain ⟨c, cs, hcs, hmore⟩ := exists_components way
      have hspans := htakes c cs (isMatch_of_anchored hg hshape hw hnil c)
      have hblank : ¬ g.IsBlank := by simp [IsBlank, hshape]
      have hslash : cs = [] → isDirectory way.toList = false := by
        intro hnil
        cases hdir : isDirectory way.toList with
        | false => rfl
        | true => exact absurd hnil (hmore.2 (mem_of_isDirectory hdir).1)
      simp only [hshape]
      rw [hcs, matchSegments_of_spans ⟨w, hw⟩ hspans, ← hmore]
      cases cs with
      | nil => simp [hblank, hreach, hslash rfl]
      | cons d cs => simp [hblank]

/-- A directory below one that is selected is never spared: there is a separator behind it. -/
theorem isMatch_candidate_below {pattern : String} (hg : parse pattern = .ok g) (hway : way ≠ "")
    (h : g.isMatch (Walker.candidate dir true) = true) :
    g.isMatch (Walker.candidate (dir ++ "/" ++ way) true) = true := by
  have hends : ∀ way' : String, way' ≠ "" → isDirectory way'.toList = true →
      g.isMatch (dir ++ "/" ++ way') = true := by
    intro way' hway' hslash
    rw [← Bool.not_eq_false, isMatch_below hg hway' h]
    rintro ⟨-, ⟨-, hnot⟩ | ⟨-, -, hnot⟩⟩
    · exact hnot (mem_of_isDirectory hslash).2
    · exact hnot (mem_of_isDirectory hslash).1
  rw [Walker.candidate, isDirectory_below hway]
  cases hslash : isDirectory way.toList with
  | true => exact hends way hway hslash
  | false =>
    have hlonger : dir ++ "/" ++ way ++ "/" = dir ++ "/" ++ (way ++ "/") := String.append_assoc
    show g.isMatch (dir ++ "/" ++ way ++ "/") = true
    rw [hlonger]
    refine hends (way ++ "/") (by simp) ?_
    simp [isDirectory, separator]

end Glob

/-! ### Walkers -/

namespace Walker

variable {globs : List String} {w : Walker} {dir way : String}

theorem exists_parse_of_mem (hw : compile globs = .ok w) {g : Glob} (hg : g ∈ w.globs) :
    ∃ pattern, Glob.parse pattern = .ok g := by
  obtain ⟨compiled, hcompiled, h⟩ := bind_eq_ok_iff.1 hw
  cases h
  obtain ⟨pattern, -, hpattern⟩ := mem_of_mapM hcompiled hg
  exact ⟨pattern, mapError_eq_ok_iff.1 hpattern⟩

/-- **What is ignored below a directory that is ignored.** Every directory below it is. A file below
it is not ignored exactly if each glob that selects the directory spares the file, and each other
glob does not select it. So every file is ignored too if no glob is blank, and no glob for
directories with separators has a pattern that describes the empty name. A directory that is shown
as the step that stays in place is not shown before what lies below it, and has no say in it. -/
theorem isIgnored_below (hw : compile globs = .ok w) (hway : way ≠ "") :
    (Path.display dir = Path.here →
        ∀ isDir, w.isIgnored (dir ++ "/" ++ way) isDir = w.isIgnored way isDir)
      ∧ (Path.display dir ≠ Path.here → w.isIgnored dir true = true →
        w.isIgnored (dir ++ "/" ++ way) true = true
          ∧ (w.isIgnored (dir ++ "/" ++ way) false = false ↔
              ∀ g ∈ w.globs,
                g.isMatch (candidate (Path.display dir) true) = true
                    ∧ g.Spares (Path.display dir) way
                  ∨ g.isMatch (candidate (Path.display dir) true) = false
                    ∧ g.isMatch (Path.display dir ++ "/" ++ way) = false)
          ∧ ((∀ g ∈ w.globs, ¬ g.IsBlank ∧ (g.dirOnly = true → ∀ segments pattern,
                g.shape = .anchored segments → .one pattern ∈ segments →
                pattern.isMatch [] = false)) →
              w.isIgnored (dir ++ "/" ++ way) false = true)) := by
  constructor
  · intro hhere isDir
    rw [isIgnored, isIgnored, Path.display_below_here hhere]
  · intro hshown hdir
    obtain ⟨g, hg, hselects⟩ := List.any_eq_true.1 hdir
    obtain ⟨pattern, hpattern⟩ := exists_parse_of_mem hw hg
    have hfile : w.isIgnored (dir ++ "/" ++ way) false = false ↔
        ∀ g ∈ w.globs, g.isMatch (Path.display dir ++ "/" ++ way) = false := by
      rw [isIgnored, Path.display_below hshown, List.any_eq_false]
      simp [candidate]
    refine ⟨?_, ?_, ?_⟩
    · rw [isIgnored, Path.display_below hshown, List.any_eq_true]
      exact ⟨g, hg, Glob.isMatch_candidate_below hpattern hway hselects⟩
    · rw [hfile]
      refine forall₂_congr fun g hg => ?_
      obtain ⟨pattern, hpattern⟩ := exists_parse_of_mem hw hg
      cases hselects : g.isMatch (candidate (Path.display dir) true) with
      | true => simp [Glob.isMatch_below hpattern hway hselects]
      | false => simp
    · intro hplain
      obtain ⟨hblank, hfull⟩ := hplain g hg
      rw [← Bool.not_eq_false, hfile]
      intro hnone
      obtain ⟨hreach, ⟨hblank', -⟩ | ⟨-, hdirOnly, -⟩⟩ :=
        (Glob.isMatch_below hpattern hway hselects).1 (hnone g hg)
      · exact hblank hblank'
      · rcases Glob.takes_empty hselects hreach with hblank' | ⟨segments, p, hshape, hp, hnil, -⟩
        · exact hblank hblank'
        · rw [hfull hdirOnly segments p hshape hp] at hnil
          cases hnil

/-- What a glob for the directories in one directory is compiled to. -/
def subdirWalker : Walker where
  globs := [⟨"a/*/", .anchored [.one ⟨[.literal 'a']⟩, .one ⟨[.run]⟩], true⟩]

/-- The directory `a` is ignored by the empty component behind it, and the file in it is spared. -/
theorem isIgnored_below_spared :
    compile ["a/*/"] = .ok subdirWalker ∧ Path.display "./a" ≠ Path.here
      ∧ subdirWalker.isIgnored "./a" true = true
      ∧ subdirWalker.isIgnored ("./a" ++ "/" ++ "b.rs") true = true
      ∧ subdirWalker.isIgnored ("./a" ++ "/" ++ "b.rs") false = false := by
  have hcompile : compile ["a/*/"] = .ok subdirWalker := by with_unfolding_all rfl
  have hshown : Path.display "./a" ≠ Path.here := by decide +kernel
  have hdir : subdirWalker.isIgnored "./a" true = true := by decide +kernel
  obtain ⟨hbelow, hfile, -⟩ :=
    (isIgnored_below hcompile (by decide : "b.rs" ≠ "")).2 hshown hdir
  refine ⟨hcompile, hshown, hdir, hbelow, hfile.2 ?_⟩
  intro g hg
  cases List.mem_singleton.1 hg
  refine .inl ⟨by decide +kernel, by decide +kernel, .inr ⟨?_, rfl, by decide⟩⟩
  simp [Glob.IsBlank]

/-- **Not everything below an ignored directory is ignored.** -/
theorem not_isIgnored_below :
    ¬ ∀ (globs : List String) (w : Walker) (dir way : String) (isDir : Bool),
      compile globs = .ok w → Path.isRooted dir = false → Path.isRooted way = false → way ≠ "" →
      w.isIgnored dir true = true → w.isIgnored (dir ++ "/" ++ way) isDir = true := by
  intro h
  have hcompile : compile ["a/*/"] = .ok subdirWalker := by with_unfolding_all rfl
  have hfile := h _ _ "a" "b.rs" false hcompile (by decide +kernel) (by decide +kernel) (by decide)
    (by decide +kernel)
  revert hfile
  decide +kernel

/-- The blank glob ignores every directory and no file in it. -/
example :
    (compile [""]).toOption.map (fun w => (w.isIgnored "a" true, w.isIgnored "a/b.rs" false))
      = some (true, false) := by
  with_unfolding_all rfl

end Walker

end CrossTag
