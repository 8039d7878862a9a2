import CrossTag.Files.Tree
import CrossTag.Proofs.Path

/-!
# What a shown path keeps

Showing a path takes `./` off its front, as text, as often as it stands there. What a path says are
its parts and where it starts:

    written     shown      parts     starts at the root
    ././a/b     a/b        a, b      neither
    .//a        /a         a         only as it is shown
    /./a        /./a       a         both

The parts are the same (`parts_display`), and showing a path once takes off all there is
(`display_display`). Where it starts may change in one way: behind what is taken off, another
separator may stand, which then comes to the front (`isRooted_display_iff`). Such a path hides a root
(`HidesRoot`).

So a path is shown as a path that leads to the same place, unless it hides a root, or nothing is left
to show (`resolve_display`). A path that hides a root is shown as a path that leads from the root
where the path leads from the current directory (`HidesRoot.resolve_display`).
-/

namespace CrossTag

namespace Path

/-! ### What is shown -/

theorem dropDots_dropDots (cs : List Char) : dropDots (dropDots cs) = dropDots cs := by
  obtain ⟨n, hn⟩ := exists_dots cs
  rw [← dropDots_dots n (dropDots cs), ← hn]

theorem display_display (written : String) : display (display written) = display written := by
  rw [display, display, String.toList_ofList, dropDots_dropDots]

theorem not_prefix_display (written : String) : ¬ "./".toList <+: (display written).toList := by
  rintro ⟨rest, hrest⟩
  have hdots : (display written).toList = '.' :: '/' :: rest := hrest.symm
  rw [display, String.toList_ofList] at hdots
  exact dropDots_ne _ rest hdots

/-! ### Where a shown path starts -/

/-- A path that starts in place and has one more separator behind the steps that stay there. -/
def HidesRoot (written : String) : Prop :=
  ∃ n rest, written.toList = dots (n + 1) ++ separator :: rest

theorem isRooted_iff {written : String} :
    isRooted written = true ↔ ∃ rest, written.toList = separator :: rest := by
  rw [isRooted, beq_iff_eq, List.head?_eq_some_iff]

theorem HidesRoot.not_rooted {written : String} (h : HidesRoot written) :
    isRooted written = false := by
  obtain ⟨n, rest, hwritten⟩ := h
  rw [isRooted, hwritten, dots_succ]
  rfl

/-- **A shown path starts at the root if the path does, or hides a root.** -/
theorem isRooted_display_iff {written : String} :
    isRooted (display written) = true ↔ isRooted written = true ∨ HidesRoot written := by
  rw [isRooted_iff, isRooted_iff, display, String.toList_ofList]
  constructor
  · rintro ⟨rest, hrest⟩
    obtain ⟨n, hn⟩ := exists_dots written.toList
    rw [hrest] at hn
    cases n with
    | zero => exact .inl ⟨rest, hn⟩
    | succ n => exact .inr ⟨n, rest, hn⟩
  · rintro (⟨rest, hrest⟩ | ⟨n, rest, hrest⟩)
    · refine ⟨rest, ?_⟩
      rw [hrest]
      rfl
    · refine ⟨rest, ?_⟩
      rw [hrest, dropDots_dots]
      rfl

theorem hidesRoot_iff {written : String} :
    HidesRoot written ↔ isRooted (display written) = true ∧ isRooted written = false := by
  constructor
  · intro h
    exact ⟨isRooted_display_iff.2 (.inr h), h.not_rooted⟩
  · rintro ⟨hshown, hwritten⟩
    rcases isRooted_display_iff.1 hshown with hrooted | h
    · rw [hwritten] at hrooted
      cases hrooted
    · exact h

instance (written : String) : Decidable (HidesRoot written) :=
  decidable_of_iff _ hidesRoot_iff.symm

theorem isRooted_display {written : String} (h : ¬ HidesRoot written) :
    isRooted (display written) = isRooted written := by
  rw [Bool.eq_iff_iff, isRooted_display_iff, or_iff_left h]

end Path

/-! ### Where a shown path leads -/

namespace Tree

variable {t : Tree} {place : List String}

theorem follow_here_cons {rest : List String} (hne : rest ≠ []) :
    t.follow place (Path.here :: rest) = t.follow place rest := by
  obtain ⟨piece, rest, rfl⟩ := List.exists_cons_of_ne_nil hne
  rw [follow]
  split
  · rw [if_pos (.inr rfl)]
  · rename_i hdir
    rw [follow, if_neg hdir]

/-- Steps that stay in place may be taken off the front. -/
theorem follow_replicate_here {rest : List String} (hne : rest ≠ []) (n : Nat) :
    t.follow place (List.replicate n Path.here ++ rest) = t.follow place rest := by
  induction n with
  | zero => rfl
  | succ n ih =>
    rw [List.replicate_succ, List.cons_append, follow_here_cons (by simp [hne]), ih]

/-- A path leads where its shown pieces lead from where it starts. -/
theorem resolve_eq_follow_display {written : String} (hne : written ≠ "") :
    t.resolve written = t.follow (t.start written) (Path.pieces (Path.display written)) := by
  obtain ⟨n, hn⟩ := Path.exists_pieces_display written
  rw [resolve, if_neg (by simpa using hne), hn, follow_replicate_here (Path.pieces_ne_nil _)]

/-- Where the current directory is does not matter to steps from a given place. -/
theorem follow_current (t : Tree) (current place pieces : List String) :
    ({ t with current := current } : Tree).follow place pieces = t.follow place pieces := by
  have hdir : ∀ key, ({ t with current := current } : Tree).isDirAt key = t.isDirAt key :=
    fun _ => rfl
  have hnode : ∀ key, ({ t with current := current } : Tree).node? key = t.node? key :=
    fun _ => rfl
  induction pieces generalizing place with
  | nil => rfl
  | cons piece rest ih => simp only [follow, hdir, hnode, ih]

end Tree

namespace Path

variable {written : String}

theorem ne_empty_of_display_ne_empty (h : display written ≠ "") : written ≠ "" := by
  rintro rfl
  exact h rfl

/-- **A path leads where it is shown to lead,** unless it hides a root or nothing of it is shown. -/
theorem resolve_display (t : Tree) (h : ¬ HidesRoot written) (hne : display written ≠ "") :
    t.resolve (display written) = t.resolve written := by
  rw [Tree.resolve_eq_follow_display hne, display_display,
    Tree.resolve_eq_follow_display (ne_empty_of_display_ne_empty hne), Tree.start, Tree.start,
    isRooted_display h]

/-- A path that hides a root is shown as a path that leads from the root where the path leads from
the current directory. -/
theorem HidesRoot.resolve_display (h : HidesRoot written) (t : Tree) :
    t.resolve (display written) = ({ t with current := [] } : Tree).resolve written := by
  have hshown : isRooted (display written) = true := isRooted_display_iff.2 (.inr h)
  have hne : display written ≠ "" := by
    intro hempty
    rw [hempty] at hshown
    cases hshown
  rw [Tree.resolve_eq_follow_display hne, display_display,
    Tree.resolve_eq_follow_display (ne_empty_of_display_ne_empty hne), t.follow_current [],
    Tree.start, Tree.start, hshown, h.not_rooted, if_pos rfl, if_neg Bool.false_ne_true]

/-- **What a shown path keeps.** Showing a path again changes nothing, and what is shown does not
start with `./`. Names and steps to the parent are those of the path, in the same order. The shown
path starts at the root exactly if the path does or hides a root behind the steps in front of it.
Unless it does, and as long as anything is shown, both lead to the same place in every tree; if it
does, then the shown path leads from the root where the path leads from the current directory. -/
theorem display_keeps (written : String) :
    display (display written) = display written
      ∧ ¬ "./".toList <+: (display written).toList
      ∧ (ofString (display written)).parts = (ofString written).parts
      ∧ ((ofString (display written)).rooted = true
          ↔ (ofString written).rooted = true ∨ HidesRoot written)
      ∧ ∀ t : Tree,
          (¬ HidesRoot written → display written ≠ "" →
            t.resolve (display written) = t.resolve written)
          ∧ (HidesRoot written →
            t.resolve (display written) = ({ t with current := [] } : Tree).resolve written) := by
  refine ⟨display_display written, not_prefix_display written, parts_display written,
    isRooted_display_iff, ?_⟩
  intro t
  constructor
  · exact resolve_display t
  · intro h
    exact h.resolve_display t

/-- Two files of one name, in the current directory and at the root. -/
def twoFiles : Tree where
  nodes := [(["a"], .file []), (["w"], .dir), (["w", "a"], .file [])]
  current := ["w"]

theorem display_keeps_twoFiles :
    ¬ HidesRoot "././../w//a"
      ∧ display "././../w//a" = "../w//a"
      ∧ twoFiles.resolve "../w//a" = twoFiles.resolve "././../w//a"
      ∧ HidesRoot ".//a"
      ∧ display ".//a" = "/a"
      ∧ twoFiles.resolve ".//a" = .ok ["w", "a"]
      ∧ twoFiles.resolve "/a" = .ok ["a"] := by
  have hopen : ¬ HidesRoot "././../w//a" := by decide +kernel
  have hhidden : HidesRoot ".//a" := by decide +kernel
  have hshown : display "././../w//a" = "../w//a" := by decide +kernel
  have hrooted : display ".//a" = "/a" := by decide +kernel
  obtain ⟨-, -, -, -, hleads⟩ := display_keeps "././../w//a"
  obtain ⟨-, -, -, -, hmoved⟩ := display_keeps ".//a"
  have hsame := (hleads twoFiles).1 hopen (by rw [hshown]; decide)
  have hroot := (hmoved twoFiles).2 hhidden
  rw [hshown] at hsame
  rw [hrooted] at hroot
  refine ⟨hopen, hshown, hsame, hhidden, hrooted, by with_unfolding_all rfl, ?_⟩
  rw [hroot]
  with_unfolding_all rfl

/-- A relative path may be shown as one that starts at the root. -/
theorem not_display_keeps :
    ¬ ∀ written : String,
      display (display written) = display written
        ∧ ¬ "./".toList <+: (display written).toList
        ∧ (ofString (display written)).parts = (ofString written).parts
        ∧ ((ofString (display written)).rooted = true ↔ (ofString written).rooted = true) := by
  intro h
  obtain ⟨-, -, -, hrooted⟩ := h ".//etc"
  have hshown : (ofString (display ".//etc")).rooted = true := by decide +kernel
  have hwritten : (ofString ".//etc").rooted = false := by decide +kernel
  rw [hrooted.1 hshown] at hwritten
  cases hwritten

end Path

end CrossTag
