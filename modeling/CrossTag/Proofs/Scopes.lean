import CrossTag.Proofs.Tag.Reader

/-!
# Scopes confine what is seen

A scope may be written in short: `.` stands for the file of the tag and `./` for its directory. It
is stored spelled out, as a path in the first case and as a path that ends in a separator in the
second, and referral only ever compares what is stored. So whether a scope confines a tag as it is
meant to depends on the two forms being told apart:

    stored scope      ends in a separator      a path is within it if
    file              no                       it is equal to it
    directory         yes                      it goes on behind it

The path of a tag does not end in a separator, so a stored file is never taken for a directory; and
the separator at the end of a directory keeps it apart from others whose names only start alike.
-/

namespace CrossTag

namespace Tag

/-- A sentence that sets no scope but in short. -/
def Sentence.ScopesInShort (s : Sentence) : Prop :=
  ∀ value, (Entry.scopeKey, value) ∈ s.assignments → value = "." ∨ value = "./"

/-- An entry that was read in a file, from a tag without a scope or with one in short. -/
structure ReadInShort (e : Entry) : Prop where
  read : ∃ text, parse text e.loc = .ok e
    ∧ ∃ s : Sentence, tokenize text.toList = .ok s.tokens ∧ s.Means e.loc e ∧ s.ScopesInShort
  path_ne : e.loc.path ≠ ""
  path_file : Glob.isDirectory e.loc.path.toList = false

/-! ### Stored scopes -/

namespace IsDirectoryOf

variable {dir path : String}

theorem isDirectory (h : IsDirectoryOf dir path) : Glob.isDirectory dir.toList = true := by
  obtain ⟨front, base, -, hdir, -⟩ := h
  simp [Glob.isDirectory, hdir]

theorem begins (h : IsDirectoryOf dir path) : dir.toList <+: path.toList := by
  obtain ⟨front, base, -, -, hpath⟩ := h
  exact ⟨base, hpath.symm⟩

end IsDirectoryOf

/-- A scope in short is stored as the file or as its directory. -/
theorem ReadInShort.scope_cases {e : Entry} (he : ReadInShort e) :
    e.scope = "" ∨ e.scope = e.loc.path ∨ IsDirectoryOf e.scope e.loc.path := by
  obtain ⟨text, -, s, -, hmeans, hshort⟩ := he.read
  cases hscope : e.attrs.get? Entry.scopeKey with
  | none => exact .inl (by simp [Entry.scope, hscope])
  | some stored =>
    have heq : e.scope = stored := by simp [Entry.scope, hscope]
    obtain ⟨value, hmem, hstores⟩ := hmeans.sets.exists_stores rfl hscope
    have hvalue := storedValue_eq_ok_iff.2 hstores
    rw [heq]
    rcases hshort value hmem with rfl | rfl
    · -- `.`
      have hfile : storedValue e.loc.path Entry.scopeKey "." = .ok (some e.loc.path) := rfl
      rw [hfile] at hvalue
      exact .inr (.inl (Option.some.inj (Except.ok.inj hvalue)).symm)
    · -- `./`
      have hdir : storedValue e.loc.path Entry.scopeKey "./" = .ok (containingDir? e.loc.path) :=
        rfl
      rw [hdir] at hvalue
      exact .inr (.inr (containingDir?_eq_some_iff.1 (Except.ok.inj hvalue)))

end Tag

/-! ### Paths within a scope -/

namespace Entry

/-- The paths in the file or the directory to which an entry is scoped. -/
inductive Covers (e : Entry) (path : String) : Prop
  | file : e.scope = e.loc.path → path = e.loc.path → Covers e path
  | directory : Tag.IsDirectoryOf e.scope e.loc.path → e.scope.toList <+: path.toList →
      Covers e path

theorem isWithin_of_directory {scope path : String} (h : Glob.isDirectory scope.toList = true) :
    isWithin scope path = true ↔ scope.toList <+: path.toList := by
  rw [isWithin, if_pos h, List.isPrefixOf_iff_prefix]

theorem isWithin_of_file {scope path : String} (h : Glob.isDirectory scope.toList = false) :
    isWithin scope path = true ↔ path = scope := by
  rw [isWithin, if_neg (by simp [h]), beq_iff_eq, eq_comm]

variable {e them : Entry}

/-- The scope of an entry covers the paths within it. -/
theorem isWithin_scope_iff (he : Tag.ReadInShort e) (hscope : e.scope ≠ "") {path : String} :
    isWithin e.scope path = true ↔ e.Covers path := by
  rcases he.scope_cases with hnone | hfile | hdir
  · exact absurd hnone hscope
  · have hplain : Glob.isDirectory e.scope.toList = false := hfile ▸ he.path_file
    rw [isWithin_of_file hplain]
    constructor
    · intro h
      exact .file hfile (h.trans hfile)
    · intro h
      cases h with
      | file _ hpath => exact hpath.trans hfile.symm
      | directory hdir _ =>
        rw [hdir.isDirectory] at hplain
        cases hplain
  · rw [isWithin_of_directory hdir.isDirectory]
    constructor
    · exact fun h => .directory hdir h
    · intro h
      cases h with
      | file hfile _ =>
        have hplain := he.path_file
        rw [← hfile, hdir.isDirectory] at hplain
        cases hplain
      | directory _ hpath => exact hpath

/-- If the scope of one entry lies within that of another, so does its path. -/
theorem covers_of_isWithin (he : Tag.ReadInShort e) (hthem : Tag.ReadInShort them)
    (hscope : e.scope ≠ "") (hscope' : them.scope ≠ "")
    (h : isWithin e.scope them.scope = true) : e.Covers them.loc.path := by
  rcases hthem.scope_cases with hnone | hfile | hdir
  · exact absurd hnone hscope'
  · rw [← hfile]
    exact (isWithin_scope_iff he hscope).1 h
  · cases (isWithin_scope_iff he hscope).1 h with
    | file _ heq =>
      -- A directory is no file.
      have hplain := he.path_file
      rw [← heq, hdir.isDirectory] at hplain
      cases hplain
    | directory hown hbegins => exact .directory hown (hbegins.trans hdir.begins)

theorem isReferredBy_of_scoped (hscope : e.scope ≠ "") :
    e.isReferredBy them
      = isWithin e.scope (if them.scope = "" then them.loc.path else them.scope) := by
  simp [isReferredBy, hscope]

theorem isReferredBy_of_unscoped (hscope : e.scope = "") (hscope' : them.scope ≠ "") :
    e.isReferredBy them = isWithin them.scope e.loc.path := by
  simp [isReferredBy, hscope, hscope']

/-- **A scope in short confines who refers to whom.** A scoped entry is referred to only from its
own file or directory, and from there by every entry without a scope. An entry without a scope is
referred to by a scoped one only if it lies in the file or directory of that one. -/
theorem isReferredBy_confined (he : Tag.ReadInShort e) (hthem : Tag.ReadInShort them) :
    (e.scope ≠ "" → e.isReferredBy them = true → e.Covers them.loc.path)
      ∧ (e.scope = "" → them.scope ≠ "" →
          (e.isReferredBy them = true ↔ them.Covers e.loc.path))
      ∧ (e.scope ≠ "" → them.scope = "" →
          (e.isReferredBy them = true ↔ e.Covers them.loc.path)) := by
  refine ⟨?_, ?_, ?_⟩
  · intro hscope h
    rw [isReferredBy_of_scoped hscope] at h
    split at h
    · exact (isWithin_scope_iff he hscope).1 h
    · rename_i hscope'
      exact covers_of_isWithin he hthem hscope hscope' h
  · intro hscope hscope'
    rw [isReferredBy_of_unscoped hscope hscope']
    exact isWithin_scope_iff hthem hscope'
  · intro hscope hscope'
    rw [isReferredBy_of_scoped hscope, if_pos hscope']
    exact isWithin_scope_iff he hscope

/-- The tag `./x` in a file of the directory `a`. -/
def scopedToA : Entry :=
  ⟨"x", Attrs.empty.insert scopeKey "a/", ⟨"a/y.rs", 1, 1, 8⟩⟩

/-- The tag `x` in some file. -/
def unscopedAt (path : String) : Entry :=
  ⟨"x", .empty, ⟨path, 1, 1, 6⟩⟩

theorem readInShort_scopedToA : Tag.ReadInShort scopedToA := by
  have hparse : Tag.parse "./x" scopedToA.loc = .ok scopedToA := by with_unfolding_all rfl
  have htokens : Tag.tokenize "./x".toList
      = .ok (Tag.Sentence.tokens ⟨[], .inDirectory ['x'], [], none⟩) := by with_unfolding_all rfl
  have hdir : Tag.IsDirectoryOf "a/" "a/y.rs" := ⟨['a'], ['y', '.', 'r', 's'], by decide⟩
  refine ⟨⟨"./x", hparse, _, htokens, ⟨rfl, rfl, ?_, .inr rfl⟩, ?_⟩, by decide, by decide⟩
  · exact .set rfl rfl (.directory hdir) (.done _)
  · intro value hmem
    cases List.mem_singleton.1 hmem
    exact .inr rfl

theorem readInShort_unscopedAt {path : String} (hne : path ≠ "")
    (hfile : Glob.isDirectory path.toList = false) : Tag.ReadInShort (unscopedAt path) := by
  have hparse : Tag.parse "x" (unscopedAt path).loc = .ok (unscopedAt path) := by
    with_unfolding_all rfl
  have htokens : Tag.tokenize "x".toList
      = .ok (Tag.Sentence.tokens ⟨[], .plain ['x'] (by simp), [], none⟩) := by
    with_unfolding_all rfl
  refine ⟨⟨"x", hparse, _, htokens, ⟨rfl, rfl, .done _, .inr rfl⟩, ?_⟩, hne, hfile⟩
  intro value hmem
  cases hmem

theorem isReferredBy_confined_scopedToA :
    scopedToA.isReferredBy (unscopedAt "a/b/z.rs") = true ∧ scopedToA.Covers "a/b/z.rs"
      ∧ scopedToA.isReferredBy (unscopedAt "ab/x") = false ∧ ¬ scopedToA.Covers "ab/x" := by
  have hscope : scopedToA.scope ≠ "" := by decide
  have hbelow : scopedToA.isReferredBy (unscopedAt "a/b/z.rs") = true := by decide
  have hbeside : scopedToA.isReferredBy (unscopedAt "ab/x") = false := by decide
  obtain ⟨hcovers, -, -⟩ := isReferredBy_confined readInShort_scopedToA
    (readInShort_unscopedAt (show "a/b/z.rs" ≠ "" by decide) (by decide))
  obtain ⟨-, -, hiff⟩ := isReferredBy_confined readInShort_scopedToA
    (readInShort_unscopedAt (show "ab/x" ≠ "" by decide) (by decide))
  refine ⟨hbelow, hcovers hscope hbelow, hbeside, ?_⟩
  intro hcovered
  rw [(hiff hscope rfl).2 hcovered] at hbeside
  cases hbeside

end Entry

end CrossTag
