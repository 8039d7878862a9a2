import CrossTag.Watch
import CrossTag.Proofs.Walk

/-!
# Files that are listed and files that are watched

A walk and a watcher decide apart what belongs to an index. They look at a file from two sides:

    the walk       globs on the root as it is written and the names below it; hidden names below it
    the watcher    globs and hidden names on the way from the first root that the file lies below

So a change of a file that is listed matters exactly if nothing on that way is hidden and no glob
selects the way (`isRelevant_iff`). If the first root above the file leads to the same place as the
one that it was listed for, then nothing on the way is hidden; and no glob selects the way if the
globs are without separators, since these select by single names and the walk has seen those names
too (`isIgnored_of_anywhere`), or if the root is written as the current directory, since the walk
has then seen the same path. Otherwise a glob with separators may select the way and not what the
walk has seen, and a name between two roots may be hidden.
-/

namespace CrossTag

open Outcome

/-! ### Globs on parts of a path -/

namespace Glob

variable {α β : Type} {holds : α → β → Bool}

/-- What a glob without separators selects, it selects with more in front as well. -/
theorem matchAny_append {dirOnly isDir : Bool} {pattern : α} (front : List β) {back : List β}
    (h : matchAny holds dirOnly isDir pattern back = true) :
    matchAny holds dirOnly isDir pattern (front ++ back) = true := by
  have hback : back ≠ [] := by
    rintro rfl
    cases h
  induction front with
  | nil => exact h
  | cons c front ih =>
    rw [List.cons_append, matchAny]
    split
    · simp [hback]
    · exact ih

end Glob

namespace Walker

variable {w : Walker}

theorem isIgnored_file (path : String) :
    w.isIgnored path false = w.globs.any (·.isMatch (Path.display path)) := rfl

/-- Globs without separators do not select the names below a root if they do not select the root
with these names. -/
theorem isIgnored_of_anywhere (hglobs : ∀ g ∈ w.globs, ∃ pattern, g.shape = .anywhere pattern)
    {root : String} (hroot : root ≠ "") {names : List String} (hne : names ≠ [])
    (hnames : ∀ name ∈ names, Path.IsName name)
    (h : w.isIgnored (Path.join root names) false = false) :
    w.isIgnored ("/".intercalate names) false = false := by
  rw [isIgnored_file, List.any_eq_false] at h ⊢
  intro g hg hmatch
  refine h g hg ?_
  obtain ⟨pattern, hpattern⟩ := hglobs g hg
  obtain ⟨front, hfront⟩ := Path.exists_pieces_display_join hroot hne hnames
  have hpieces : Path.pieces ("/".intercalate names) = names :=
    Path.pieces_intercalate hne fun name hname => (hnames name hname).no_separator
  have hlast : ∀ (path : String) (start : List String), Path.pieces path = start ++ names →
      Glob.isDirectory path.toList = false := by
    intro path start hpath
    have hsplit : Path.pieces path = start ++ names.dropLast ++ [names.getLast hne] := by
      rw [hpath, List.append_assoc, List.dropLast_concat_getLast hne]
    exact Path.isDirectory_eq_false hsplit (hnames _ (List.getLast_mem hne)).ne_empty
  rw [Path.display_intercalate hnames, Glob.isMatch, hpattern] at hmatch
  rw [Glob.isMatch, hpattern]
  simp only [Path.components_toList, hpieces, hlast _ [] hpieces] at hmatch
  simp only [Path.components_toList, hfront, List.map_append, hlast _ front hfront]
  exact Glob.matchAny_append _ hmatch

end Walker

/-! ### The watcher -/

namespace Watcher

variable {t : Tree} {w : Watcher}

theorem start_eq_ok {roots ignore exclude : List String}
    (h : start t roots ignore exclude = .ok w) :
    ∃ walker, Walker.compile ignore = .ok walker
      ∧ w = ⟨roots.map t.settle, walker, exclude.map t.settle⟩ := by
  rw [start] at h
  split at h
  · cases h
  · obtain ⟨walker, hwalker, h⟩ := bind_eq_ok_iff.1 h
    cases h
    exact ⟨walker, mapError_eq_ok_iff.1 hwalker, rfl⟩

theorem settle_of_resolve {written : String} {key : List String}
    (h : t.resolve written = .ok key) : t.settle written = .absolute key := by
  rw [Tree.settle, h]

theorem rest?_absolute (dir key : List String) :
    rest? (.absolute dir) (.absolute key)
      = if dir.isPrefixOf key then some ⟨false, false, key.drop dir.length⟩ else none := by
  have hne : ¬ Path.absolute dir = ⟨false, false, []⟩ := by
    intro h
    cases h
  rw [rest?, if_neg hne]
  simp [Path.absolute]

/-- The first of some roots that something lies below, and the way from there. -/
theorem exists_first {roots : List String} (hroots : ∀ root ∈ roots, t.leads root = true)
    {root : String} (hroot : root ∈ roots) {base : List String}
    (hbase : t.resolve root = .ok base) (names : List String) :
    ∃ before first after place way,
      roots = before ++ first :: after ∧ t.resolve first = .ok place ∧ base ++ names = place ++ way
        ∧ (∀ other ∈ before, ∀ dir, t.resolve other = .ok dir → ¬ dir <+: base ++ names)
        ∧ (roots.map t.settle).findSome? (rest? · (.absolute (base ++ names)))
          = some ⟨false, false, way⟩ := by
  have hsettle : ∀ other ∈ roots, ∃ dir, t.resolve other = .ok dir := by
    intro other hother
    have hleads := hroots other hother
    rw [Tree.leads] at hleads
    cases hresolve : t.resolve other with
    | ok dir => exact ⟨dir, rfl⟩
    | error fault =>
      rw [hresolve] at hleads
      cases hleads
  have hrest : ∀ other ∈ roots, ∀ dir, t.resolve other = .ok dir →
      rest? (t.settle other) (.absolute (base ++ names))
        = if dir.isPrefixOf (base ++ names) then
            some ⟨false, false, (base ++ names).drop dir.length⟩ else none := by
    intro other _ dir hdir
    rw [settle_of_resolve hdir, rest?_absolute]
  rw [List.findSome?_map]
  cases hfind : roots.findSome? ((rest? · (.absolute (base ++ names))) ∘ t.settle) with
  | none =>
    have hnone := List.findSome?_eq_none_iff.1 hfind root hroot
    rw [Function.comp_apply, hrest root hroot base hbase] at hnone
    simp at hnone
  | some rest =>
    obtain ⟨before, first, after, hsplit, hfirst, hbefore⟩ := List.findSome?_eq_some_iff.1 hfind
    have hmem : first ∈ roots := by simp [hsplit]
    obtain ⟨place, hplace⟩ := hsettle first hmem
    rw [Function.comp_apply, hrest first hmem place hplace] at hfirst
    split at hfirst
    · rename_i hprefix
      obtain ⟨way, hway⟩ := List.isPrefixOf_iff_prefix.1 hprefix
      cases hfirst
      refine ⟨before, first, after, place, way, hsplit, hplace, hway.symm, ?_, ?_⟩
      · intro other hother dir hdir hprefix
        have hnone := hbefore other hother
        rw [Function.comp_apply, hrest other (by simp [hsplit, hother]) dir hdir,
          if_pos (List.isPrefixOf_iff_prefix.2 hprefix)] at hnone
        cases hnone
      · rw [← hway, List.drop_left]
    · cases hfirst

/-- **When a change of a file matters:** nothing on the way to it from the first root above it is
hidden, and no glob selects this way. -/
theorem isRelevant_iff (ht : t.Proper) {written : String} {key way : List String} {data : Bytes}
    (hkey : t.resolve written = .ok key) (hfile : t.node? key = some (.file data))
    (hway : ∀ name ∈ way, name ∈ key)
    (hfirst : w.roots.findSome? (rest? · (.absolute key)) = some ⟨false, false, way⟩)
    (hexclude : t.settle written ∉ w.exclude) :
    w.isRelevant t written = true ↔
      (∀ name ∈ way, Walker.isHidden name = false)
        ∧ w.walker.isIgnored ("/".intercalate way) false = false := by
  have hne : key ≠ [] := by
    rintro rfl
    cases hfile
  have hdir : t.isDir (Path.absolute key).render = false := by
    rw [Tree.isDir, ht.resolve_absolute hne (by rw [hfile]; rfl)]
    exact Tree.isDirAt_of_file hfile
  have hpart : ∀ name ∈ way, isHiddenPart name = Walker.isHidden name := by
    intro name hname
    have hparent := (ht.name_of_node? hfile (hway name hname)).ne_parent
    simp [isHiddenPart, hparent]
  have hrender : Path.render ⟨false, false, way⟩ = "/".intercalate way := by
    simp [Path.render]
  rw [settle_of_resolve hkey] at hexclude
  have hexclude : w.exclude.contains (Path.absolute key) = false := by simpa using hexclude
  have hhidden : way.any isHiddenPart = false ↔ ∀ name ∈ way, Walker.isHidden name = false := by
    rw [List.any_eq_false]
    refine forall₂_congr fun name hname => ?_
    rw [hpart name hname, Bool.not_eq_true]
  simp only [isRelevant, settle_of_resolve hkey, hexclude, hfirst, hrender, hdir,
    Bool.false_eq_true, if_false, Bool.and_eq_true, Bool.not_eq_true', hhidden]

/-- **Which of the files that a walk lists are watched.** A file that a walk lists for one of the
roots and that is not excluded lies below some root, and a change of it matters exactly if nothing
on the way from the first such root is hidden and no glob selects the way. If that root leads to
the same place as the one that the file was listed for, and the file is not the root itself, then a
change of it matters if no glob has a separator, or if the root is written as the current
directory. -/
theorem isRelevant_listed (ht : t.Proper) (hplain : t.Plain)
    {roots ignore exclude : List String} (hroots : ∀ root ∈ roots, t.leads root = true)
    (hstart : start t roots ignore exclude = .ok w) {walker : Walker}
    (hwalker : Walker.compile ignore = .ok walker)
    {root : String} (hroot : root ∈ roots) {files : List SourceFile}
    (hwalk : walker.walk t root = .ok files) {f : SourceFile} (hf : f ∈ files)
    (hexclude : ∀ path ∈ exclude, t.settle path ≠ t.settle f.path) :
    ∃ before first after place way,
      roots = before ++ first :: after ∧ t.resolve first = .ok place
        ∧ t.resolve f.path = .ok (place ++ way)
        ∧ (∀ other ∈ before, ∀ dir, t.resolve other = .ok dir → ¬ dir <+: place ++ way)
        ∧ (w.isRelevant t f.path = true ↔
            (∀ name ∈ way, Walker.isHidden name = false)
              ∧ walker.isIgnored ("/".intercalate way) false = false)
        ∧ (t.resolve root = .ok place → way ≠ [] →
            (∀ g ∈ walker.globs, ∃ pattern, g.shape = .anywhere pattern) ∨ Path.IsHere root →
            w.isRelevant t f.path = true) := by
  obtain ⟨walker', hwalker', rfl⟩ := start_eq_ok hstart
  obtain rfl : walker = walker' := Except.ok.inj (hwalker.symm.trans hwalker')
  obtain ⟨base, names, hbase, rfl, hfinds⟩ := Walker.exists_of_mem_walk hwalk hf
  obtain ⟨hresolve, data, hnode⟩ := Walker.resolve_listed ht hbase hfinds
  obtain ⟨before, first, after, place, way, hsplit, hplace, hkey, hbefore, hfirst⟩ :=
    exists_first hroots hroot hbase names
  have hroot := Tree.ne_empty_of_resolve hbase
  rw [hkey] at hresolve hnode hbefore hfirst
  have hnames : ∀ name ∈ place ++ way, Path.IsName name := fun name hname =>
    ht.name_of_node? hnode hname
  have hexclude : t.settle (Path.join root names) ∉ exclude.map t.settle := by
    intro hmem
    obtain ⟨path, hpath, hsettle⟩ := List.mem_map.1 hmem
    exact hexclude path hpath hsettle
  have hiff := isRelevant_iff (w := ⟨roots.map t.settle, walker, exclude.map t.settle⟩) ht hresolve
    hnode (fun name hname => List.mem_append_right _ hname) hfirst hexclude
  refine ⟨before, first, after, place, way, hsplit, hplace, hresolve, hbefore, hiff, ?_⟩
  intro hsame hway hcase
  obtain rfl : base = place := Except.ok.inj (hbase.symm.trans hsame)
  obtain rfl : names = way := List.append_cancel_left hkey
  have hfinds := hfinds.resolve_left fun hroot => hway hroot.1
  obtain ⟨hhidden, hkept⟩ := hfinds.not_skipped hplain
  have hnames : ∀ name ∈ names, Path.IsName name := fun name hname =>
    hnames name (List.mem_append_right _ hname)
  rw [Tree.isDirAt, hnode] at hkept
  change walker.isIgnored (Path.join root names) false = false at hkept
  refine hiff.2 ⟨hhidden, ?_⟩
  rcases hcase with hglobs | hhere
  · exact Walker.isIgnored_of_anywhere hglobs hroot hway hnames hkept
  · rw [Walker.isIgnored_file, hhere.display_join hway hnames] at hkept
    rw [Walker.isIgnored_file, Path.display_intercalate hnames]
    exact hkept

/-- A file two directories deep, and one in a hidden directory. -/
def deepAndHidden : Tree where
  nodes := [(["x"], .dir), (["x", "a"], .dir), (["x", "a", "b.rs"], .file []), ([".h"], .dir),
    ([".h", "c.rs"], .file [])]

/-- What a glob for directories of one name is compiled to. -/
def vendorWalker : Walker where
  globs := [⟨"vendor/", .anywhere ⟨"vendor".toList.map .literal⟩, true⟩]

theorem isRelevant_listed_deep :
    ∃ w, start deepAndHidden ["x"] ["vendor/"] ["out"] = .ok w
      ∧ vendorWalker.walk deepAndHidden "x" = .ok [.ofPath "x/a/b.rs"]
      ∧ w.isRelevant deepAndHidden "x/a/b.rs" = true := by
  have hcompile : Walker.compile ["vendor/"] = .ok vendorWalker := by with_unfolding_all rfl
  have hstart : start deepAndHidden ["x"] ["vendor/"] ["out"]
      = .ok ⟨["x"].map deepAndHidden.settle, vendorWalker, ["out"].map deepAndHidden.settle⟩ := by
    with_unfolding_all rfl
  have hwalk : vendorWalker.walk deepAndHidden "x" = .ok [.ofPath "x/a/b.rs"] := by
    with_unfolding_all rfl
  have hlisted := isRelevant_listed (by decide) (by decide) (by decide +kernel) hstart hcompile
    List.mem_cons_self hwalk List.mem_cons_self (by decide +kernel)
  obtain ⟨before, first, after, place, way, hsplit, hplace, hkey, -, -, hrelevant⟩ := hlisted
  refine ⟨_, hstart, hwalk, ?_⟩
  obtain ⟨rfl, hone⟩ | ⟨_, -, hnone⟩ := List.cons_eq_append_iff.1 hsplit
  · cases hone
    obtain rfl : ["x"] = place := Except.ok.inj hplace
    have hkey : ["x", "a", "b.rs"] = ["x"] ++ way := Except.ok.inj hkey
    obtain rfl : ["a", "b.rs"] = way := List.cons.inj hkey |>.2
    exact hrelevant rfl (List.cons_ne_nil _ _) (.inl (by simp [vendorWalker]))
  · cases List.append_eq_nil_iff.1 hnone.symm |>.2

/-- What a glob for one file in one directory is compiled to. -/
def fileWalker : Walker where
  globs := [⟨"a/b.rs",
    .anchored [.one ⟨"a".toList.map .literal⟩, .one ⟨"b.rs".toList.map .literal⟩], false⟩]

/-- **Not every file that is listed is watched.** A glob with separators does not select a file as
the walk sees it, behind the root, but selects it as the watcher sees it. -/
theorem not_isRelevant_listed :
    ¬ ∀ (t : Tree) (roots ignore exclude : List String) (w : Watcher) (walker : Walker)
        (root : String) (files : List SourceFile) (f : SourceFile), t.Proper → t.Plain →
      (∀ root ∈ roots, t.leads root = true) → start t roots ignore exclude = .ok w →
      Walker.compile ignore = .ok walker → root ∈ roots → walker.walk t root = .ok files →
      f ∈ files → (∀ path ∈ exclude, t.settle path ≠ t.settle f.path) →
      w.isRelevant t f.path = true := by
  intro h
  have hcompile : Walker.compile ["a/b.rs"] = .ok fileWalker := by with_unfolding_all rfl
  have hstart : start deepAndHidden ["x"] ["a/b.rs"] []
      = .ok ⟨["x"].map deepAndHidden.settle, fileWalker, []⟩ := by
    with_unfolding_all rfl
  have hwalk : fileWalker.walk deepAndHidden "x" = .ok [.ofPath "x/a/b.rs"] := by
    with_unfolding_all rfl
  have hrelevant := h deepAndHidden _ _ _ _ _ _ _ _ (by decide) (by decide) (by decide +kernel)
    hstart hcompile List.mem_cons_self hwalk List.mem_cons_self (by simp)
  revert hrelevant
  decide +kernel

/-- A file below a root that is hidden below a root before it is listed and not watched. -/
example :
    (Walker.compile []).toOption.map (·.walk deepAndHidden ".h" |>.toOption)
        = some (some [.ofPath ".h/c.rs"])
      ∧ (start deepAndHidden [".", ".h"] [] []).toOption.map (·.isRelevant deepAndHidden ".h/c.rs")
        = some false :=
  ⟨by with_unfolding_all rfl, by with_unfolding_all rfl⟩

end Watcher

end CrossTag
