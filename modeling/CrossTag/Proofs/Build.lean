import Mathlib.Data.List.Nodup
import CrossTag.Build
import CrossTag.Proofs.Index
import CrossTag.Proofs.Scan
import CrossTag.Proofs.Walk

/-!
# Each tag once

Several roots may lead to the same file. The files of all roots are put in the order of their shown
paths and of two neighbours with the same path one is dropped, so what decides is how the two
notions of a path go together:

    shown paths    what locations hold, and what the files are ordered by; without `./` in front
    paths          what neighbours are compared by; `./` in front of a path is part of it

Files of one shown path have one path as soon as all of them are written with `./` in front or none
of them is (`Path.ofString_eq_of_display_eq`). Then equal files are neighbours and no shown path is
listed twice (`displays_differ`), so no location is found twice. With roots of both kinds a file may
be listed twice, and each of its tags is then found twice.
-/

namespace CrossTag

open Outcome

/-! ### The files of several roots -/

namespace SourceFile

theorem le_trans (f g k : SourceFile) (hfg : f.le g = true) (hgk : g.le k = true) :
    f.le k = true :=
  Std.TransCmp.isLE_trans hfg hgk

theorem le_total (f g : SourceFile) : (f.le g || g.le f) = true := by
  have h : compare g.display f.display = (compare f.display g.display).swap :=
    Std.OrientedCmp.eq_swap
  cases hfg : compare f.display g.display <;> simp [le, h, hfg]

theorem display_eq_of_le_of_le {f g : SourceFile} (hfg : f.le g = true) (hgf : g.le f = true) :
    f.display = g.display :=
  Std.LawfulEqCmp.eq_of_compare (Std.OrientedCmp.isLE_antisymm hfg hgf)

end SourceFile

theorem mem_of_mem_dropRepeated {files : List SourceFile} {f : SourceFile}
    (h : f ∈ dropRepeated files) : f ∈ files := by
  fun_induction dropRepeated files with
  | case1 a b files _ ih =>
    rcases List.mem_cons.1 (ih h) with rfl | hf
    · exact List.mem_cons_self
    · exact List.mem_cons_of_mem _ (List.mem_cons_of_mem _ hf)
  | case2 a b files _ ih =>
    rcases List.mem_cons.1 h with rfl | hf
    · exact List.mem_cons_self
    · exact List.mem_cons_of_mem _ (ih hf)
  | case3 files _ => exact h

/-- Ordered files in which one shown path stands for one path have different shown paths after the
repeated ones are dropped. -/
theorem pairwise_dropRepeated {files : List SourceFile}
    (hordered : files.Pairwise fun f g => f.le g = true)
    (hsame : ∀ f ∈ files, ∀ g ∈ files, f.display = g.display →
      Path.ofString f.path = Path.ofString g.path) :
    (dropRepeated files).Pairwise fun f g => f.display ≠ g.display := by
  fun_induction dropRepeated files with
  | case1 a b files _ ih =>
    have hsub : (a :: files).Sublist (a :: b :: files) :=
      .cons_cons a (List.sublist_cons_self b files)
    refine ih (hordered.sublist hsub) fun f hf g hg => ?_
    exact hsame f (hsub.subset hf) g (hsub.subset hg)
  | case2 a b files hne ih =>
    rw [List.pairwise_cons] at hordered
    refine List.pairwise_cons.2 ⟨fun g hg => ?_, ?_⟩
    · have hab := hordered.1 b List.mem_cons_self
      have hne : a.display ≠ b.display := fun heq =>
        hne (hsame a List.mem_cons_self b (List.mem_cons_of_mem _ List.mem_cons_self) heq)
      rcases List.mem_cons.1 (mem_of_mem_dropRepeated hg) with rfl | hg
      · exact hne
      · -- A file further down with the shown path of the first would enclose the second.
        intro heq
        have hbg : b.le g = true := (List.pairwise_cons.1 hordered.2).1 g hg
        rw [SourceFile.le, ← heq] at hbg
        exact hne (SourceFile.display_eq_of_le_of_le hab hbg)
    · refine ih hordered.2 fun f hf g hg => ?_
      exact hsame f (List.mem_cons_of_mem _ hf) g (List.mem_cons_of_mem _ hg)
  | case3 files hshort =>
    rcases files with - | ⟨a, - | ⟨b, files⟩⟩
    · exact .nil
    · exact List.pairwise_singleton _ a
    · exact absurd rfl (hshort a b files)

section SourceFiles

variable {w : Walker} {t : Tree} {roots : List String} {files : List SourceFile}

theorem sourceFiles_eq_ok_iff :
    sourceFiles w t roots = .ok files ↔
      ∃ lists, roots.mapM (w.walk t) = .ok lists
        ∧ dropRepeated (lists.flatten.mergeSort SourceFile.le) = files := by
  rw [sourceFiles, bind_eq_ok_iff]
  refine exists_congr fun lists => and_congr_right fun _ => ?_
  exact ⟨Except.ok.inj, congrArg Except.ok⟩

theorem exists_walk_of_mem {lists : List (List SourceFile)}
    (h : roots.mapM (w.walk t) = .ok lists) {f : SourceFile} (hf : f ∈ lists.flatten) :
    ∃ root ∈ roots, ∃ found, w.walk t root = .ok found ∧ f ∈ found := by
  obtain ⟨found, hfound, hf⟩ := List.mem_flatten.1 hf
  obtain ⟨root, hroot, hwalk⟩ := mem_of_mapM h hfound
  exact ⟨root, hroot, found, hwalk, hf⟩

/-- Every file was listed for one of the roots. -/
theorem exists_walk_of_mem_sourceFiles (h : sourceFiles w t roots = .ok files) {f : SourceFile}
    (hf : f ∈ files) : ∃ root ∈ roots, ∃ found, w.walk t root = .ok found ∧ f ∈ found := by
  obtain ⟨lists, hlists, rfl⟩ := sourceFiles_eq_ok_iff.1 h
  exact exists_walk_of_mem hlists (List.mem_mergeSort.1 (mem_of_mem_dropRepeated hf))

/-- **No shown path is listed twice** if all roots are written with `./` in front or none of them
is. -/
theorem displays_differ (h : sourceFiles w t roots = .ok files)
    (hroots : ∀ root ∈ roots, ∀ other ∈ roots,
      (Path.ofString root).dotted = (Path.ofString other).dotted) :
    files.Pairwise fun f g => f.display ≠ g.display := by
  obtain ⟨lists, hlists, rfl⟩ := sourceFiles_eq_ok_iff.1 h
  refine pairwise_dropRepeated ?_ fun f hf g hg heq => ?_
  · exact List.pairwise_mergeSort SourceFile.le_trans SourceFile.le_total _
  · -- A path starts as the root does that it was found from.
    obtain ⟨root, hroot, found, hwalk, hf⟩ := exists_walk_of_mem hlists (List.mem_mergeSort.1 hf)
    obtain ⟨base, names, hbase, rfl, -⟩ := Walker.exists_of_mem_walk hwalk hf
    obtain ⟨other, hother, found', hwalk', hg⟩ :=
      exists_walk_of_mem hlists (List.mem_mergeSort.1 hg)
    obtain ⟨base', names', hbase', rfl, -⟩ := Walker.exists_of_mem_walk hwalk' hg
    refine Path.ofString_eq_of_display_eq heq ?_
    show (Path.ofString (Path.join root names)).dotted
      = (Path.ofString (Path.join other names')).dotted
    rw [Path.dotted_join (Tree.ne_empty_of_resolve hbase),
      Path.dotted_join (Tree.ne_empty_of_resolve hbase')]
    exact hroots root hroot other hother

end SourceFiles

/-! ### The elements of all files -/

/-- The elements that a file adds to a scan. -/
def elementsIn (t : Tree) (b : Bracket) (file : SourceFile) : List Element :=
  match scanListed t b file with
  | .ok elements => elements
  | .error _ => []

/-- A tree whose files have lines and columns that can be counted. -/
def Tree.Countable (t : Tree) : Prop :=
  ∀ p ∈ t.nodes, ∀ data, p.2 = .file data → Scan.Countable data

theorem Tree.Countable.of_contentOf {t : Tree} (ht : t.Countable) {written : String} {data : Bytes}
    (h : t.contentOf written = .ok data) : Scan.Countable data := by
  obtain ⟨key, -, hnode⟩ := Tree.contentOf_eq_ok_iff.1 h
  have hkey : key ≠ [] := by
    rintro rfl
    cases hnode
  exact ht _ (Tree.mem_of_node? hkey hnode) data rfl

section Elements

variable {t : Tree} {b : Bracket} {file : SourceFile} {elements : List Element}

theorem elementsIn_of_scanListed (h : scanListed t b file = .ok elements) :
    elements = elementsIn t b file := by
  rw [elementsIn, h]

/-- What a file adds was found in its content. -/
theorem scan_of_scanListed (hb : b.isUsable = true) (h : scanListed t b file = .ok elements)
    (hne : elements ≠ []) :
    ∃ data, t.contentOf file.path = .ok data ∧ Scan.scan b file.display data = .ok elements := by
  rw [scanListed] at h
  cases hscan : scanFile t b file with
  | error failure =>
    -- A file that has gone adds nothing.
    simp only [hscan] at h
    split at h
    · cases h
      exact absurd rfl hne
    · cases h
  | ok found =>
    simp only [hscan] at h
    cases h
    rw [scanFile] at hscan
    obtain ⟨data, hdata, hscan⟩ := bind_eq_ok_iff.1 hscan
    refine ⟨data, mapError_eq_ok_iff.1 hdata, ?_⟩
    split at hscan
    · -- Nor does one that is not text.
      cases hscan
      exact absurd rfl hne
    · rw [Scan.scanText_eq_scan hb] at hscan
      exact mapError_eq_ok_iff.1 hscan

theorem scan_of_elementsIn (hb : b.isUsable = true) (hne : elementsIn t b file ≠ []) :
    ∃ data, t.contentOf file.path = .ok data
      ∧ Scan.scan b file.display data = .ok (elementsIn t b file) := by
  cases hscan : scanListed t b file with
  | error failure =>
    rw [elementsIn, hscan] at hne
    exact absurd rfl hne
  | ok elements =>
    obtain rfl := elementsIn_of_scanListed hscan
    exact scan_of_scanListed hb hscan hne

theorem path_of_mem_elementsIn (hb : b.isUsable = true) {e : Element}
    (he : e ∈ elementsIn t b file) : e.loc.path = file.display := by
  obtain ⟨data, -, hscan⟩ := scan_of_elementsIn hb (List.ne_nil_of_mem he)
  exact Scan.path_of_mem_scan hscan he

/-- The elements of one file have different locations. -/
theorem elementsIn_ordered (ht : t.Countable) (hb : b.isUsable = true) :
    (elementsIn t b file).Pairwise fun e e' => e.loc < e'.loc := by
  by_cases hne : elementsIn t b file = []
  · rw [hne]
    exact .nil
  · obtain ⟨data, hdata, hscan⟩ := scan_of_elementsIn hb hne
    exact (ht.of_contentOf hdata).scan_ordered hb hscan

theorem nodup_locs_elementsIn (ht : t.Countable) (hb : b.isUsable = true) :
    ((elementsIn t b file).map (·.loc)).Nodup := by
  refine List.pairwise_map.2 ((elementsIn_ordered ht hb).imp ?_)
  rintro e e' hlt heq
  rw [heq] at hlt
  exact Location.lt_irrefl _ hlt

end Elements

/-! ### Scans of several roots -/

section Scans

variable {t : Tree} {roots : List String} {options : ScanOptions} {elements : List Element}

theorem check_eq_ok_iff {b : Bracket} : b.check = .ok () ↔ b.isUsable = true := by
  rw [Bracket.check]
  split
  · rename_i h
    exact iff_of_true rfl h
  · rename_i h
    refine iff_of_false ?_ h
    intro herror
    cases herror

/-- The steps of a scan that succeeds. -/
theorem scanRoots_eq_ok_iff :
    scanRoots t roots options = .ok elements ↔
      ∃ w files lists, Walker.compile options.ignore = .ok w
        ∧ options.bracket.orStandard.isUsable = true ∧ sourceFiles w t roots = .ok files
        ∧ files.mapM (scanListed t options.bracket.orStandard) = .ok lists
        ∧ lists.flatten.mergeSort (fun e e' => e.loc.le e'.loc) = elements := by
  rw [scanRoots]
  constructor
  · intro h
    obtain ⟨w, hw, h⟩ := bind_eq_ok_iff.1 h
    obtain ⟨_, hcheck, h⟩ := bind_eq_ok_iff.1 h
    obtain ⟨files, hfiles, h⟩ := bind_eq_ok_iff.1 h
    obtain ⟨lists, hlists, h⟩ := bind_eq_ok_iff.1 h
    exact ⟨w, files, lists, mapError_eq_ok_iff.1 hw,
      check_eq_ok_iff.1 (mapError_eq_ok_iff.1 hcheck), mapError_eq_ok_iff.1 hfiles, hlists,
      Except.ok.inj h⟩
  · rintro ⟨w, files, lists, hw, hb, hfiles, hlists, rfl⟩
    refine bind_eq_ok_iff.2 ⟨w, mapError_eq_ok_iff.2 hw, ?_⟩
    refine bind_eq_ok_iff.2 ⟨(), mapError_eq_ok_iff.2 (check_eq_ok_iff.2 hb), ?_⟩
    refine bind_eq_ok_iff.2 ⟨files, mapError_eq_ok_iff.2 hfiles, ?_⟩
    exact bind_eq_ok_iff.2 ⟨lists, hlists, rfl⟩

/-- The locations of all elements differ if no two files share one. -/
theorem nodup_locs_iff (ht : t.Countable) {b : Bracket} (hb : b.isUsable = true)
    {files : List SourceFile} :
    ((files.flatMap (elementsIn t b)).map (·.loc)).Nodup ↔
      files.Pairwise fun f g =>
        ∀ e ∈ elementsIn t b f, ∀ e' ∈ elementsIn t b g, e.loc ≠ e'.loc := by
  rw [List.map_flatMap, List.nodup_flatMap]
  constructor
  · rintro ⟨-, hfiles⟩
    refine hfiles.imp ?_
    intro f g hdisjoint e he e' he' heq
    exact hdisjoint (List.mem_map_of_mem he) (heq ▸ List.mem_map_of_mem he')
  · intro hfiles
    refine ⟨fun f _ => nodup_locs_elementsIn ht hb, hfiles.imp ?_⟩
    intro f g hne loc hf hg
    obtain ⟨e, he, rfl⟩ := List.mem_map.1 hf
    obtain ⟨e', he', heq⟩ := List.mem_map.1 hg
    exact hne e he e' he' heq.symm

/-- An index holds every element once. -/
theorem perm_locs_of_buildIndex {index : Index} (h : scanRoots t roots options = .ok elements)
    (hindex : buildIndex t roots options = .ok index) :
    (index.entries.map (·.loc)).Perm (elements.map (·.loc)) := by
  rw [buildIndex] at hindex
  obtain ⟨elements', helements, hindex⟩ := bind_eq_ok_iff.1 hindex
  obtain rfl : elements = elements' := Except.ok.inj (h.symm.trans helements)
  obtain ⟨entries, hentries, hindex⟩ := bind_eq_ok_iff.1 hindex
  cases hindex
  have hlocs : entries.map (·.loc) = elements.map (·.loc) := by
    refine map_eq_of_mapM (fun el e hparse => ?_) (mapError_eq_ok_iff.1 hentries)
    obtain ⟨s, -, hmeans⟩ := Tag.exists_sentence_of_parse (mapError_eq_ok_iff.1 hparse)
    exact hmeans.loc_eq
  rw [← hlocs]
  exact (List.mergeSort_perm entries _).map _

/-- **Overlapping roots.** The elements of a scan have different locations exactly if no two of the
listed files share one, and an index holds every element once. If all roots are written with `./` in
front or none of them is, then all locations are different, however the roots overlap. -/
theorem scanRoots_nodup (ht : t.Countable) (h : scanRoots t roots options = .ok elements) :
    (∃ w files, Walker.compile options.ignore = .ok w ∧ sourceFiles w t roots = .ok files
        ∧ ((elements.map (·.loc)).Nodup ↔ files.Pairwise fun f g =>
            ∀ e ∈ elementsIn t options.bracket.orStandard f,
              ∀ e' ∈ elementsIn t options.bracket.orStandard g, e.loc ≠ e'.loc))
      ∧ (∀ index, buildIndex t roots options = .ok index →
          (index.entries.map (·.loc)).Perm (elements.map (·.loc)))
      ∧ ((∀ root ∈ roots, ∀ other ∈ roots,
            (Path.ofString root).dotted = (Path.ofString other).dotted) →
          (elements.map (·.loc)).Nodup
            ∧ ∀ index, buildIndex t roots options = .ok index →
                (index.entries.map (·.loc)).Nodup) := by
  obtain ⟨w, files, lists, hw, hb, hfiles, hlists, hordered⟩ := scanRoots_eq_ok_iff.1 h
  have hlists := map_eq_of_mapM (k := id) (fun _ _ => elementsIn_of_scanListed) hlists
  have hperm : (elements.map (·.loc)).Perm
      ((files.flatMap (elementsIn t options.bracket.orStandard)).map (·.loc)) := by
    rw [← hordered, List.flatMap_def, ← hlists, List.map_id]
    exact (List.mergeSort_perm _ _).map _
  have hiff := hperm.nodup_iff.trans (nodup_locs_iff ht hb)
  refine ⟨⟨w, files, hw, hfiles, hiff⟩, fun index => perm_locs_of_buildIndex h, fun hroots => ?_⟩
  have hnodup : (elements.map (·.loc)).Nodup := by
    refine hiff.2 ((displays_differ hfiles hroots).imp ?_)
    intro f g hne e he e' he' heq
    rw [← path_of_mem_elementsIn hb he, ← path_of_mem_elementsIn hb he', heq] at hne
    exact hne rfl
  refine ⟨hnodup, fun index hindex => ?_⟩
  exact (perm_locs_of_buildIndex h hindex).nodup_iff.2 hnodup

end Scans

/-- A file with one tag in a directory. -/
def oneTagBelow : Tree where
  nodes := [(["sub"], .dir), (["sub", "x.rs"], .file (Bytes.ofString "[# meow #]\n"))]

/-- The tag in it. -/
def meowBelow : Element :=
  ⟨"meow", ⟨"sub/x.rs", 1, 1, 10⟩⟩

/-- What the standard globs are compiled to. -/
def standardWalker : Walker where
  globs := [⟨".git", .anywhere ⟨".git".toList.map .literal⟩, false⟩]

theorem oneTagBelow_countable : oneTagBelow.Countable := by
  intro p hp data hdata
  rcases List.mem_cons.1 hp with rfl | hp
  · cases hdata
  · cases List.mem_singleton.1 hp
    cases hdata
    exact ⟨by decide +kernel, by decide +kernel⟩

/-- A root, and a file below it as a root of its own. -/
theorem scanRoots_nodup_below :
    scanRoots oneTagBelow ["sub", "sub/x.rs"] {} = .ok [meowBelow]
      ∧ ([meowBelow].map (·.loc)).Nodup := by
  have hcompile : Walker.compile [] = .ok standardWalker := by with_unfolding_all rfl
  have hfiles : sourceFiles standardWalker oneTagBelow ["sub", "sub/x.rs"]
      = .ok [.ofPath "sub/x.rs"] := by
    refine sourceFiles_eq_ok_iff.2 ⟨[[.ofPath "sub/x.rs"], [.ofPath "sub/x.rs"]], ?_, ?_⟩
    · with_unfolding_all rfl
    · rw [List.mergeSort_of_pairwise (by decide +kernel)]
      simp [dropRepeated]
  have hlists : [SourceFile.ofPath "sub/x.rs"].mapM (scanListed oneTagBelow {})
      = .ok [[meowBelow]] := by
    with_unfolding_all rfl
  have hscan : scanRoots oneTagBelow ["sub", "sub/x.rs"] {} = .ok [meowBelow] :=
    scanRoots_eq_ok_iff.2 ⟨_, _, _, hcompile, by decide, hfiles, hlists,
      List.mergeSort_singleton meowBelow⟩
  exact ⟨hscan, ((scanRoots_nodup oneTagBelow_countable hscan).2.2 (by decide +kernel)).1⟩

/-- **Not every scan has different locations.** The current directory and a directory in it show the
same file with `./` in front and without it. -/
theorem not_scanRoots_nodup :
    ¬ ∀ (t : Tree) (roots : List String) (options : ScanOptions) (elements : List Element),
      t.Proper → t.Countable → (∀ root ∈ roots, t.leads root = true) →
      scanRoots t roots options = .ok elements → (elements.map (·.loc)).Nodup := by
  intro h
  have hcompile : Walker.compile [] = .ok standardWalker := by with_unfolding_all rfl
  have hfiles : sourceFiles standardWalker oneTagBelow [".", "sub"]
      = .ok [.ofPath "./sub/x.rs", .ofPath "sub/x.rs"] := by
    refine sourceFiles_eq_ok_iff.2 ⟨[[.ofPath "./sub/x.rs"], [.ofPath "sub/x.rs"]], ?_, ?_⟩
    · with_unfolding_all rfl
    · have hne : Path.ofString "./sub/x.rs" ≠ Path.ofString "sub/x.rs" := by decide +kernel
      rw [List.mergeSort_of_pairwise (by decide +kernel)]
      simp [dropRepeated, SourceFile.ofPath, hne]
  have hlists : [SourceFile.ofPath "./sub/x.rs", .ofPath "sub/x.rs"].mapM
      (scanListed oneTagBelow {}) = .ok [[meowBelow], [meowBelow]] := by
    with_unfolding_all rfl
  have hscan : scanRoots oneTagBelow [".", "sub"] {} = .ok [meowBelow, meowBelow] :=
    scanRoots_eq_ok_iff.2 ⟨_, _, _, hcompile, by decide, hfiles, hlists,
      List.mergeSort_of_pairwise (by decide +kernel)⟩
  have hnodup := h oneTagBelow [".", "sub"] {} _ (by decide) oneTagBelow_countable
    (by decide +kernel) hscan
  revert hnodup
  decide

end CrossTag
