import CrossTag.Proofs.Canonical
import CrossTag.Proofs.SameFile

/-!
# The first failure of a build

A build puts things in order twice before it reads the first tag, and leaves some of them out:

    roots     --walk-->          listed files
              --dropRepeated-->  kept files, in the order of their shown paths
              --scanFile-->      elements, in the order of their locations
              --parseAll-->      entries, or the first element that is no tag

`IsFirstFailure` says which element that is in terms of the listed files alone, so nothing of the
rest shows in a failure. There is at most one such element (`IsFirstFailure.unique`), and the build
stops at it for two reasons. Of every file that is dropped a name is kept that does not come after
its own (`exists_mem_dropRepeated`), and under that name the same elements are no tags. And in a
sorted list the first element that is no tag has the least location of all (`find?_mergeSort`).

What is left is that roots matter only as far as they are given at all: the same files are listed for
them in any order and however often each of them is repeated (`Listed.of_members`).
-/

namespace CrossTag

open Outcome

/-! ### The first element that is no tag -/

namespace Element

theorem parseAll_eq_error_iff {elements : List Element} {el : Element} {cause : TagError} :
    parseAll elements = .error ⟨el, cause⟩ ↔
      elements.find? isBroken = some el ∧ Tag.parse el.text el.loc = .error cause := by
  have hbroken : (fun e : Element => !(parse e).isOk) = isBroken := by
    funext e
    rw [isBroken, parse]
    cases Tag.parse e.text e.loc <;> rfl
  rw [parseAll, mapM_eq_error_iff, hbroken]
  constructor
  · rintro ⟨e, hfirst, herror⟩
    obtain ⟨cause', hcause, heq⟩ := mapError_eq_error_iff.1 herror
    cases heq
    exact ⟨hfirst, hcause⟩
  · rintro ⟨hfirst, hcause⟩
    exact ⟨el, hfirst, mapError_eq_error_iff.2 ⟨cause, hcause, rfl⟩⟩

/-- True if `e` does not stand behind `e'`. -/
def le (e e' : Element) : Bool :=
  e.loc.le e'.loc

theorem le_trans (e e' e'' : Element) (h : e.le e' = true) (h' : e'.le e'' = true) :
    e.le e'' = true :=
  Location.le_trans _ _ _ h h'

theorem le_total (e e' : Element) : (e.le e' || e'.le e) = true :=
  Location.le_total _ _

/-- **In a sorted list, the first broken element has the least location,** and it is the first of
those that are there. -/
theorem find?_mergeSort {elements : List Element} {el : Element}
    (h : (elements.mergeSort le).find? isBroken = some el) :
    (∀ e ∈ elements, e.isBroken = true → el.le e = true)
      ∧ (elements.filter (·.loc = el.loc)).find? isBroken = some el := by
  obtain ⟨hbroken, before, after, hsplit, hbefore⟩ := List.find?_eq_some_iff_append.1 h
  constructor
  · intro e he hebroken
    have he : e ∈ elements.mergeSort le := List.mem_mergeSort.2 he
    have hsorted : (elements.mergeSort le).Pairwise fun e e' => e.le e' = true :=
      List.pairwise_mergeSort le_trans le_total elements
    rw [hsplit] at he
    rw [hsplit, List.pairwise_append, List.pairwise_cons] at hsorted
    rcases List.mem_append.1 he with he | he
    · have hnot := hbefore e he
      rw [hebroken] at hnot
      cases hnot
    · rcases List.mem_cons.1 he with rfl | he
      · exact Location.le_refl _
      · exact hsorted.2.1.1 e he
  · have hstable : (elements.mergeSort le).filter (·.loc = el.loc)
        = elements.filter (·.loc = el.loc) := by
      refine filter_mergeSort le_trans le_total (List.pairwise_of_forall_mem_list ?_)
      intro e he e' he'
      rw [List.mem_filter, decide_eq_true_eq] at he he'
      rw [le, he.2, he'.2]
      exact Location.le_refl _
    rw [← hstable, List.find?_filter, List.find?_eq_some_iff_append]
    refine ⟨by simp [hbroken], before, after, hsplit, ?_⟩
    intro e he
    have hnot := hbefore e he
    rw [Bool.not_eq_true'] at hnot
    simp [hnot]

end Element

/-! ### Files that are kept -/

/-- Of every file, one name is kept that does not come after the others. -/
theorem exists_mem_dropRepeated {files : List SourceFile}
    (hordered : files.Pairwise fun f g => f.le g = true) {f : SourceFile} (hf : f ∈ files) :
    ∃ g ∈ dropRepeated files, Path.ofString f.path = Path.ofString g.path ∧ g.le f = true := by
  have hrefl : ∀ g : SourceFile, g.le g = true := by
    intro g
    rw [SourceFile.le, Std.ReflOrd.compare_self]
    rfl
  fun_induction dropRepeated files generalizing f with
  | case1 a b files hsame ih =>
    have hsub : (a :: files).Sublist (a :: b :: files) :=
      .cons_cons a (List.sublist_cons_self b files)
    have hrest := hordered.sublist hsub
    rcases List.mem_cons.1 hf with rfl | hf
    · exact ih hrest List.mem_cons_self
    · rcases List.mem_cons.1 hf with rfl | hf
      · -- The file that is dropped is represented by the one before it.
        obtain ⟨g, hg, hpath, hle⟩ := ih hrest List.mem_cons_self
        have hab := (List.pairwise_cons.1 hordered).1 f List.mem_cons_self
        exact ⟨g, hg, hsame.symm.trans hpath, SourceFile.le_trans g a f hle hab⟩
      · exact ih hrest (List.mem_cons_of_mem _ hf)
  | case2 a b files hne ih =>
    rcases List.mem_cons.1 hf with rfl | hf
    · exact ⟨f, List.mem_cons_self, rfl, hrefl f⟩
    · obtain ⟨g, hg, hpath, hle⟩ := ih (List.pairwise_cons.1 hordered).2 hf
      exact ⟨g, List.mem_cons_of_mem _ hg, hpath, hle⟩
  | case3 files _ => exact ⟨f, hf, rfl, hrefl f⟩

theorem exists_walk {w : Walker} {t : Tree} {root : String} (h : t.leads root = true) :
    ∃ found, w.walk t root = .ok found := by
  rw [Tree.leads] at h
  rw [Walker.walk]
  cases hbase : t.resolve root with
  | error fault =>
    rw [hbase] at h
    cases h
  | ok base =>
    dsimp only
    split
    · exact ⟨_, rfl⟩
    · exact ⟨_, rfl⟩

/-- Some of the listed files, among them of each file a name that does not come after its others. -/
structure Represents (w : Walker) (t : Tree) (roots : List String) (files : List SourceFile) :
    Prop where
  listed : ∀ f ∈ files, Listed w t roots f
  kept : ∀ f, Listed w t roots f →
    ∃ g ∈ files, Path.ofString f.path = Path.ofString g.path ∧ g.le f = true

/-- **Roots that lead somewhere have all their files listed.** -/
theorem exists_sourceFiles {w : Walker} {t : Tree} {roots : List String}
    (h : ∀ root ∈ roots, t.leads root = true) :
    ∃ files, sourceFiles w t roots = .ok files ∧ Represents w t roots files := by
  obtain ⟨lists, hlists, -⟩ := exists_mapM_all_iff.2 fun root hroot =>
    (exists_walk (w := w) (h root hroot)).imp fun found hfound =>
      ⟨hfound, (rfl : (fun _ => true) found = true)⟩
  have hfiles : sourceFiles w t roots = .ok (dropRepeated (lists.flatten.mergeSort SourceFile.le)) :=
    sourceFiles_eq_ok_iff.2 ⟨lists, hlists, rfl⟩
  refine ⟨_, hfiles, fun f hf => exists_walk_of_mem_sourceFiles hfiles hf, ?_⟩
  rintro f ⟨root, hroot, found, hwalk, hf⟩
  obtain ⟨found', hfound', hwalk'⟩ := exists_mem_of_mapM hlists hroot
  cases hwalk.symm.trans hwalk'
  have hordered := List.pairwise_mergeSort SourceFile.le_trans SourceFile.le_total lists.flatten
  exact exists_mem_dropRepeated hordered
    (List.mem_mergeSort.2 (List.mem_flatten.2 ⟨found, hfound', hf⟩))

/-! ### The first failure -/

/-- The first element of some files that is no tag: none of those that are not has a smaller
location, and in every file with its path it is the first of them at its location. -/
structure IsFirstFailure (t : Tree) (b : Bracket) (listed : SourceFile → Prop) (el : Element)
    (cause : TagError) : Prop where
  fails : Tag.parse el.text el.loc = .error cause
  found : ∃ f, listed f ∧ el ∈ elementsIn t b f
  least : ∀ f, listed f → ∀ e ∈ elementsIn t b f, e.isBroken = true → el.loc.le e.loc = true
  first : ∀ f, listed f → f.display = el.loc.path →
    ((elementsIn t b f).filter (·.loc = el.loc)).find? Element.isBroken = some el

namespace IsFirstFailure

variable {t : Tree} {b : Bracket} {listed : SourceFile → Prop} {el el' : Element}
  {cause cause' : TagError}

/-- **There is at most one first failure.** -/
theorem unique (hb : b.isUsable = true) (h : IsFirstFailure t b listed el cause)
    (h' : IsFirstFailure t b listed el' cause') : el = el' ∧ cause = cause' := by
  obtain ⟨f, hf, hel⟩ := h.found
  obtain ⟨f', hf', hel'⟩ := h'.found
  have hloc : el.loc = el'.loc :=
    Location.le_antisymm (h.least f' hf' el' hel' (Element.isBroken_iff.2 ⟨cause', h'.fails⟩))
      (h'.least f hf el hel (Element.isBroken_iff.2 ⟨cause, h.fails⟩))
  have hpath := path_of_mem_elementsIn hb hel
  have hfirst := h.first f hf hpath.symm
  have hfirst' := h'.first f hf (by rw [← hloc, hpath])
  rw [← hloc, hfirst] at hfirst'
  cases hfirst'
  exact ⟨rfl, Except.error.inj (h.fails.symm.trans h'.fails)⟩

/-- Where lines and columns can be counted, nothing else stands at its location. -/
theorem eq_of_loc (hb : b.isUsable = true) (ht : t.Countable)
    (h : IsFirstFailure t b listed el cause) {f : SourceFile} (hf : listed f) {e : Element}
    (he : e ∈ elementsIn t b f) (hloc : e.loc = el.loc) : e = el := by
  have hpath := path_of_mem_elementsIn hb he
  have hel := List.mem_of_find?_eq_some (h.first f hf (by rw [← hpath, hloc]))
  rw [List.mem_filter] at hel
  exact List.inj_on_of_nodup_map (nodup_locs_elementsIn ht hb) he hel.1 hloc

end IsFirstFailure

/-- Roots below which everything can be scanned. -/
structure Scannable (w : Walker) (t : Tree) (b : Bracket) (roots : List String) : Prop where
  usable : b.isUsable = true
  proper : t.Proper
  leads : ∀ root ∈ roots, t.leads root = true
  tidy : ∀ root ∈ roots, Path.IsTidy root
  scans : ∀ f, Listed w t roots f → ∃ elements, scanFile t b f = .ok elements

section Builds

variable {w : Walker} {t : Tree} {b : Bracket} {roots : List String} {files : List SourceFile}

theorem mapM_scanListed (h : ∀ f ∈ files, ∃ elements, scanFile t b f = .ok elements) :
    files.mapM (scanListed t b) = .ok (files.map (elementsIn t b)) := by
  have hscan : ∀ f ∈ files, scanListed t b f = pure (elementsIn t b f) := by
    intro f hf
    obtain ⟨elements, helements⟩ := h f hf
    rw [elementsIn_of_scanFile helements, scanListed, helements]
    rfl
  rw [mapM_congr hscan, List.mapM_pure]
  rfl

/-- Every element of a listed file is also found under a name of the file that was kept. -/
theorem Represents.exists_kept (hfiles : Represents w t roots files) (hs : Scannable w t b roots)
    {f : SourceFile} (hf : Listed w t roots f) {e : Element}
    (he : e ∈ elementsIn t b f) :
    ∃ g ∈ files, Path.ofString f.path = Path.ofString g.path ∧ g.le f = true
      ∧ e.relocate g.display ∈ elementsIn t b g
      ∧ (e.isBroken = true → (e.relocate g.display).isBroken = true) := by
  obtain ⟨g, hg, hpath, hle⟩ := hfiles.kept f hf
  obtain ⟨elements, hscan⟩ := hs.scans f hf
  obtain ⟨hmem, hbroken⟩ := (hf.sound hs.proper hs.tidy).exists_relocated
    ((hfiles.listed g hg).sound hs.proper hs.tidy) hs.usable hpath hscan he
  exact ⟨g, hg, hpath, hle, hmem, hbroken⟩

/-- **What a build stops at** is the first failure of all listed files, whichever of them were
kept. -/
theorem isFirstFailure_of_find? (hs : Scannable w t b roots)
    (hfiles : Represents w t roots files) {el : Element} {cause : TagError}
    (hcause : Tag.parse el.text el.loc = .error cause)
    (h : ((files.flatMap (elementsIn t b)).mergeSort Element.le).find? Element.isBroken
      = some el) :
    IsFirstFailure t b (Listed w t roots) el cause := by
  obtain ⟨hleast, hfirst⟩ := Element.find?_mergeSort h
  rw [List.filter_flatMap, List.find?_flatMap] at hfirst
  obtain ⟨g, hg, hfirst⟩ := List.exists_of_findSome?_eq_some hfirst
  have hel := (List.mem_filter.1 (List.mem_of_find?_eq_some hfirst)).1
  refine ⟨hcause, ⟨g, hfiles.listed g hg, hel⟩, ?_, ?_⟩
  · -- What is dropped comes after what was kept of it, and that comes after `el`.
    intro f hf e he hbroken
    obtain ⟨k, hk, -, hle, hmem, hrelocated⟩ := hfiles.exists_kept hs hf he
    have hle' : (e.relocate k.display).loc.le e.loc = true := by
      refine Location.le_of_path_le ?_
      rw [path_of_mem_elementsIn hs.usable he]
      exact hle
    refine Location.le_trans _ _ _ ?_ hle'
    exact hleast _ (List.mem_flatMap.2 ⟨k, hk, hmem⟩) (hrelocated hbroken)
  · -- All files with the path of `el` hold the same elements.
    intro f hf hdisplay
    have hshown : f.display = g.display := hdisplay.trans (path_of_mem_elementsIn hs.usable hel)
    rw [(hf.sound hs.proper hs.tidy).elementsIn_eq_of_display
      ((hfiles.listed g hg).sound hs.proper hs.tidy) hshown]
    exact hfirst

theorem Listed.of_members {roots' : List String} (h : ∀ root, root ∈ roots' ↔ root ∈ roots) :
    Listed w t roots' = Listed w t roots := by
  funext f
  simp only [Listed, h]

theorem Scannable.of_members {roots' : List String} (h : ∀ root, root ∈ roots' ↔ root ∈ roots)
    (hs : Scannable w t b roots) : Scannable w t b roots' where
  usable := hs.usable
  proper := hs.proper
  leads := fun root hroot => hs.leads root ((h root).1 hroot)
  tidy := fun root hroot => hs.tidy root ((h root).1 hroot)
  scans := by
    rw [Listed.of_members h]
    exact hs.scans

variable {options : ScanOptions}

theorem buildIndex_of_scanRoots {elements : List Element}
    (h : scanRoots t roots options = .ok elements) :
    buildIndex t roots options
      = (Element.parseAll elements).mapError .element >>= fun entries => .ok (.ofList entries) := by
  rw [buildIndex, h]
  rfl

/-- A build fails with what reading its elements stops at. -/
theorem buildIndex_eq_error_iff {elements : List Element}
    (h : scanRoots t roots options = .ok elements) {failure : Failure} :
    buildIndex t roots options = .error failure ↔
      ∃ el cause, failure = .element ⟨el, cause⟩ ∧ elements.find? Element.isBroken = some el
        ∧ Tag.parse el.text el.loc = .error cause := by
  rw [buildIndex_of_scanRoots h, bind_eq_error_iff, mapError_eq_error_iff]
  constructor
  · rintro (⟨⟨el, cause⟩, herror, rfl⟩ | ⟨entries, -, hnever⟩)
    · obtain ⟨hfirst, hcause⟩ := Element.parseAll_eq_error_iff.1 herror
      exact ⟨el, cause, rfl, hfirst, hcause⟩
    · cases hnever
  · rintro ⟨el, cause, rfl, hfirst, hcause⟩
    exact .inl ⟨⟨el, cause⟩, Element.parseAll_eq_error_iff.2 ⟨hfirst, hcause⟩, rfl⟩

/-- A build fails exactly if one of its elements is no tag. -/
theorem exists_failure_iff {elements : List Element}
    (h : scanRoots t roots options = .ok elements) :
    (∃ failure, buildIndex t roots options = .error failure) ↔
      ∃ el ∈ elements, ∃ cause, Tag.parse el.text el.loc = .error cause := by
  constructor
  · rintro ⟨failure, hfailure⟩
    obtain ⟨el, cause, -, hfirst, hcause⟩ := (buildIndex_eq_error_iff h).1 hfailure
    exact ⟨el, List.mem_of_find?_eq_some hfirst, cause, hcause⟩
  · rintro ⟨el, hel, hbroken⟩
    have hsome := List.find?_isSome.2 ⟨el, hel, Element.isBroken_iff.2 hbroken⟩
    obtain ⟨el', hfirst⟩ := Option.isSome_iff_exists.1 hsome
    obtain ⟨cause, hcause⟩ := Element.isBroken_iff.1 (List.find?_some hfirst)
    exact ⟨_, (buildIndex_eq_error_iff h).2 ⟨el', cause, rfl, hfirst, hcause⟩⟩

theorem buildIndex_eq_ok_iff {elements : List Element}
    (h : scanRoots t roots options = .ok elements) {index : Index} :
    buildIndex t roots options = .ok index ↔
      ∃ entries, Element.parseAll elements = .ok entries ∧ index = .ofList entries := by
  rw [buildIndex_of_scanRoots h, bind_eq_ok_iff]
  refine exists_congr fun entries => and_congr mapError_eq_ok_iff ?_
  rw [Except.ok.injEq, eq_comm]

/-- Where everything can be scanned, all kept files are. -/
theorem Scannable.exists_scan (hs : Scannable w t options.bracket.orStandard roots)
    (hw : Walker.compile options.ignore = .ok w) :
    ∃ files, Represents w t roots files
      ∧ scanRoots t roots options
        = .ok ((files.flatMap (elementsIn t options.bracket.orStandard)).mergeSort Element.le) := by
  obtain ⟨files, hfiles, hrepresents⟩ := exists_sourceFiles hs.leads
  refine ⟨files, hrepresents, scanRoots_eq_ok_iff.2 ⟨w, files, _, hw, hs.usable, hfiles,
    mapM_scanListed fun f hf => hs.scans f (hrepresents.listed f hf), ?_⟩⟩
  rw [← List.flatMap_def]
  rfl

/-- The elements of the listed files in order, each of them under a name of its file. -/
structure IsScanOf (w : Walker) (t : Tree) (b : Bracket) (roots : List String)
    (elements : List Element) : Prop where
  ordered : elements.Pairwise fun e e' => e.loc.le e'.loc = true
  listed : ∀ e ∈ elements, ∃ f, Listed w t roots f ∧ e ∈ elementsIn t b f
  complete : ∀ f, Listed w t roots f → ∀ e ∈ elementsIn t b f,
    ∃ g, Listed w t roots g ∧ Path.ofString f.path = Path.ofString g.path
      ∧ e.relocate g.display ∈ elements
      ∧ (e.isBroken = true → (e.relocate g.display).isBroken = true)

theorem Represents.isScanOf (hfiles : Represents w t roots files) (hs : Scannable w t b roots) :
    IsScanOf w t b roots ((files.flatMap (elementsIn t b)).mergeSort Element.le) where
  ordered := List.pairwise_mergeSort Element.le_trans Element.le_total _
  listed := by
    intro e he
    obtain ⟨f, hf, he⟩ := List.mem_flatMap.1 (List.mem_mergeSort.1 he)
    exact ⟨f, hfiles.listed f hf, he⟩
  complete := by
    intro f hf e he
    obtain ⟨g, hg, hpath, -, hmem, hbroken⟩ := hfiles.exists_kept hs hf he
    exact ⟨g, hfiles.listed g hg, hpath,
      List.mem_mergeSort.2 (List.mem_flatMap.2 ⟨g, hg, hmem⟩), hbroken⟩

/-- **A build fails exactly with the first failure of the listed files.** -/
theorem Scannable.buildIndex_eq_error_iff (hs : Scannable w t options.bracket.orStandard roots)
    (hw : Walker.compile options.ignore = .ok w) {failure : Failure} :
    buildIndex t roots options = .error failure ↔
      ∃ el cause, failure = .element ⟨el, cause⟩
        ∧ IsFirstFailure t options.bracket.orStandard (Listed w t roots) el cause := by
  obtain ⟨files, hfiles, hscan⟩ := hs.exists_scan hw
  have hstops : ∀ {failure}, buildIndex t roots options = .error failure →
      ∃ el cause, failure = .element ⟨el, cause⟩
        ∧ IsFirstFailure t options.bracket.orStandard (Listed w t roots) el cause := by
    intro failure herror
    obtain ⟨el, cause, rfl, hfirst, hcause⟩ := (CrossTag.buildIndex_eq_error_iff hscan).1 herror
    exact ⟨el, cause, rfl, isFirstFailure_of_find? hs hfiles hcause hfirst⟩
  refine ⟨hstops, ?_⟩
  rintro ⟨el, cause, rfl, hfailure⟩
  -- Something is no tag, so the build fails, and there is only one way for that.
  obtain ⟨f, hf, hel⟩ := hfailure.found
  obtain ⟨g, -, -, hmem, hbroken⟩ := (hfiles.isScanOf hs).complete f hf el hel
  have hcause := Element.isBroken_iff.1 (hbroken (Element.isBroken_iff.2 ⟨cause, hfailure.fails⟩))
  obtain ⟨failure, herror⟩ := (exists_failure_iff hscan).2 ⟨_, hmem, hcause⟩
  obtain ⟨el', cause', rfl, hfailure'⟩ := hstops herror
  obtain ⟨rfl, rfl⟩ := hfailure.unique hs.usable hfailure'
  exact herror

end Builds

/-- **The first failure of a build.** Globs and delimiters are checked before any file is looked at.
If every root leads somewhere, is written without repeated separators, and has only files below it
that can be scanned, then all of their elements are scanned. The build fails exactly if one of them
is no tag, and then with the text, the location and the cause of the first of these in all listed
files, which is the only element at its location where lines and columns can be counted. Otherwise it
answers the index of all elements. A failure does not depend on the order of the roots and on how
often each of them is given. -/
theorem buildIndex_firstFailure (t : Tree) (roots : List String) (options : ScanOptions) :
    (∀ error, Walker.compile options.ignore = .error error →
        buildIndex t roots options = .error (.pattern error))
      ∧ (∀ w, Walker.compile options.ignore = .ok w →
        options.bracket.orStandard.isUsable = false →
          buildIndex t roots options = .error (.config (.bracket options.bracket.orStandard)))
      ∧ ∀ w, Walker.compile options.ignore = .ok w →
        Scannable w t options.bracket.orStandard roots →
          ∃ elements, scanRoots t roots options = .ok elements
            ∧ IsScanOf w t options.bracket.orStandard roots elements
            ∧ ((∃ failure, buildIndex t roots options = .error failure) ↔
                ∃ el ∈ elements, ∃ cause, Tag.parse el.text el.loc = .error cause)
            ∧ (∀ failure, buildIndex t roots options = .error failure ↔
                ∃ el ∈ elements, ∃ cause, failure = .element ⟨el, cause⟩
                  ∧ IsFirstFailure t options.bracket.orStandard (Listed w t roots) el cause
                  ∧ (t.Countable → ∀ e ∈ elements, e.loc = el.loc → e = el))
            ∧ (∀ index, buildIndex t roots options = .ok index ↔
                ∃ entries, Element.parseAll elements = .ok entries ∧ index = .ofList entries)
            ∧ ∀ roots' : List String, (∀ root, root ∈ roots' ↔ root ∈ roots) → ∀ failure,
                buildIndex t roots' options = .error failure ↔
                  buildIndex t roots options = .error failure := by
  refine ⟨?_, ?_, ?_⟩
  · -- a glob that is wrong
    intro error herror
    rw [buildIndex, scanRoots, herror]
    rfl
  · -- delimiters that are wrong
    intro w hw hb
    rw [buildIndex, scanRoots, hw]
    show (options.bracket.orStandard.check.mapError Failure.config >>= _) >>= _ = _
    rw [Bracket.check, hb]
    rfl
  · intro w hw hs
    obtain ⟨files, hfiles, hscan⟩ := hs.exists_scan hw
    have hscanOf := hfiles.isScanOf hs
    refine ⟨_, hscan, hscanOf, exists_failure_iff hscan, fun failure => ⟨?_, ?_⟩,
      fun index => buildIndex_eq_ok_iff hscan, ?_⟩
    · intro herror
      obtain ⟨el, cause, rfl, hfailure⟩ := (hs.buildIndex_eq_error_iff hw).1 herror
      obtain ⟨el', cause', heq, hfirst, -⟩ := (buildIndex_eq_error_iff hscan).1 herror
      cases heq
      refine ⟨el, List.mem_of_find?_eq_some hfirst, cause, rfl, hfailure, fun ht e he hloc => ?_⟩
      obtain ⟨f, hf, he⟩ := hscanOf.listed e he
      exact hfailure.eq_of_loc hs.usable ht hf he hloc
    · rintro ⟨el, -, cause, rfl, hfailure, -⟩
      exact (hs.buildIndex_eq_error_iff hw).2 ⟨el, cause, rfl, hfailure⟩
    · intro roots' hroots failure
      rw [hs.buildIndex_eq_error_iff hw, (hs.of_members hroots).buildIndex_eq_error_iff hw,
        Listed.of_members hroots]

/-- A tag and a text that is none, in one file. -/
def brokenBelow : Tree where
  nodes := [(["sub"], .dir),
    (["sub", "x.rs"], .file (Bytes.ofString "[# meow #]\n[# a b b #]\n"))]

/-- The text that is no tag. -/
def repeatedKey : Element :=
  ⟨"a b b", ⟨"sub/x.rs", 2, 1, 11⟩⟩

/-- The file is listed under two names, which are shown alike. -/
theorem scanFile_brokenBelow {f : SourceFile}
    (h : Listed standardWalker brokenBelow [".", "sub"] f) :
    scanFile brokenBelow {} f = .ok [meowBelow, repeatedKey] := by
  have hhere : standardWalker.walk brokenBelow "."
      = .ok ([.ofPath "./sub/x.rs"].mergeSort SourceFile.le) := by with_unfolding_all rfl
  have hsub : standardWalker.walk brokenBelow "sub"
      = .ok ([.ofPath "sub/x.rs"].mergeSort SourceFile.le) := by with_unfolding_all rfl
  obtain ⟨root, hroot, found, hwalk, hf⟩ := h
  rcases List.mem_pair.1 hroot with rfl | rfl
  · cases hhere.symm.trans hwalk
    rw [List.mem_singleton.1 (List.mem_mergeSort.1 hf)]
    with_unfolding_all rfl
  · cases hsub.symm.trans hwalk
    rw [List.mem_singleton.1 (List.mem_mergeSort.1 hf)]
    with_unfolding_all rfl

theorem scannable_brokenBelow : Scannable standardWalker brokenBelow {} [".", "sub"] where
  usable := by decide
  proper := by decide
  leads := by decide +kernel
  tidy := by decide
  scans := fun _ hf => ⟨_, scanFile_brokenBelow hf⟩

theorem isFirstFailure_brokenBelow :
    IsFirstFailure brokenBelow {} (Listed standardWalker brokenBelow [".", "sub"]) repeatedKey
      (.duplicateAttribute "b" "") where
  fails := by with_unfolding_all rfl
  found := by
    have hwalk : standardWalker.walk brokenBelow "sub"
        = .ok ([.ofPath "sub/x.rs"].mergeSort SourceFile.le) := by with_unfolding_all rfl
    have hlisted : Listed standardWalker brokenBelow [".", "sub"] (.ofPath "sub/x.rs") :=
      ⟨"sub", by simp, _, hwalk, List.mem_mergeSort.2 (List.mem_singleton_self _)⟩
    exact ⟨_, hlisted, by simp [elementsIn_of_scanFile (scanFile_brokenBelow hlisted)]⟩
  least := by
    intro f hf e he hbroken
    rw [elementsIn_of_scanFile (scanFile_brokenBelow hf), List.mem_pair] at he
    rcases he with rfl | rfl
    · have hmeow : meowBelow.isBroken = false := by with_unfolding_all rfl
      rw [hmeow] at hbroken
      cases hbroken
    · exact Location.le_refl _
  first := by
    intro f hf _
    rw [elementsIn_of_scanFile (scanFile_brokenBelow hf)]
    with_unfolding_all rfl

theorem buildIndex_firstFailure_brokenBelow :
    buildIndex brokenBelow ["sub", ".", "sub"] {}
      = .error (.element ⟨repeatedKey, .duplicateAttribute "b" ""⟩) := by
  have hcompile : Walker.compile [] = .ok standardWalker := by with_unfolding_all rfl
  have hfirst := isFirstFailure_brokenBelow
  obtain ⟨-, -, hbuild⟩ := buildIndex_firstFailure brokenBelow [".", "sub"] {}
  obtain ⟨elements, -, hscanOf, hfails, herror, -, horder⟩ :=
    hbuild standardWalker hcompile scannable_brokenBelow
  obtain ⟨f, hf, hel⟩ := hfirst.found
  obtain ⟨g, -, -, hmem, hbroken⟩ := hscanOf.complete f hf repeatedKey hel
  have hcause := Element.isBroken_iff.1 (hbroken (Element.isBroken_iff.2 ⟨_, hfirst.fails⟩))
  obtain ⟨failure, hfailure⟩ := hfails.2 ⟨_, hmem, hcause⟩
  obtain ⟨el, -, cause, rfl, hfirst', -⟩ := (herror failure).1 hfailure
  obtain ⟨rfl, rfl⟩ := hfirst.unique (by decide) hfirst'
  refine (horder ["sub", ".", "sub"] (fun root => ?_) _).2 hfailure
  grind

end CrossTag
