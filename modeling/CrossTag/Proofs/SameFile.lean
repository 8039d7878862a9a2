import Mathlib.Data.List.Chain
import CrossTag.Proofs.Build
import CrossTag.Proofs.Shown
import CrossTag.Proofs.Tag.Placement

/-!
# One file under several names

A file may be listed for several roots, and then it goes by several paths. Two of them can be told
to be names of one file in two ways:

    shown alike       without `./` in front they are the same text        `content_eq_of_display`
    the same path     they have the same parts, steps in place aside      `content_eq_of_path`

The first needs paths that hide no root, as those without repeated separators do not (`IsTidy`): what
is left of `.//x` without `./` in front starts at the root. The second needs nothing but that both lead somewhere, since a step that
stays in place can only fail (`follow_filter`).

Under another name a file holds the same elements at the same lines and columns (`scan_relocate`).
Whether they are tags depends on the name only as far as it is at the top (`exists_entry_congr`), and
either all names of a file with the same path are at the top or none is (`top_iff_of_path`): the one
name of a file at the top can be written with `./` in front of it, which is not shown, and with
nothing behind it, which would make it a directory.
-/

namespace CrossTag

open Outcome

namespace Path

/-! ### Tidy paths -/

/-- A path without repeated separators. -/
def IsTidy (written : String) : Prop :=
  written.toList.IsChain fun c d => ¬ (c = separator ∧ d = separator)

instance (written : String) : Decidable (IsTidy written) :=
  inferInstanceAs (Decidable (written.toList.IsChain fun c d => ¬ (c = separator ∧ d = separator)))

theorem isTidy_of_not_mem {written : String} (h : separator ∉ written.toList) :
    IsTidy written := by
  refine List.Pairwise.isChain (List.pairwise_of_forall_mem_list ?_)
  rintro c hc d - ⟨rfl, -⟩
  exact h hc

/-- A tidy path goes on with a tidy one, if not both have a separator where they meet. -/
theorem IsTidy.append {front back : String} (hfront : IsTidy front) (hback : IsTidy back)
    (h : front.toList.getLast? = some separator → back.toList.head? ≠ some separator) :
    IsTidy (front ++ back) := by
  rw [IsTidy, String.toList_append, List.isChain_append]
  refine ⟨hfront, hback, ?_⟩
  rintro c hc d hd ⟨rfl, rfl⟩
  exact h hc hd

/-- A path that is made up of names does not start with a separator. -/
theorem head?_intercalate {names : List String} (hne : names ≠ [])
    (hnames : ∀ name ∈ names, IsName name) :
    ("/".intercalate names).toList.head? ≠ some separator := by
  obtain ⟨name, names, rfl⟩ := List.exists_cons_of_ne_nil hne
  have hname := hnames name List.mem_cons_self
  have hlist : name.toList ≠ [] := by simpa using hname.ne_empty
  obtain ⟨c, cs, hcs⟩ := List.exists_cons_of_ne_nil hlist
  have hc : c ≠ separator := by
    rintro rfl
    exact hname.no_separator (by simp [hcs])
  by_cases hnil : names = []
  · rw [hnil, String.intercalate_singleton, hcs]
    simpa using hc
  · rw [String.intercalate_cons_of_ne_nil hnil, String.toList_append, String.toList_append, hcs]
    simpa using hc

theorem isTidy_intercalate {names : List String} (hnames : ∀ name ∈ names, IsName name) :
    IsTidy ("/".intercalate names) := by
  induction names with
  | nil => exact isTidy_of_not_mem (by simp)
  | cons name names ih =>
    obtain ⟨hname, hrest⟩ := List.forall_mem_cons.1 hnames
    have htidy := isTidy_of_not_mem hname.no_separator
    by_cases hnil : names = []
    · rw [hnil, String.intercalate_singleton]
      exact htidy
    · rw [String.intercalate_cons_of_ne_nil hnil]
      refine (htidy.append (by decide) ?_).append (ih hrest) fun _ => head?_intercalate hnil hrest
      intro hlast
      exact absurd (List.mem_of_getLast? hlast) hname.no_separator

/-- Names behind a tidy path are written without repeating a separator. -/
theorem IsTidy.join {written : String} (h : IsTidy written) {names : List String}
    (hnames : ∀ name ∈ names, IsName name) : IsTidy (join written names) := by
  have hbelow := isTidy_intercalate hnames
  rw [Path.join]
  split
  · exact h
  · rename_i hne
    have hhead := head?_intercalate (by simpa using hne) hnames
    split
    · exact h.append hbelow fun _ => hhead
    · rename_i hdir
      refine (h.append (by decide) ?_).append hbelow fun _ => hhead
      intro hlast
      rw [Bool.or_eq_true, not_or] at hdir
      exact absurd (by rw [Glob.isDirectory, hlast]; rfl) hdir.2

/-- A tidy path hides no root. -/
theorem IsTidy.not_hidesRoot {written : String} (h : IsTidy written) : ¬ HidesRoot written := by
  rintro ⟨n, rest, hwritten⟩
  rw [IsTidy, hwritten] at h
  exact (List.isChain_append.1 h).2.2 separator (getLast?_dots n) separator rfl ⟨rfl, rfl⟩

theorem pieces_of_not_mem {written : String} (h : separator ∉ written.toList) :
    pieces written = [written] := by
  rw [pieces, components, List.splitOn_eq_singleton h]
  simp

/-- A shown path with a separator starts with a step that leads somewhere, if it does not start at
the root. -/
theorem exists_first_piece {written : String} (h : separator ∈ (display written).toList)
    (hrooted : isRooted (display written) = false) :
    ∃ first after, pieces (display written) = first :: pieces after
      ∧ first ≠ "" ∧ first ≠ here := by
  obtain ⟨before, after, hsplit, hbefore⟩ := List.eq_append_cons_of_mem h
  have hshown : display written = String.ofList before ++ "/" ++ String.ofList after := by
    rw [← String.toList_inj, hsplit]
    simp [separator]
  have hone : pieces (String.ofList before) = [String.ofList before] :=
    pieces_of_not_mem (by simpa using hbefore)
  refine ⟨String.ofList before, String.ofList after, ?_, ?_, ?_⟩
  · rw [hshown, pieces_append_separator, hone]
    rfl
  · intro hempty
    rw [String.ofList_eq_empty_iff] at hempty
    rw [isRooted, hsplit, hempty] at hrooted
    exact absurd hrooted (by simp)
  · intro hhere
    have hdot : before = ['.'] := by
      rw [← String.toList_inj, String.toList_ofList] at hhere
      exact hhere
    rw [display, String.toList_ofList, hdot] at hsplit
    exact dropDots_ne _ _ hsplit

end Path

/-! ### Where paths lead -/

namespace Tree

variable {t : Tree} {place : List String}

/-- Tidy paths that are shown alike lead to the same place. -/
theorem resolve_eq_of_display_eq {a b : String} (ha : Path.IsTidy a) (hb : Path.IsTidy b)
    (hane : a ≠ "") (hbne : b ≠ "") (h : Path.display a = Path.display b) :
    t.resolve a = t.resolve b := by
  rw [resolve_eq_follow_display hane, resolve_eq_follow_display hbne, start, start,
    ← Path.isRooted_display ha.not_hidesRoot, ← Path.isRooted_display hb.not_hidesRoot, h]

/-- Steps that stay in place may be left out of a way that leads somewhere. -/
theorem follow_filter {pieces key : List String} (h : t.follow place pieces = .ok key) :
    t.follow place (pieces.filter fun piece => piece != "" && piece != Path.here) = .ok key := by
  fun_induction t.follow place pieces with
  | case1 place => exact h
  | case2 place piece rest hdir hhere ih =>
    -- The only step that is left out; the way from here is the same.
    have hdrop : (piece != "" && piece != Path.here) = false := by
      rcases hhere with rfl | rfl
      · rfl
      · decide
    rw [List.filter_cons, hdrop]
    exact ih h
  | case3 place rest hdir hhere ih =>
    rw [List.filter_cons, if_pos (by decide), follow, if_pos hdir, if_neg hhere, if_pos rfl]
    exact ih h
  | case4 place piece rest hdir hhere hparent node hnode ih =>
    have hkeep : (piece != "" && piece != Path.here) = true := by
      simpa [not_or] using hhere
    rw [List.filter_cons, if_pos hkeep, follow, if_pos hdir, if_neg hhere, if_neg hparent, hnode]
    exact ih h
  | case5 => cases h
  | case6 => cases h

/-- **A path leads to one place,** however it is written. -/
theorem resolve_unique {a b : String} (h : Path.ofString a = Path.ofString b)
    {key key' : List String} (ha : t.resolve a = .ok key) (hb : t.resolve b = .ok key') :
    key = key' := by
  have hparts : ∀ {written : String} {key : List String}, t.resolve written = .ok key →
      t.follow (if (Path.ofString written).rooted then [] else t.current)
        (Path.ofString written).parts = .ok key := by
    intro written key hkey
    rw [resolve, if_neg (by simpa using ne_empty_of_resolve hkey)] at hkey
    exact follow_filter hkey
  have ha := hparts ha
  rw [h, hparts hb] at ha
  exact (Except.ok.inj ha).symm

/-- Steps that stay in place are made in a directory only. -/
theorem isDirAt_of_follow_here {pieces key : List String} (hne : pieces ≠ [])
    (hhere : pieces.filter (fun piece => piece != "" && piece != Path.here) = [])
    (h : t.follow place pieces = .ok key) : t.isDirAt key = true := by
  have hkey := follow_filter h
  rw [hhere, follow] at hkey
  cases hkey
  obtain ⟨piece, rest, rfl⟩ := List.exists_cons_of_ne_nil hne
  rw [follow] at h
  split at h
  · assumption
  · cases h

/-- A file stands at the top exactly if its path is one name. -/
theorem separator_not_mem_display_iff {written : String} (h : Path.IsTidy written) {data : Bytes}
    (hdata : t.contentOf written = .ok data) :
    separator ∉ (Path.display written).toList ↔
      (Path.ofString written).rooted = false ∧ (Path.ofString written).parts.length ≤ 1 := by
  obtain ⟨key, hkey, hnode⟩ := contentOf_eq_ok_iff.1 hdata
  have hrooted : (Path.ofString written).rooted = Path.isRooted (Path.display written) :=
    (Path.isRooted_display h.not_hidesRoot).symm
  have hparts := Path.parts_display written
  constructor
  · intro hnot
    refine ⟨?_, ?_⟩
    · rw [hrooted, Path.isRooted]
      cases hhead : (Path.display written).toList.head? with
      | none => rfl
      | some c =>
        have hc : c ≠ separator := by
          rintro rfl
          exact hnot (List.mem_of_head? hhead)
        simpa using hc
    · rw [← hparts, Path.ofString, Path.pieces_of_not_mem hnot]
      exact List.length_filter_le (fun piece => piece != "" && piece != Path.here)
        [Path.display written]
  · rintro ⟨hnot, hlength⟩ hmem
    rw [hrooted] at hnot
    obtain ⟨first, after, hpieces, hempty, hhere⟩ := Path.exists_first_piece hmem hnot
    -- Nothing but steps that stay in place comes after the name, so it is that of a directory.
    have hafter : (Path.pieces after).filter (fun piece => piece != "" && piece != Path.here)
        = [] := by
      rw [← hparts, Path.ofString, hpieces] at hlength
      simpa [List.filter_cons, hempty, hhere] using hlength
    rw [resolve_eq_follow_display (ne_empty_of_resolve hkey), hpieces, ← List.singleton_append,
      follow_append] at hkey
    obtain ⟨mid, -, hmid⟩ := bind_eq_ok_iff.1 hkey
    have hdir := isDirAt_of_follow_here (Path.pieces_ne_nil after) hafter hmid
    rw [isDirAt_of_file hnode] at hdir
    cases hdir

end Tree

/-! ### What is found in a file -/

/-- The same element in a file that goes by another path. -/
def Element.relocate (path : String) (e : Element) : Element :=
  { e with loc := { e.loc with path := path } }

@[simp] theorem Element.text_relocate (path : String) (e : Element) :
    (e.relocate path).text = e.text := rfl

namespace Scan

variable {b : Bracket} {path : String}

/-- Pragmas are carried out alike wherever they stand. -/
theorem applyPragmas_relocate (path' : String) {stopped : Bool} {found : List (Nat × Element)}
    {elements : List Element} (h : applyPragmas path stopped found = .ok elements) :
    applyPragmas path' stopped (found.map fun p => (p.1, p.2.relocate path'))
      = .ok (elements.map (·.relocate path')) := by
  fun_induction applyPragmas path stopped found generalizing elements with
  | case1 =>
    cases h
    rfl
  | case2 stopped line e rest tail _ hend =>
    cases h
    simp [applyPragmas, hend]
  | case3 => cases h
  | case4 stopped line e rest tail _ _ hstop hgo ih =>
    simpa [applyPragmas, hstop, ih h] using hgo
  | case5 line e rest tail _ _ _ hcont ih => simp [applyPragmas, hcont, ih h]
  | case6 => cases h
  | case7 => cases h
  | case8 line e rest _ ih => simp [applyPragmas, ih h]
  | case9 stopped line e rest hgo _ ih =>
    obtain ⟨others, hrest, rfl⟩ := map_eq_ok_iff.1 h
    obtain rfl : stopped = false := by simpa using hgo
    simp [applyPragmas, ih hrest, Except.map]

/-- The same bytes hold the same elements, under the path of each file. -/
theorem scan_relocate (path' : String) {data : Bytes} {elements : List Element}
    (h : scan b path data = .ok elements) :
    scan b path' data = .ok (elements.map (·.relocate path')) := by
  rw [scan_eq] at h ⊢
  have hmoved := applyPragmas_relocate path' h
  rw [List.map_map] at hmoved
  exact hmoved

end Scan

section OneFile

variable {t : Tree} {b : Bracket} {f g : SourceFile} {elements : List Element}

theorem elementsIn_of_scanFile (h : scanFile t b f = .ok elements) :
    elementsIn t b f = elements := by
  rw [elementsIn, scanListed, h]

/-- A file holds the same elements under each of its paths. -/
theorem elementsIn_relocate (hcontent : t.contentOf f.path = t.contentOf g.path)
    (h : scanFile t b f = .ok elements) :
    elementsIn t b g = (elementsIn t b f).map (·.relocate g.display) := by
  rw [elementsIn_of_scanFile h]
  refine elementsIn_of_scanFile ?_
  rw [scanFile] at h
  obtain ⟨data, hdata, h⟩ := bind_eq_ok_iff.1 h
  refine bind_eq_ok_iff.2 ⟨data, hcontent ▸ hdata, ?_⟩
  split at h
  · rename_i hbinary
    cases h
    rw [if_pos hbinary]
    rfl
  · rename_i hbinary
    obtain ⟨hb, hscan⟩ := Scan.scan_of_scanText h
    rw [if_neg hbinary, Scan.scanText_eq_scan hb]
    exact mapError_eq_ok_iff.2 (Scan.scan_relocate g.display hscan)

end OneFile

/-! ### Where a text is a tag -/

namespace Tag

/-- Whether a sentence fits depends on the place only as far as it is at the top. -/
theorem Sentence.Fits.elsewhere {s : Sentence} {path path' : String} (h : s.Fits path)
    (htop : separator ∉ path.toList → separator ∉ path'.toList) : s.Fits path' where
  settable :=
    { keys := h.settable.keys
      kinds := h.settable.kinds
      once := h.settable.once.imp fun hpq heq => ⟨(hpq heq).1, htop (hpq heq).2⟩ }
  named := h.named

theorem exists_entry_congr {text : String} {loc loc' : Location}
    (h : separator ∉ loc.path.toList ↔ separator ∉ loc'.path.toList) :
    (∃ e, parse text loc = .ok e) ↔ ∃ e, parse text loc' = .ok e := by
  rw [exists_entry_iff_fits, exists_entry_iff_fits]
  exact exists_congr fun s => and_congr_right fun _ =>
    ⟨fun hfits => hfits.elsewhere h.1, fun hfits => hfits.elsewhere h.2⟩

end Tag

/-- An element that is no tag. -/
def Element.isBroken (e : Element) : Bool :=
  !(Tag.parse e.text e.loc).isOk

namespace Element

variable {e : Element}

theorem isBroken_iff :
    e.isBroken = true ↔ ∃ cause, Tag.parse e.text e.loc = .error cause := by
  rw [isBroken]
  cases Tag.parse e.text e.loc with
  | error cause => simp [Except.isOk, Except.toBool]
  | ok entry => simp [Except.isOk, Except.toBool]

theorem isBroken_iff_not_exists :
    e.isBroken = true ↔ ¬ ∃ entry, Tag.parse e.text e.loc = .ok entry := by
  rw [isBroken]
  cases Tag.parse e.text e.loc with
  | error cause => simp [Except.isOk, Except.toBool]
  | ok entry => simp [Except.isOk, Except.toBool]

/-- An element is a tag under all names of its file or under none of them. -/
theorem isBroken_relocate {path : String}
    (h : separator ∉ e.loc.path.toList ↔ separator ∉ path.toList) (hbroken : e.isBroken = true) :
    (e.relocate path).isBroken = true := by
  rw [isBroken_iff_not_exists] at hbroken ⊢
  exact fun hentry => hbroken ((Tag.exists_entry_congr h).2 hentry)

end Element

/-! ### Files that are listed -/

/-- A file that is listed for one of the roots. -/
def Listed (w : Walker) (t : Tree) (roots : List String) (f : SourceFile) : Prop :=
  ∃ root ∈ roots, ∃ found, w.walk t root = .ok found ∧ f ∈ found

/-- A file with a path that leads to it and is written without repeated separators. -/
structure SourceFile.Sound (t : Tree) (f : SourceFile) : Prop where
  shown : f.display = Path.display f.path
  tidy : Path.IsTidy f.path
  content : ∃ data, t.contentOf f.path = .ok data

theorem Listed.sound {w : Walker} {t : Tree} (ht : t.Proper) {roots : List String}
    (htidy : ∀ root ∈ roots, Path.IsTidy root) {f : SourceFile} (h : Listed w t roots f) :
    f.Sound t := by
  obtain ⟨root, hroot, found, hwalk, hf⟩ := h
  obtain ⟨base, names, hbase, rfl, hfinds⟩ := Walker.exists_of_mem_walk hwalk hf
  obtain ⟨hresolve, data, hnode⟩ := Walker.resolve_listed ht hbase hfinds
  refine ⟨rfl, (htidy root hroot).join fun name hname => ?_,
    data, Tree.contentOf_eq_ok_iff.2 ⟨_, hresolve, hnode⟩⟩
  exact ht.name_of_node? hnode (List.mem_append_right _ hname)

namespace SourceFile.Sound

variable {t : Tree} {b : Bracket} {f g : SourceFile}

theorem content_eq_of_display (hf : f.Sound t) (hg : g.Sound t) (h : f.display = g.display) :
    t.contentOf f.path = t.contentOf g.path := by
  have hne : ∀ {k : SourceFile}, k.Sound t → k.path ≠ "" := by
    intro k hk
    obtain ⟨data, hdata⟩ := hk.content
    obtain ⟨key, hkey, -⟩ := Tree.contentOf_eq_ok_iff.1 hdata
    exact Tree.ne_empty_of_resolve hkey
  have hshown : Path.display f.path = Path.display g.path := by rw [← hf.shown, h, hg.shown]
  rw [Tree.contentOf, Tree.contentOf,
    Tree.resolve_eq_of_display_eq hf.tidy hg.tidy (hne hf) (hne hg) hshown]

theorem content_eq_of_path (hf : f.Sound t) (hg : g.Sound t)
    (h : Path.ofString f.path = Path.ofString g.path) :
    t.contentOf f.path = t.contentOf g.path := by
  obtain ⟨data, hdata⟩ := hf.content
  obtain ⟨data', hdata'⟩ := hg.content
  obtain ⟨key, hkey, hnode⟩ := Tree.contentOf_eq_ok_iff.1 hdata
  obtain ⟨key', hkey', hnode'⟩ := Tree.contentOf_eq_ok_iff.1 hdata'
  obtain rfl := Tree.resolve_unique h hkey hkey'
  rw [hnode] at hnode'
  cases hnode'
  rw [hdata, hdata']

/-- All names of a file are at the top or none of them is. -/
theorem top_iff_of_path (hf : f.Sound t) (hg : g.Sound t)
    (h : Path.ofString f.path = Path.ofString g.path) :
    separator ∉ f.display.toList ↔ separator ∉ g.display.toList := by
  obtain ⟨data, hdata⟩ := hf.content
  obtain ⟨data', hdata'⟩ := hg.content
  rw [hf.shown, hg.shown, Tree.separator_not_mem_display_iff hf.tidy hdata,
    Tree.separator_not_mem_display_iff hg.tidy hdata', h]

/-- **A file that is shown in one way holds the same elements** under each of its paths. -/
theorem elementsIn_eq_of_display (hf : f.Sound t) (hg : g.Sound t) (h : f.display = g.display) :
    elementsIn t b f = elementsIn t b g := by
  have hscan : scanFile t b f = scanFile t b g := by
    rw [scanFile, scanFile, hf.content_eq_of_display hg h, h]
  rw [elementsIn, elementsIn, scanListed, scanListed, hscan]

/-- **A file that is written in several ways** holds the same elements at the same lines and columns,
and what is no tag under one of its names is none under another. -/
theorem exists_relocated (hf : f.Sound t) (hg : g.Sound t) (hb : b.isUsable = true)
    (h : Path.ofString f.path = Path.ofString g.path) {elements : List Element}
    (hscan : scanFile t b f = .ok elements) {e : Element} (he : e ∈ elementsIn t b f) :
    e.relocate g.display ∈ elementsIn t b g
      ∧ (e.isBroken = true → (e.relocate g.display).isBroken = true) := by
  rw [elementsIn_relocate (hf.content_eq_of_path hg h) hscan]
  refine ⟨List.mem_map_of_mem he, Element.isBroken_relocate ?_⟩
  rw [path_of_mem_elementsIn hb he]
  exact hf.top_iff_of_path hg h

end SourceFile.Sound

end CrossTag
