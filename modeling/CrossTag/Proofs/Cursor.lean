import CrossTag.Proofs.Columns
import Mathlib.Data.List.Pairwise

/-!
# The tag under a cursor

A cursor is a range of columns on a line of a file, most often one column wide. The tag under it
is the element of the file whose columns take in those of the cursor. On one line the elements lie
apart from each other,

    bytes            [ # a # ] [ # b # ]
    columns of a     1 . . . 5
    columns of b               6 . . . 10

each of them starting behind the end of the one before (`Scan.Countable.scan_separated`), so no two
of them cover one cursor, however narrow it is (`Element.not_covers_both`). A cursor is thus in one
tag or in none, whatever the file holds (`elementAt_unambiguous`).

The columns of a tag start with the one of its first byte, counted from one. They end with the
number of its last byte, where a range that leaves out its end would have to end one behind it. The
cursor at the last byte reaches up to there, so it is the only one on the tag that finds no tag
(`elementAt_columns`).
-/

namespace CrossTag

open Outcome

/-! ### Covering a cursor -/

namespace Element

/-- An element covers a cursor if it is on the same line and its columns take in those of the
cursor. -/
def Covers (e : Element) (cursor : Location) : Prop :=
  e.loc.line = cursor.line ∧ e.loc.startColumn ≤ cursor.startColumn
    ∧ cursor.endColumn ≤ e.loc.endColumn

instance (e : Element) (cursor : Location) : Decidable (e.Covers cursor) :=
  inferInstanceAs (Decidable (_ ∧ _ ∧ _))

/-- The one among some elements that covers a cursor. -/
def IsOnlyAt (el : Element) (cursor : Location) (elements : List Element) : Prop :=
  ∃ before after, elements = before ++ el :: after ∧ el.Covers cursor
    ∧ ∀ e ∈ before ++ after, ¬ e.Covers cursor

variable {e e' el : Element} {cursor : Location} {elements : List Element}

theorem contains_iff_covers (hpath : e.loc.path = cursor.path) :
    e.loc.contains cursor = true ↔ e.Covers cursor := by
  simp [Location.contains, Covers, hpath, and_assoc]

/-- No cursor is covered by two elements that lie apart on their line. -/
theorem not_covers_both (hcursor : cursor.startColumn ≤ cursor.endColumn)
    (hapart : e.loc.line = e'.loc.line → e.loc.endColumn < e'.loc.startColumn)
    (he : e.Covers cursor) : ¬ e'.Covers cursor := by
  intro he'
  have hlt : e.loc.endColumn < e'.loc.startColumn := hapart (he.1.trans he'.1.symm)
  have hstop := he.2.2
  have hstart := he'.2.1
  rw [UInt32.lt_iff_toNat_lt] at hlt
  rw [UInt32.le_iff_toNat_le] at hcursor hstop hstart
  omega

theorem IsOnlyAt.mem (h : el.IsOnlyAt cursor elements) : el ∈ elements := by
  obtain ⟨before, after, rfl, -⟩ := h
  exact List.mem_append_right _ List.mem_cons_self

theorem IsOnlyAt.covers (h : el.IsOnlyAt cursor elements) : el.Covers cursor := by
  obtain ⟨before, after, -, hcovers, -⟩ := h
  exact hcovers

theorem IsOnlyAt.eq (h : el.IsOnlyAt cursor elements) (he : e ∈ elements)
    (hcovers : e.Covers cursor) : e = el := by
  obtain ⟨before, after, rfl, -, hnone⟩ := h
  rw [List.mem_append, List.mem_cons, or_left_comm, ← List.mem_append] at he
  rcases he with heq | hother
  · exact heq
  · exact absurd hcovers (hnone e hother)

/-- Of elements that lie apart, one covers a cursor or none does. -/
theorem exists_isOnlyAt_or (hcursor : cursor.startColumn ≤ cursor.endColumn)
    (hapart : elements.Pairwise fun e e' =>
      e.loc.line = e'.loc.line → e.loc.endColumn < e'.loc.startColumn) :
    (∃ el : Element, el.IsOnlyAt cursor elements) ∨ ∀ e ∈ elements, ¬ e.Covers cursor := by
  induction elements with
  | nil => exact .inr (by simp)
  | cons e elements ih =>
    obtain ⟨hhead, htail⟩ := List.pairwise_cons.1 hapart
    by_cases he : e.Covers cursor
    · -- The first element covers the cursor, so no later one does.
      refine .inl ⟨e, [], elements, rfl, he, ?_⟩
      intro e' he'
      exact not_covers_both hcursor (hhead e' he') he
    · rcases ih htail with ⟨el, before, after, rfl, hel, hothers⟩ | hnone
      · refine .inl ⟨el, e :: before, after, rfl, hel, ?_⟩
        rw [List.cons_append, List.forall_mem_cons]
        exact ⟨he, hothers⟩
      · exact .inr (List.forall_mem_cons.2 ⟨he, hnone⟩)

/-- The column in which an element ends is in no element: the next one starts behind it. -/
theorem not_covers_end (hapart : elements.Pairwise fun e e' =>
      e.loc.line = e'.loc.line → e.loc.endColumn < e'.loc.startColumn)
    (hel : el ∈ elements) (hrange : el.loc.startColumn ≤ el.loc.endColumn)
    (hline : cursor.line = el.loc.line) (hstart : cursor.startColumn = el.loc.endColumn)
    (hwide : cursor.startColumn < cursor.endColumn) (he : e ∈ elements) : ¬ e.Covers cursor := by
  intro hcovers
  -- Both elements cover the empty range in front of the cursor, so they are the same.
  let edge : Location := { cursor with endColumn := cursor.startColumn }
  have hedge : e.Covers edge :=
    ⟨hcovers.1, hcovers.2.1, UInt32.le_trans (UInt32.le_of_lt hwide) hcovers.2.2⟩
  have hedge' : el.Covers edge :=
    ⟨hline.symm, hstart ▸ hrange, hstart ▸ UInt32.le_refl _⟩
  have heq : e = el := by
    have hempty : edge.startColumn ≤ edge.endColumn := UInt32.le_refl _
    rcases exists_isOnlyAt_or hempty hapart with ⟨only, honly⟩ | hnone
    · rw [honly.eq he hedge, honly.eq hel hedge']
    · exact absurd hedge (hnone e he)
  rw [heq] at hcovers
  rw [hstart] at hwide
  exact UInt32.not_le.2 hwide hcovers.2.2

end Element

/-! ### The elements of a file -/

section File

variable {t : Tree} {b : Bracket} {file : SourceFile} {elements : List Element}

theorem path_of_mem_scanFile (h : scanFile t b file = .ok elements) {e : Element}
    (he : e ∈ elements) : e.loc.path = file.display := by
  obtain ⟨-, data, -, hscan⟩ := Scan.scan_of_scanFile h (List.ne_nil_of_mem he)
  exact Scan.path_of_mem_scan hscan he

/-- A scan fails for reasons of its own. -/
theorem ne_resolve_of_scanFile {failure : Failure} (h : scanFile t b file = .error failure)
    (error : ResolveError) : failure ≠ .resolve error := by
  rintro rfl
  rw [scanFile] at h
  rcases bind_eq_error_iff.1 h with hread | ⟨data, -, h⟩
  · obtain ⟨fault, -, hnever⟩ := mapError_eq_error_iff.1 hread
    cases hnever
  · split at h
    · cases h
    · rw [scanText] at h
      rcases bind_eq_error_iff.1 h with hcheck | ⟨-, -, hpragma⟩
      · obtain ⟨fault, -, hnever⟩ := mapError_eq_error_iff.1 hcheck
        cases hnever
      · obtain ⟨fault, -, hnever⟩ := mapError_eq_error_iff.1 hpragma
        cases hnever

/-- The elements of a file lie apart, whatever the delimiters are. -/
theorem scanFile_separated
    (hdata : ∀ data, t.contentOf file.path = .ok data → Scan.Countable data)
    (h : scanFile t b file = .ok elements) :
    elements.Pairwise fun e e' =>
      e.loc.line = e'.loc.line → e.loc.endColumn < e'.loc.startColumn := by
  by_cases hne : elements = []
  · rw [hne]
    exact .nil
  · obtain ⟨hb, data, hcontent, hscan⟩ := Scan.scan_of_scanFile h hne
    exact (hdata data hcontent).scan_separated hb hscan

end File

/-! ### The element at a cursor -/

section Cursor

variable {t : Tree} {b : Bracket} {cursor : Location} {elements : List Element}

theorem elementAt_of_error {failure : Failure}
    (h : scanFile t b ⟨cursor.path, cursor.path⟩ = .error failure) :
    elementAt t b cursor = .error failure := by
  rw [elementAt, h]
  rfl

theorem elementAt_of_ok (h : scanFile t b ⟨cursor.path, cursor.path⟩ = .ok elements) :
    elementAt t b cursor = match elements.filter (·.loc.contains cursor) with
      | [] => .error (.resolve (.noTagAt cursor))
      | [e] => .ok e
      | _ => .error (.resolve (.ambiguous cursor)) := by
  rw [elementAt, h]
  show (match elements.filter (·.loc.contains cursor) with
    | [] => throw (.resolve (.noTagAt cursor))
    | [e] => return e
    | _ => throw (.resolve (.ambiguous cursor)) : Except Failure Element) = _
  split <;> rfl

/-- If one element covers the cursor, it is found. -/
theorem elementAt_of_isOnlyAt (h : scanFile t b ⟨cursor.path, cursor.path⟩ = .ok elements)
    {el : Element} (hel : el.IsOnlyAt cursor elements) : elementAt t b cursor = .ok el := by
  have hpath : ∀ e ∈ elements, e.loc.path = cursor.path := fun e he => path_of_mem_scanFile h he
  obtain ⟨before, after, heq, hcovers, hothers⟩ := id hel
  have hhit : el.loc.contains cursor = true :=
    (Element.contains_iff_covers (hpath el hel.mem)).2 hcovers
  have hmiss : ∀ e ∈ before ++ after, ¬ e.loc.contains cursor = true := by
    intro e he
    have hmem : e ∈ elements := by
      rw [heq, List.mem_append, List.mem_cons, or_left_comm, ← List.mem_append]
      exact .inr he
    rw [Element.contains_iff_covers (hpath e hmem)]
    exact hothers e he
  rw [List.forall_mem_append] at hmiss
  have hfilter : elements.filter (·.loc.contains cursor) = [el] := by
    rw [heq, List.filter_append, List.filter_eq_nil_iff.2 hmiss.1, List.nil_append]
    exact List.filter_eq_cons_iff.2
      ⟨[], after, rfl, by simp, hhit, List.filter_eq_nil_iff.2 hmiss.2⟩
  rw [elementAt_of_ok h, hfilter]

/-- If no element covers the cursor, there is no tag. -/
theorem elementAt_of_none (h : scanFile t b ⟨cursor.path, cursor.path⟩ = .ok elements)
    (hnone : ∀ e ∈ elements, ¬ e.Covers cursor) :
    elementAt t b cursor = .error (.resolve (.noTagAt cursor)) := by
  have hmiss : ∀ e ∈ elements, ¬ e.loc.contains cursor = true := by
    intro e he
    rw [Element.contains_iff_covers (path_of_mem_scanFile h he)]
    exact hnone e he
  rw [elementAt_of_ok h, List.filter_eq_nil_iff.2 hmiss]

section Countable

variable (hdata : ∀ data, t.contentOf cursor.path = .ok data → Scan.Countable data)
  (hcursor : cursor.startColumn ≤ cursor.endColumn)

include hdata hcursor

/-- A file that can be scanned has one element at a cursor, which is found, or none. -/
theorem elementAt_cases (h : scanFile t b ⟨cursor.path, cursor.path⟩ = .ok elements) :
    (∃ el : Element, el.IsOnlyAt cursor elements ∧ elementAt t b cursor = .ok el)
      ∨ (∀ e ∈ elements, ¬ e.Covers cursor)
        ∧ elementAt t b cursor = .error (.resolve (.noTagAt cursor)) := by
  rcases Element.exists_isOnlyAt_or hcursor (scanFile_separated hdata h) with ⟨el, hel⟩ | hnone
  · exact .inl ⟨el, hel, elementAt_of_isOnlyAt h hel⟩
  · exact .inr ⟨hnone, elementAt_of_none h hnone⟩

theorem elementAt_eq_ok_iff {el : Element} :
    elementAt t b cursor = .ok el
      ↔ ∃ elements, scanFile t b ⟨cursor.path, cursor.path⟩ = .ok elements
          ∧ el.IsOnlyAt cursor elements := by
  constructor
  · intro h
    obtain ⟨elements, hscan, -⟩ := bind_eq_ok_iff.1 h
    rcases elementAt_cases hdata hcursor hscan with ⟨el', hel', hfound⟩ | ⟨-, hmissed⟩
    · rw [hfound] at h
      cases h
      exact ⟨elements, hscan, hel'⟩
    · rw [hmissed] at h
      cases h
  · rintro ⟨elements, hscan, hel⟩
    exact elementAt_of_isOnlyAt hscan hel

theorem elementAt_eq_ok_iff_covers
    (h : scanFile t b ⟨cursor.path, cursor.path⟩ = .ok elements) {el : Element}
    (hel : el ∈ elements) : elementAt t b cursor = .ok el ↔ el.Covers cursor := by
  rcases elementAt_cases hdata hcursor h with ⟨el', hel', hfound⟩ | ⟨hnone, hmissed⟩
  · rw [hfound]
    constructor
    · rintro ⟨⟩
      exact hel'.covers
    · intro hcovers
      rw [hel'.eq hel hcovers]
  · rw [hmissed]
    constructor
    · rintro ⟨⟩
    · intro hcovers
      exact absurd hcovers (hnone el hel)

/-- The only thing that can go wrong in a file that can be scanned is that there is no tag. -/
theorem elementAt_eq_resolve_iff {error : ResolveError} :
    elementAt t b cursor = .error (.resolve error)
      ↔ error = .noTagAt cursor ∧ ∃ elements,
          scanFile t b ⟨cursor.path, cursor.path⟩ = .ok elements
            ∧ ∀ e ∈ elements, ¬ e.Covers cursor := by
  constructor
  · intro h
    rcases bind_eq_error_iff.1 h with hfailed | ⟨elements, hscan, -⟩
    · exact absurd rfl (ne_resolve_of_scanFile hfailed error)
    · rcases elementAt_cases hdata hcursor hscan with ⟨el, -, hfound⟩ | ⟨hnone, hmissed⟩
      · rw [hfound] at h
        cases h
      · rw [hmissed] at h
        cases h
        exact ⟨rfl, elements, hscan, hnone⟩
  · rintro ⟨rfl, elements, hscan, hnone⟩
    exact elementAt_of_none hscan hnone

end Countable

/-- **A cursor is never in two tags.** The tag at a cursor is the one element of its file that
covers the cursor. There is no tag exactly if the file can be scanned and none of its elements
covers the cursor; and if the file cannot be scanned, the failure is the one of the scan. -/
theorem elementAt_unambiguous
    (hdata : ∀ data, t.contentOf cursor.path = .ok data → Scan.Countable data)
    (hcursor : cursor.startColumn ≤ cursor.endColumn) (b : Bracket) :
    let scanned := scanFile t b ⟨cursor.path, cursor.path⟩
    (∀ loc, elementAt t b cursor ≠ .error (.resolve (.ambiguous loc)))
      ∧ (∀ el, elementAt t b cursor = .ok el
          ↔ ∃ elements, scanned = .ok elements ∧ el.IsOnlyAt cursor elements)
      ∧ (∀ loc, elementAt t b cursor = .error (.resolve (.noTagAt loc))
          ↔ loc = cursor ∧ ∃ elements, scanned = .ok elements ∧ ∀ e ∈ elements, ¬ e.Covers cursor)
      ∧ ∀ failure, scanned = .error failure → elementAt t b cursor = .error failure := by
  refine ⟨?_, ?_, ?_, ?_⟩
  · intro loc hambiguous
    obtain ⟨hnever, -⟩ := (elementAt_eq_resolve_iff hdata hcursor).1 hambiguous
    cases hnever
  · intro el
    exact elementAt_eq_ok_iff hdata hcursor
  · intro loc
    rw [elementAt_eq_resolve_iff hdata hcursor, ResolveError.noTagAt.injEq]
  · intro failure hfailed
    exact elementAt_of_error hfailed

end Cursor

/-- Two tags with nothing between them. -/
def adjacentTags : Tree :=
  ⟨[(["f"], .file (.ofString "[#a#][#b#]"))], []⟩

theorem contentOf_adjacentTags : adjacentTags.contentOf "f" = .ok (.ofString "[#a#][#b#]") := by
  with_unfolding_all rfl

theorem adjacentTags_countable {data : Bytes} (h : adjacentTags.contentOf "f" = .ok data) :
    Scan.Countable data := by
  rw [contentOf_adjacentTags] at h
  cases h
  exact Scan.countable_ofString (by decide +kernel) (by decide +kernel)

theorem scanFile_adjacentTags :
    scanFile adjacentTags .standard ⟨"f", "f"⟩
      = .ok [⟨"a", ⟨"f", 1, 1, 5⟩⟩, ⟨"b", ⟨"f", 1, 6, 10⟩⟩] := by
  with_unfolding_all rfl

theorem elementAt_unambiguous_adjacentTags :
    Location.parse "f:1.6" = .ok ⟨"f", 1, 6, 7⟩
      ∧ (∀ loc, elementAt adjacentTags .standard ⟨"f", 1, 6, 7⟩
          ≠ .error (.resolve (.ambiguous loc)))
      ∧ elementAt adjacentTags .standard ⟨"f", 1, 6, 7⟩ = .ok ⟨"b", ⟨"f", 1, 6, 10⟩⟩
      ∧ elementAt adjacentTags .standard ⟨"f", 1, 5, 7⟩
          = .error (.resolve (.noTagAt ⟨"f", 1, 5, 7⟩)) := by
  obtain ⟨hnever, hfound, -, -⟩ := @elementAt_unambiguous adjacentTags ⟨"f", 1, 6, 7⟩
    (fun _ => adjacentTags_countable) (by decide) .standard
  obtain ⟨-, -, hnone, -⟩ := @elementAt_unambiguous adjacentTags ⟨"f", 1, 5, 7⟩
    (fun _ => adjacentTags_countable) (by decide) .standard
  refine ⟨by with_unfolding_all rfl, hnever, ?_, ?_⟩
  · refine (hfound _).2 ⟨_, scanFile_adjacentTags, [_], [], rfl, by decide, by decide⟩
  · exact (hnone _).2 ⟨rfl, _, scanFile_adjacentTags, by decide⟩

/-! ### The columns of a tag -/

namespace Scan

/-- The bytes that an element takes up on its line of a text, from `start` up to `stop`: those of
the bracket that starts where the element does. -/
structure Occupies (b : Bracket) (content : String) (el : Element) (start stop : Nat) : Prop where
  bracket : ∃ line found inner, (textLines content.toList)[el.loc.line.toNat - 1]? = some line
    ∧ Brackets b.left.toList b.right.toList [] line found ∧ ⟨start, stop, inner⟩ ∈ found
  startColumn_eq : el.loc.startColumn.toNat = start + 1

/-- No two brackets of a line start at the same place. -/
theorem Brackets.eq_of_start_eq {left right front cs : List Char} {found : List Match}
    (h : Brackets left right front cs found) {m m' : Match} (hm : m ∈ found) (hm' : m' ∈ found)
    (hstart : m.start = m'.start) : m = m' := by
  have hsymm : Std.Symm fun m m' : Match => m.stop ≤ m'.start ∨ m'.stop ≤ m.start :=
    ⟨fun _ _ => Or.symm⟩
  have hapart : found.Pairwise fun m m' => m.stop ≤ m'.start ∨ m'.stop ≤ m.start :=
    h.separated.imp .inl
  by_contra hne
  have hbounds := h.bounds m hm
  have hbounds' := h.bounds m' hm'
  rcases hapart.forall hm hm' hne with hle | hle
  · omega
  · omega

section Text

variable {b : Bracket} {content path : String} {elements : List Element} {el : Element}
  {start stop : Nat}

theorem Occupies.stop_eq {stop' : Nat} (h : Occupies b content el start stop)
    (h' : Occupies b content el start stop') : stop = stop' := by
  obtain ⟨line, found, inner, hline, hfound, hmem⟩ := h.bracket
  obtain ⟨line', found', inner', hline', hfound', hmem'⟩ := h'.bracket
  rw [hline] at hline'
  cases hline'
  rw [brackets_iff] at hfound'
  rw [← hfound', brackets_iff.1 hfound] at hmem'
  exact congrArg Match.stop (hfound.eq_of_start_eq hmem hmem' rfl)

/-- Every element takes up bytes of its line, and ends where they do. -/
theorem exists_occupies (hdata : Countable (Bytes.ofString content)) (hb : b.isUsable = true)
    (h : scan b path (Bytes.ofString content) = .ok elements) (hel : el ∈ elements) :
    ∃ start stop, Occupies b content el start stop ∧ el.loc.endColumn.toNat = stop := by
  obtain ⟨p, hp, rfl⟩ := List.mem_map.1 ((sublist_of_scan h).mem hel)
  have hfits := hdata.fits hb hp
  obtain ⟨ms, hms, hm⟩ := getElem?_of_mem_numbered hp
  rw [foundIn_ofString, List.getElem?_map] at hms
  obtain ⟨line, hline, rfl⟩ := Option.map_eq_some_iff.1 hms
  refine ⟨p.2.start, p.2.stop, ⟨⟨line, _, p.2.inner, ?_, brackets_iff.2 rfl, hm⟩, ?_⟩, ?_⟩
  · rw [hfits.line_eq]
    exact hline
  · exact hfits.startColumn_eq path
  · exact hfits.endColumn_eq path

theorem Occupies.endColumn_eq (hdata : Countable (Bytes.ofString content)) (hb : b.isUsable = true)
    (h : scan b path (Bytes.ofString content) = .ok elements) (hel : el ∈ elements)
    (hplace : Occupies b content el start stop) : el.loc.endColumn.toNat = stop := by
  obtain ⟨start', stop', hplace', hend⟩ := exists_occupies hdata hb h hel
  have hstart : start' = start := by
    have heq := hplace'.startColumn_eq
    rw [hplace.startColumn_eq] at heq
    omega
  subst hstart
  rw [hend, hplace'.stop_eq hplace]

end Text

end Scan

/-- **Every column of a tag but the last finds it.** In a file that is text, a tag takes up the
bytes of its line from `start` up to `stop`. The cursors of one column that find it are those from
the first of these bytes to the last but one, which are the columns from the start of its location
up to its end; and at the last byte there is no tag. -/
theorem elementAt_columns {t : Tree} {b : Bracket} {path content : String}
    (hcontent : t.contentOf path = .ok (Bytes.ofString content))
    (hdata : Scan.Countable (Bytes.ofString content)) {elements : List Element}
    (hscan : scanFile t b ⟨path, path⟩ = .ok elements) {el : Element} (hel : el ∈ elements) :
    (∃ start stop, Scan.Occupies b content el start stop)
      ∧ ∀ start stop, Scan.Occupies b content el start stop →
          el.loc.endColumn.toNat = stop
            ∧ ∀ cursor : Location, cursor.path = path → cursor.line = el.loc.line →
                cursor.endColumn.toNat = cursor.startColumn.toNat + 1 →
                (elementAt t b cursor = .ok el
                    ↔ start + 1 ≤ cursor.startColumn.toNat ∧ cursor.startColumn.toNat < stop)
                  ∧ (cursor.startColumn.toNat = stop →
                      elementAt t b cursor = .error (.resolve (.noTagAt cursor))) := by
  obtain ⟨hb, data, hread, hscan'⟩ := Scan.scan_of_scanFile hscan (List.ne_nil_of_mem hel)
  rw [hcontent] at hread
  cases hread
  have hcountable : ∀ data, t.contentOf path = .ok data → Scan.Countable data := by
    intro data hread
    rw [hcontent] at hread
    cases hread
    exact hdata
  refine ⟨?_, ?_⟩
  · obtain ⟨start, stop, hplace, -⟩ := Scan.exists_occupies hdata hb hscan' hel
    exact ⟨start, stop, hplace⟩
  · intro start stop hplace
    have hstart := hplace.startColumn_eq
    have hend := hplace.endColumn_eq hdata hb hscan' hel
    refine ⟨hend, ?_⟩
    rintro cursor rfl hline hone
    have hcovers : el.Covers cursor
        ↔ start + 1 ≤ cursor.startColumn.toNat ∧ cursor.startColumn.toNat < stop := by
      rw [Element.Covers, UInt32.le_iff_toNat_le, UInt32.le_iff_toNat_le, hstart, hend, hone]
      exact and_iff_right hline.symm
    refine ⟨?_, ?_⟩
    · have hcursor : cursor.startColumn ≤ cursor.endColumn := by
        rw [UInt32.le_iff_toNat_le]
        omega
      rw [elementAt_eq_ok_iff_covers hcountable hcursor hscan hel, hcovers]
    · intro hlast
      refine elementAt_of_none hscan fun e he => ?_
      have hapart := scanFile_separated hcountable hscan
      refine Element.not_covers_end hapart hel ?_ hline ?_ ?_ he
      · have hrange := (hdata.numbers_of_mem_scan hb hscan' hel).2.2
        exact UInt32.le_of_lt hrange
      · rw [← UInt32.toNat_inj, hlast, hend]
      · rw [UInt32.lt_iff_toNat_lt]
        omega

/-- The first of the two tags takes up the bytes from 0 up to 5. -/
theorem occupies_adjacentTags :
    Scan.Occupies .standard "[#a#][#b#]" ⟨"a", ⟨"f", 1, 1, 5⟩⟩ 0 5 where
  bracket := by
    have hbrackets : Scan.Brackets "[#".toList "#]".toList [] "[#a#][#b#]".toList
        [⟨0, 5, ['a']⟩, ⟨5, 10, ['b']⟩] := Scan.brackets_iff.2 (by decide +kernel)
    exact ⟨_, _, _, by decide +kernel, hbrackets, List.mem_cons_self⟩
  startColumn_eq := rfl

theorem elementAt_columns_adjacentTags :
    Scan.Occupies .standard "[#a#][#b#]" ⟨"a", ⟨"f", 1, 1, 5⟩⟩ 0 5
      ∧ elementAt adjacentTags .standard ⟨"f", 1, 4, 5⟩ = .ok ⟨"a", ⟨"f", 1, 1, 5⟩⟩
      ∧ elementAt adjacentTags .standard ⟨"f", 1, 5, 6⟩
          = .error (.resolve (.noTagAt ⟨"f", 1, 5, 6⟩)) := by
  have hcontent := contentOf_adjacentTags
  obtain ⟨-, hplaced⟩ := elementAt_columns hcontent (adjacentTags_countable hcontent)
    scanFile_adjacentTags List.mem_cons_self
  obtain ⟨-, hcursor⟩ := hplaced 0 5 occupies_adjacentTags
  refine ⟨occupies_adjacentTags, ?_, ?_⟩
  · exact (hcursor ⟨"f", 1, 4, 5⟩ rfl rfl rfl).1.2 (by decide)
  · exact (hcursor ⟨"f", 1, 5, 6⟩ rfl rfl rfl).2 rfl

/-- At the last column of a tag there is none. -/
theorem not_elementAt_columns :
    ¬ ∀ (t : Tree) (b : Bracket) (path content : String) (elements : List Element),
      t.contentOf path = .ok (Bytes.ofString content) →
      Scan.Countable (Bytes.ofString content) →
      scanFile t b ⟨path, path⟩ = .ok elements →
      ∀ el ∈ elements, ∀ start stop, Scan.Occupies b content el start stop →
      ∀ cursor : Location, cursor.path = path → cursor.line = el.loc.line →
        cursor.endColumn.toNat = cursor.startColumn.toNat + 1 →
        start + 1 ≤ cursor.startColumn.toNat → cursor.startColumn.toNat ≤ stop →
        elementAt t b cursor = .ok el := by
  intro h
  have hcontent := contentOf_adjacentTags
  have hfound := h adjacentTags .standard "f" _ _ hcontent (adjacentTags_countable hcontent)
    scanFile_adjacentTags _ List.mem_cons_self 0 5 occupies_adjacentTags ⟨"f", 1, 5, 6⟩
    rfl rfl rfl (by decide) (by decide)
  have hmissed : elementAt adjacentTags .standard ⟨"f", 1, 5, 6⟩ = .error _ :=
    elementAt_of_none scanFile_adjacentTags (by decide)
  rw [hfound] at hmissed
  cases hmissed

end CrossTag
