import CrossTag.Build
import CrossTag.Proofs.Location
import CrossTag.Proofs.Outcome
import CrossTag.Proofs.Text
import CrossTag.Proofs.Utf8
import Mathlib.Algebra.Group.Nat.Defs
import Mathlib.Data.List.Forall2

/-!
# What a scan reports

A bracket in a text is a left delimiter, at least one character, and a right delimiter:

    before ++ left ++ inner ++ right ++ after

The first bracket is the leftmost, and of those that start with it the shortest. `Brackets` is
the list of brackets found by taking the first one and going on behind it, with their places
counted in bytes from the start of the line. The search for delimiters answers exactly that list
(`brackets_iff`), although it looks for a left delimiter without asking whether a right one
follows: if the first left delimiter is not closed, then no later one is
(`firstMatch?_eq_none_iff`).

The places of brackets on a line grow (`Brackets.separated`), so the places of all elements of a
file do (`numbered_ordered`). They are written in words of 32 bits, which keeps their order as
long as the numbers fit (`Countable`). Carrying out pragmas leaves elements out and moves none
(`sublist_of_applyPragmas`), so the elements that are reported are in the order of their locations
(`scan_ordered`).
-/

namespace CrossTag

open Outcome

namespace Scan

/-! ### Brackets -/

/-- A bracket in a text: what stands before it, between its delimiters and after it. -/
structure IsBracket (left right cs before inner after : List Char) : Prop where
  parts : cs = before ++ left ++ inner ++ right ++ after
  inner_ne : inner ≠ []

/-- The leftmost bracket in a text, and of those that start with it the shortest. -/
structure IsFirstBracket (left right cs before inner after : List Char) : Prop
    extends IsBracket left right cs before inner after where
  leftmost : ∀ {before' inner' after'}, IsBracket left right cs before' inner' after' →
    before.length ≤ before'.length
  shortest : ∀ {inner' after'}, IsBracket left right cs before inner' after' →
    inner.length ≤ inner'.length

/-- The brackets of the text `cs`, one after another, where `front` stands before it on the
line. -/
inductive Brackets (left right : List Char) : (front cs : List Char) → List Match → Prop
  | done {front cs : List Char} (none : ∀ before inner after,
      ¬ IsBracket left right cs before inner after) : Brackets left right front cs []
  | next {front cs before inner after : List Char} {found : List Match}
      (first : IsFirstBracket left right cs before inner after)
      (rest : Brackets left right (front ++ before ++ left ++ inner ++ right) after found) :
      Brackets left right front cs
        (⟨Text.byteLength (front ++ before),
          Text.byteLength (front ++ before ++ left ++ inner ++ right), inner⟩ :: found)

section Search

variable {left right cs before inner after : List Char}

/-- Two brackets that are both the first are the same. -/
theorem IsFirstBracket.unique (h : IsFirstBracket left right cs before inner after)
    {before' inner' after' : List Char}
    (h' : IsFirstBracket left right cs before' inner' after') :
    before' = before ∧ inner' = inner ∧ after' = after := by
  have hlength : before'.length = before.length :=
    Nat.le_antisymm (h'.leftmost h.toIsBracket) (h.leftmost h'.toIsBracket)
  have hparts : before ++ (left ++ (inner ++ (right ++ after)))
      = before' ++ (left ++ (inner' ++ (right ++ after'))) := by
    simpa only [List.append_assoc] using h.parts.symm.trans h'.parts
  obtain ⟨rfl, htail⟩ := List.append_inj hparts hlength.symm
  have hinner : inner'.length = inner.length :=
    Nat.le_antisymm (h'.shortest h.toIsBracket) (h.shortest h'.toIsBracket)
  obtain ⟨rfl, hafter⟩ := List.append_inj (List.append_cancel_left htail) hinner.symm
  exact ⟨rfl, rfl, (List.append_cancel_left hafter).symm⟩

/-- What is found is the first bracket: the left delimiter is the first of all, and the right one
is the first behind the character after it. -/
theorem isFirstBracket_of_firstMatch?
    (h : firstMatch? left right cs = some (before, inner, after)) :
    IsFirstBracket left right cs before inner after := by
  unfold firstMatch? at h
  split at h
  · cases h
  · cases h
  · rename_i b c rest hleft
    split at h
    · cases h
    · rename_i i a hright
      cases h
      have hcs := Text.eq_of_cutAt?_eq_some hleft
      have hrest := Text.eq_of_cutAt?_eq_some hright
      refine ⟨⟨?_, List.cons_ne_nil _ _⟩, ?_, ?_⟩
      · rw [hcs, hrest]
        simp only [List.append_assoc, List.cons_append]
      · intro before' inner' after' hother
        have hcs' : cs = before' ++ left ++ (inner' ++ right ++ after') := by
          rw [hother.parts]
          simp only [List.append_assoc]
        exact Text.length_before_cutAt? hleft hcs'
      · intro inner' after' hother
        obtain ⟨c', inner', rfl⟩ := List.exists_cons_of_ne_nil hother.inner_ne
        have hsame : before ++ left ++ c :: rest
            = before ++ left ++ c' :: (inner' ++ right ++ after') := by
          rw [← hcs, hother.parts]
          simp only [List.append_assoc, List.cons_append]
        obtain ⟨-, hrest'⟩ := List.cons.inj (List.append_cancel_left hsame)
        exact Nat.succ_le_succ (Text.length_before_cutAt? hright hrest')

/-- If nothing is found, there is no bracket: a later left delimiter has less behind it than the
first. -/
theorem not_isBracket_of_firstMatch? (h : firstMatch? left right cs = none) :
    ¬ IsBracket left right cs before inner after := by
  intro hbracket
  have hparts : cs = before ++ left ++ (inner ++ right ++ after) := by
    rw [hbracket.parts]
    simp only [List.append_assoc]
  unfold firstMatch? at h
  split at h
  · rename_i hleft
    exact Text.cutAt?_eq_none_iff.1 hleft _ _ hparts
  · -- The first left delimiter ends the text, so no other is followed by anything.
    rename_i b hleft
    have hle := Text.length_before_cutAt? hleft hparts
    have hcs := Text.eq_of_cutAt?_eq_some hleft
    have hinner := List.length_pos_iff.2 hbracket.inner_ne
    have hlength := congrArg List.length (hcs.symm.trans hparts)
    simp only [List.length_append, List.length_nil] at hlength
    omega
  · rename_i b c rest hleft
    split at h
    · rename_i hright
      have hle := Text.length_before_cutAt? hleft hparts
      have hcs := Text.eq_of_cutAt?_eq_some hleft
      have hinner := List.length_pos_iff.2 hbracket.inner_ne
      have hsame : (b ++ left ++ [c]) ++ rest
          = (before ++ left ++ inner) ++ (right ++ after) := by
        rw [List.append_assoc, List.singleton_append, ← hcs, hbracket.parts]
        simp only [List.append_assoc]
      have hshort : (b ++ left ++ [c]).length ≤ (before ++ left ++ inner).length := by
        simp only [List.length_append, List.length_singleton]
        omega
      obtain ⟨mid, -, hrest⟩ := Text.exists_between hsame hshort
      exact Text.cutAt?_eq_none_iff.1 hright mid after (by rw [hrest, List.append_assoc])
    · cases h

theorem firstMatch?_eq_none_iff :
    firstMatch? left right cs = none
      ↔ ∀ before inner after, ¬ IsBracket left right cs before inner after := by
  constructor
  · intro h before inner after
    exact not_isBracket_of_firstMatch? h
  · intro h
    cases hfirst : firstMatch? left right cs with
    | none => rfl
    | some p =>
      obtain ⟨before, inner, after⟩ := p
      exact absurd (isFirstBracket_of_firstMatch? hfirst).toIsBracket (h before inner after)

theorem firstMatch?_eq_some_iff :
    firstMatch? left right cs = some (before, inner, after)
      ↔ IsFirstBracket left right cs before inner after := by
  constructor
  · exact isFirstBracket_of_firstMatch?
  · intro h
    cases hfirst : firstMatch? left right cs with
    | none => exact absurd h.toIsBracket (not_isBracket_of_firstMatch? hfirst)
    | some p =>
      obtain ⟨before', inner', after'⟩ := p
      obtain ⟨rfl, rfl, rfl⟩ := (isFirstBracket_of_firstMatch? hfirst).unique h
      rfl

end Search

/-! ### All brackets of a line -/

theorem byteLength_append (cs ds : List Char) :
    Text.byteLength (cs ++ ds) = Text.byteLength cs + Text.byteLength ds := by
  induction cs with
  | nil => simp [Text.byteLength]
  | cons c cs ih => simp [Text.byteLength, ih, Nat.add_assoc]

theorem byteLength_pos {cs : List Char} (h : cs ≠ []) : 0 < Text.byteLength cs := by
  obtain ⟨c, cs, rfl⟩ := List.exists_cons_of_ne_nil h
  have hc := Char.utf8Size_pos c
  rw [Text.byteLength]
  omega

section Line

variable {left right front cs : List Char} {found : List Match}

theorem allMatches_of_none {offset : Nat} (h : firstMatch? left right cs = none) :
    allMatches left right offset cs = [] := by
  rw [allMatches]
  split
  · rfl
  · rename_i hsome
    rw [h] at hsome
    cases hsome

theorem allMatches_of_some {offset : Nat} {before inner after : List Char}
    (h : firstMatch? left right cs = some (before, inner, after)) :
    allMatches left right offset cs =
      let start := offset + Text.byteLength before
      let stop := start + Text.byteLength left + Text.byteLength inner + Text.byteLength right
      ⟨start, stop, inner⟩ :: allMatches left right stop after := by
  rw [allMatches]
  split
  · rename_i hnone
    rw [h] at hnone
    cases hnone
  · rename_i hsome
    rw [h] at hsome
    cases hsome
    rfl

/-- **The search finds the brackets of a line, one after another, and nothing else.** -/
theorem brackets_iff :
    Brackets left right front cs found
      ↔ allMatches left right (Text.byteLength front) cs = found := by
  constructor
  · intro h
    induction h with
    | done hnone => exact allMatches_of_none (firstMatch?_eq_none_iff.2 hnone)
    | next hfirst hrest ih =>
      rw [allMatches_of_some (firstMatch?_eq_some_iff.2 hfirst), ← ih]
      simp only [byteLength_append, Nat.add_assoc]
  · rintro rfl
    -- What is left of the text grows shorter with each bracket.
    generalize hn : cs.length = n
    induction n using Nat.strongRecOn generalizing front cs with
    | ind n ih =>
      cases hfirst : firstMatch? left right cs with
      | none =>
        rw [allMatches_of_none hfirst]
        exact .done (firstMatch?_eq_none_iff.1 hfirst)
      | some p =>
        obtain ⟨before, inner, after⟩ := p
        have hshort := length_after_firstMatch? hfirst
        have hrest : Brackets left right (front ++ before ++ left ++ inner ++ right) after _ :=
          ih after.length (by omega) rfl
        have hnext := Brackets.next (firstMatch?_eq_some_iff.1 hfirst) hrest
        rw [allMatches_of_some hfirst]
        simpa only [byteLength_append, Nat.add_assoc] using hnext

/-- A bracket lies between what stands before the text and its end, and holds more than its left
delimiter. -/
theorem Brackets.bounds (h : Brackets left right front cs found) :
    ∀ m ∈ found, Text.byteLength front ≤ m.start ∧ m.start + Text.byteLength left < m.stop
      ∧ m.stop ≤ Text.byteLength (front ++ cs) := by
  induction h with
  | done => simp
  | @next front cs before inner after found hfirst hrest ih =>
    have hinner := byteLength_pos hfirst.inner_ne
    have hcs := congrArg Text.byteLength hfirst.parts
    intro m hm
    rcases List.mem_cons.1 hm with rfl | hm
    · simp only [byteLength_append] at hcs ⊢
      omega
    · have hm := ih m hm
      simp only [byteLength_append] at hcs hm ⊢
      omega

/-- Brackets do not overlap: each one starts where the one before it ends, or behind that. -/
theorem Brackets.separated (h : Brackets left right front cs found) :
    found.Pairwise fun m m' => m.stop ≤ m'.start := by
  induction h with
  | done => exact .nil
  | next hfirst hrest ih =>
    refine List.pairwise_cons.2 ⟨?_, ih⟩
    intro m hm
    exact (hrest.bounds m hm).1

end Line

/-! ### All brackets of a file -/

/-- The brackets of lines together with the numbers of the lines; `number` is that of the first
line. -/
def numbered (number : Nat) (found : List (List Match)) : List (Nat × Match) :=
  (found.zipIdx number).flatMap fun (ms, n) => ms.map (n, ·)

theorem numbered_cons (number : Nat) (ms : List Match) (found : List (List Match)) :
    numbered number (ms :: found) = ms.map (number, ·) ++ numbered (number + 1) found := by
  rw [numbered, List.zipIdx_cons, List.flatMap_cons]
  rfl

/-- What the search finds on each line of a file. -/
def foundIn (b : Bracket) (data : Bytes) : List (List Match) :=
  (lines data).map fun line =>
    allMatches b.left.toList b.right.toList 0 (Text.decodeLossy line)

theorem elementsOf_eq (b : Bracket) (path : String) (number : Nat) (ls : List Bytes) :
    elementsOf b path number ls
      = (numbered number (ls.map fun line =>
          allMatches b.left.toList b.right.toList 0 (Text.decodeLossy line))).map
        fun p => (p.1, p.2.toElement path p.1) := by
  induction ls generalizing number with
  | nil => rfl
  | cons line ls ih =>
    rw [elementsOf, List.map_cons, numbered_cons, List.map_append, List.map_map, ih]
    rfl

/-- One bracket of a file comes before another: on an earlier line, or on the same line and
ended before the other starts. -/
def Precedes (p q : Nat × Match) : Prop :=
  p.1 < q.1 ∨ p.1 = q.1 ∧ p.2.stop ≤ q.2.start

theorem number_le_of_mem_numbered {number : Nat} {found : List (List Match)} {p : Nat × Match}
    (h : p ∈ numbered number found) : number ≤ p.1 ∧ p.1 < number + found.length := by
  induction found generalizing number with
  | nil => cases h
  | cons ms found ih =>
    rw [numbered_cons, List.mem_append, List.mem_map] at h
    rw [List.length_cons]
    rcases h with ⟨m, -, rfl⟩ | h
    · simp
    · have := ih h
      omega

/-- A bracket of a file is one of those on the line of its number. -/
theorem getElem?_of_mem_numbered {number : Nat} {found : List (List Match)} {p : Nat × Match}
    (h : p ∈ numbered number found) : ∃ ms, found[p.1 - number]? = some ms ∧ p.2 ∈ ms := by
  rw [numbered, List.mem_flatMap] at h
  obtain ⟨⟨ms, n⟩, hms, hp⟩ := h
  obtain ⟨m, hm, rfl⟩ := List.mem_map.1 hp
  exact ⟨ms, (List.mk_mem_zipIdx_iff_le_and_getElem?_sub.1 hms).2, hm⟩

theorem mem_of_mem_numbered {number : Nat} {found : List (List Match)} {p : Nat × Match}
    (h : p ∈ numbered number found) : ∃ ms ∈ found, p.2 ∈ ms := by
  obtain ⟨ms, hms, hm⟩ := getElem?_of_mem_numbered h
  exact ⟨ms, List.mem_of_getElem? hms, hm⟩

/-- The brackets of a file come one before another. -/
theorem numbered_ordered {number : Nat} {found : List (List Match)}
    (h : ∀ ms ∈ found, ms.Pairwise fun m m' => m.stop ≤ m'.start) :
    (numbered number found).Pairwise Precedes := by
  induction found generalizing number with
  | nil => exact .nil
  | cons ms found ih =>
    rw [numbered_cons, List.pairwise_append]
    refine ⟨?_, ih fun ms' hms' => h ms' (List.mem_cons_of_mem _ hms'), ?_⟩
    · rw [List.pairwise_map]
      exact (h ms List.mem_cons_self).imp fun hle => .inr ⟨rfl, hle⟩
    · intro p hp q hq
      obtain ⟨m, -, rfl⟩ := List.mem_map.1 hp
      exact .inl (number_le_of_mem_numbered hq).1

/-! ### Numbers that fit -/

/-- A bracket whose numbers are stored as they are. -/
structure Fits (p : Nat × Match) : Prop where
  line_pos : 1 ≤ p.1
  line_lt : p.1 < UInt32.size
  start_lt : p.2.start + 1 < p.2.stop
  stop_lt : p.2.stop < UInt32.size

theorem toNat_toUInt32 {n : Nat} (h : n < UInt32.size) : n.toUInt32.toNat = n := by
  rw [Nat.toUInt32, UInt32.toNat_ofNat']
  exact Nat.mod_eq_of_lt h

namespace Fits

variable {p q : Nat × Match} (path : String)

theorem line_eq (h : Fits p) : (p.2.toElement path p.1).loc.line.toNat = p.1 :=
  toNat_toUInt32 h.line_lt

theorem startColumn_eq (h : Fits p) :
    (p.2.toElement path p.1).loc.startColumn.toNat = p.2.start + 1 := by
  have hlt : p.2.start + 1 < UInt32.size := Nat.lt_trans h.start_lt h.stop_lt
  show (p.2.start.toUInt32 + 1).toNat = p.2.start + 1
  rw [UInt32.toNat_add, toNat_toUInt32 (by omega)]
  exact Nat.mod_eq_of_lt hlt

theorem endColumn_eq (h : Fits p) : (p.2.toElement path p.1).loc.endColumn.toNat = p.2.stop :=
  toNat_toUInt32 h.stop_lt

/-- A bracket that comes before another has the smaller location. -/
theorem loc_lt (hp : Fits p) (hq : Fits q) (h : Precedes p q) :
    (p.2.toElement path p.1).loc < (q.2.toElement path q.1).loc := by
  rcases h with hline | ⟨hline, hstop⟩
  · refine Location.lt_of_line_lt rfl ?_
    rw [UInt32.lt_iff_toNat_lt, hp.line_eq, hq.line_eq]
    exact hline
  · refine Location.lt_of_startColumn_lt rfl ?_ ?_
    · rw [← UInt32.toNat_inj, hp.line_eq, hq.line_eq]
      exact hline
    · have hstart := hp.start_lt
      rw [UInt32.lt_iff_toNat_lt, hp.startColumn_eq, hq.startColumn_eq]
      omega

end Fits

/-- A file whose lines and columns can be counted in words of 32 bits. -/
structure Countable (data : Bytes) : Prop where
  lines_lt : (lines data).length < UInt32.size
  bytes_lt : ∀ line ∈ lines data, Text.byteLength (Text.decodeLossy line) < UInt32.size

theorem left_ne_nil_of_isUsable {b : Bracket} (h : b.isUsable = true) : b.left.toList ≠ [] := by
  intro hnil
  rw [String.toList_eq_nil_iff] at hnil
  rw [Bracket.isUsable, hnil] at h
  cases h

theorem brackets_of_mem_foundIn {b : Bracket} {data : Bytes} {ms : List Match}
    (h : ms ∈ foundIn b data) :
    ∃ line ∈ lines data,
      Brackets b.left.toList b.right.toList [] (Text.decodeLossy line) ms := by
  obtain ⟨line, hline, rfl⟩ := List.mem_map.1 h
  exact ⟨line, hline, brackets_iff.2 rfl⟩

theorem Countable.fits {b : Bracket} {data : Bytes} (h : Countable data)
    (hb : b.isUsable = true) {p : Nat × Match} (hp : p ∈ numbered 1 (foundIn b data)) : Fits p := by
  obtain ⟨ms, hms, hm⟩ := mem_of_mem_numbered hp
  obtain ⟨line, hline, hbrackets⟩ := brackets_of_mem_foundIn hms
  have hnumber := number_le_of_mem_numbered hp
  have hlength : (foundIn b data).length = (lines data).length := List.length_map _
  have hlines := h.lines_lt
  obtain ⟨-, hstart, hstop⟩ := hbrackets.bounds _ hm
  have hleft := byteLength_pos (left_ne_nil_of_isUsable hb)
  refine ⟨hnumber.1, by omega, by omega, ?_⟩
  exact Nat.lt_of_le_of_lt hstop (h.bytes_lt line hline)

/-! ### Pragmas -/

/-- Pragmas leave elements out and move none. -/
theorem sublist_of_applyPragmas {path : String} {stopped : Bool}
    {elements : List (Nat × Element)} {reported : List Element}
    (h : applyPragmas path stopped elements = .ok reported) :
    reported.Sublist (elements.map (·.2)) := by
  fun_induction applyPragmas path stopped elements generalizing reported with
  | case1 =>
    cases h
    exact .slnil
  | case2 =>
    cases h
    exact List.nil_sublist _
  | case3 => cases h
  | case4 _ _ _ _ _ _ _ _ _ ih => exact (ih h).cons _
  | case5 _ _ _ _ _ _ _ _ ih => exact (ih h).cons _
  | case6 => cases h
  | case7 => cases h
  | case8 line e rest _ ih => exact (ih h).cons _
  | case9 stopped line e rest _ _ ih =>
    obtain ⟨others, hrest, rfl⟩ := map_eq_ok_iff.1 h
    exact (ih hrest).cons_cons _

/-- A text that a scan takes for a pragma. -/
def IsPragma (text : String) : Prop :=
  text.toList.head? = some '%'

/-- Without pragmas every element is reported. -/
theorem applyPragmas_of_plain {path : String} {elements : List (Nat × Element)}
    (h : ∀ p ∈ elements, ¬ IsPragma p.2.text) :
    applyPragmas path false elements = .ok (elements.map (·.2)) := by
  induction elements with
  | nil => rfl
  | cons p elements ih =>
    obtain ⟨line, e⟩ := p
    have hplain : ¬ IsPragma e.text := h (line, e) List.mem_cons_self
    have hrest := ih fun p hp => h p (List.mem_cons_of_mem _ hp)
    rw [applyPragmas]
    split
    · rename_i heq
      exact absurd (by rw [IsPragma, heq]; rfl) hplain
    · rw [if_neg Bool.false_ne_true, hrest]
      rfl

/-! ### Reported elements -/

theorem scan_eq (b : Bracket) (path : String) (data : Bytes) :
    scan b path data
      = applyPragmas path false ((numbered 1 (foundIn b data)).map
          fun p => (p.1, p.2.toElement path p.1)) := by
  rw [scan, elementsOf_eq]
  rfl

/-- Every element that is reported is that of a bracket, and they come in the order of the
brackets. -/
theorem sublist_of_scan {b : Bracket} {path : String} {data : Bytes} {elements : List Element}
    (h : scan b path data = .ok elements) :
    elements.Sublist ((numbered 1 (foundIn b data)).map fun p => p.2.toElement path p.1) := by
  rw [scan_eq] at h
  have hsub := sublist_of_applyPragmas h
  rw [List.map_map] at hsub
  exact hsub

theorem foundIn_ordered (b : Bracket) (data : Bytes) :
    (numbered 1 (foundIn b data)).Pairwise Precedes := by
  refine numbered_ordered ?_
  intro ms hms
  obtain ⟨line, -, hbrackets⟩ := brackets_of_mem_foundIn hms
  exact hbrackets.separated

theorem path_of_mem_scan {b : Bracket} {path : String} {data : Bytes} {elements : List Element}
    (h : scan b path data = .ok elements) {e : Element} (he : e ∈ elements) :
    e.loc.path = path := by
  obtain ⟨p, -, rfl⟩ := List.mem_map.1 ((sublist_of_scan h).mem he)
  rfl

section Countable

variable {b : Bracket} {path : String} {data : Bytes} {elements : List Element}

/-- **The elements of a file are in the order of their locations, no two at the same one.** -/
theorem Countable.scan_ordered (hdata : Countable data) (hb : b.isUsable = true)
    (h : scan b path data = .ok elements) :
    elements.Pairwise fun e e' => e.loc < e'.loc := by
  refine List.Pairwise.sublist (sublist_of_scan h) ?_
  rw [List.pairwise_map]
  refine (foundIn_ordered b data).imp_of_mem ?_
  intro p q hp hq hbefore
  exact (hdata.fits hb hp).loc_lt path (hdata.fits hb hq) hbefore

/-- On one line, each element starts behind the end of those before it. -/
theorem Countable.scan_separated (hdata : Countable data) (hb : b.isUsable = true)
    (h : scan b path data = .ok elements) :
    elements.Pairwise fun e e' =>
      e.loc.line = e'.loc.line → e.loc.endColumn < e'.loc.startColumn := by
  refine List.Pairwise.sublist (sublist_of_scan h) ?_
  rw [List.pairwise_map]
  refine (foundIn_ordered b data).imp_of_mem ?_
  intro p q hp hq hbefore hline
  have hp := hdata.fits hb hp
  have hq := hdata.fits hb hq
  rw [← UInt32.toNat_inj, hp.line_eq, hq.line_eq] at hline
  rw [UInt32.lt_iff_toNat_lt, hp.endColumn_eq, hq.startColumn_eq]
  rcases hbefore with hlt | ⟨-, hstop⟩
  · omega
  · omega

/-- The numbers of a location count from one, and its range is not empty. -/
theorem Countable.numbers_of_mem_scan (hdata : Countable data) (hb : b.isUsable = true)
    (h : scan b path data = .ok elements) {e : Element} (he : e ∈ elements) :
    1 ≤ e.loc.line ∧ 1 ≤ e.loc.startColumn ∧ e.loc.startColumn < e.loc.endColumn := by
  obtain ⟨p, hp, rfl⟩ := List.mem_map.1 ((sublist_of_scan h).mem he)
  have hfits := hdata.fits hb hp
  refine ⟨?_, ?_, ?_⟩
  · rw [UInt32.le_iff_toNat_le, hfits.line_eq]
    exact hfits.line_pos
  · rw [UInt32.le_iff_toNat_le, hfits.startColumn_eq]
    exact Nat.le_add_left 1 _
  · rw [UInt32.lt_iff_toNat_lt, hfits.startColumn_eq, hfits.endColumn_eq]
    exact hfits.start_lt

end Countable

/-! ### Lines of a text -/

/-- Takes one carriage return off the end of a line. -/
def withoutReturn (line : List Char) : List Char :=
  if line.getLast? = some '\r' then line.dropLast else line

/-- The lines of a text. Each of them ends in a line feed, before which one carriage return is
left out; what stands behind the last line feed is a line unless it is empty. -/
def textLines (cs : List Char) : List (List Char) :=
  (cs.splitOn '\n').dropLast.map withoutReturn
    ++ (cs.splitOn '\n').getLast?.toList.filter (!·.isEmpty)

theorem linesOf_eq (pieces : List Bytes) :
    linesOf pieces
      = pieces.dropLast.map dropReturn ++ pieces.getLast?.toList.filter (!·.isEmpty) := by
  fun_induction linesOf pieces with
  | case1 => rfl
  | case2 last hempty => simp [hempty]
  | case3 last hne => simp [hne]
  | case4 piece pieces hne ih =>
    obtain ⟨next, pieces, rfl⟩ := List.exists_cons_of_ne_nil hne
    rw [ih, List.dropLast_cons_of_ne_nil hne, List.getLast?_cons_cons]
    rfl

theorem dropReturn_eq (line : Bytes) :
    dropReturn line = if line.getLast? = some 13 then line.dropLast else line := by
  rcases List.eq_nil_or_concat line with rfl | ⟨front, last, rfl⟩
  · rfl
  · simp only [dropReturn, List.concat_eq_append, List.reverse_append, List.reverse_singleton,
      List.singleton_append, List.getLast?_concat, List.dropLast_concat, Option.some.injEq]
    split
    · rename_i heq
      obtain ⟨rfl, rfl⟩ := List.cons.inj heq
      rw [if_pos rfl, List.reverse_reverse]
    · rename_i hne
      rw [if_neg fun hlast => hne front.reverse (by rw [hlast])]

theorem dropReturn_encode (line : List Char) :
    dropReturn (Text.encode line) = Text.encode (withoutReturn line) := by
  rw [dropReturn_eq, withoutReturn]
  rcases List.eq_nil_or_concat line with rfl | ⟨front, last, rfl⟩
  · rfl
  · have hencode : Text.encode (front.concat last)
        = Text.encode front ++ String.utf8EncodeChar last := by
      rw [List.concat_eq_append, Text.encode_append, Text.encode_cons]
      exact congrArg (Text.encode front ++ ·) (List.append_nil _)
    rw [hencode, List.concat_eq_append, List.getLast?_concat, List.dropLast_concat]
    by_cases hlast : last = '\r'
    · rw [hlast, if_pos rfl]
      have hbytes : String.utf8EncodeChar '\r' = [13] := rfl
      rw [hbytes, List.getLast?_concat, List.dropLast_concat, if_pos rfl]
    · have hnot : (13 : UInt8) ∉ String.utf8EncodeChar last := by
        rw [Text.mem_encodeChar_iff (by decide)]
        exact fun heq => hlast (Char.toNat_inj.1 heq)
      rw [if_neg fun heq => hlast (Option.some.inj heq), if_neg]
      · rw [Text.encode_append, Text.encode_cons]
        exact congrArg (Text.encode front ++ ·) (List.append_nil _).symm
      · intro heq
        have hne : String.utf8EncodeChar last ≠ [] := String.utf8EncodeChar_ne_nil
        rw [List.getLast?_append, List.getLast?_eq_some_getLast hne, Option.some_or] at heq
        exact hnot (Option.some.inj heq ▸ List.getLast_mem hne)

theorem lines_encode (cs : List Char) :
    lines (Text.encode cs) = (textLines cs).map Text.encode := by
  have hfeed : ('\n'.toNat : Nat) = (10 : UInt8).toNat := rfl
  have hempty : ∀ line : List Char, (Text.encode line).isEmpty = line.isEmpty := by
    intro line
    cases line with
    | nil => rfl
    | cons c line =>
      have hne : String.utf8EncodeChar c ≠ [] := String.utf8EncodeChar_ne_nil
      simp [Text.encode_cons, hne]
  rw [lines, Text.splitOn_encode (by decide) hfeed, linesOf_eq, textLines, List.map_append,
    ← List.map_dropLast, List.map_map, List.map_map, List.getLast?_map]
  congr 1
  · exact List.map_congr_left fun line _ => dropReturn_encode line
  · cases (cs.splitOn '\n').getLast? with
    | none => rfl
    | some line =>
      simp only [Option.map_some, Option.toList_some, List.filter_cons, List.filter_nil, hempty]
      split <;> rfl

/-! ### Texts -/

theorem lines_ofString (content : String) :
    lines (Bytes.ofString content) = (textLines content.toList).map Text.encode :=
  lines_encode content.toList

theorem foundIn_ofString (b : Bracket) (content : String) :
    foundIn b (Bytes.ofString content)
      = (textLines content.toList).map (allMatches b.left.toList b.right.toList 0) := by
  rw [foundIn, lines_ofString, List.map_map]
  refine List.map_congr_left fun line _ => ?_
  rw [Function.comp_apply, Text.decodeLossy_encode]

theorem countable_ofString {content : String}
    (hlines : (textLines content.toList).length < UInt32.size)
    (hbytes : ∀ line ∈ textLines content.toList, Text.byteLength line < UInt32.size) :
    Countable (Bytes.ofString content) where
  lines_lt := by
    rw [lines_ofString, List.length_map]
    exact hlines
  bytes_lt := by
    intro line hline
    rw [lines_ofString] at hline
    obtain ⟨text, htext, rfl⟩ := List.mem_map.1 hline
    rw [Text.decodeLossy_encode]
    exact hbytes text htext

/-- Each line has one list of brackets, which is the one that is found. -/
theorem forall₂_brackets_iff {left right : List Char} {ls : List (List Char)}
    {found : List (List Match)} :
    List.Forall₂ (Brackets left right []) ls found ↔ found = ls.map (allMatches left right 0) := by
  induction ls generalizing found with
  | nil => rw [List.forall₂_nil_left_iff, List.map_nil]
  | cons line ls ih =>
    rw [List.forall₂_cons_left_iff, List.map_cons]
    constructor
    · rintro ⟨ms, found, hline, hrest, rfl⟩
      rw [ih.1 hrest, ← brackets_iff.1 hline]
      rfl
    · rintro rfl
      exact ⟨_, _, brackets_iff.2 rfl, ih.2 rfl, rfl⟩

theorem scanText_eq_scan {b : Bracket} (hb : b.isUsable = true) (path : String) (data : Bytes) :
    scanText b path data = (scan b path data).mapError .scan := by
  rw [scanText, Bracket.check, if_pos hb]
  rfl

/-- Whatever is found in a text is found by delimiters that can be searched for. -/
theorem scan_of_scanText {b : Bracket} {path : String} {data : Bytes} {elements : List Element}
    (h : scanText b path data = .ok elements) :
    b.isUsable = true ∧ scan b path data = .ok elements := by
  cases hb : b.isUsable with
  | true =>
    rw [scanText_eq_scan hb] at h
    exact ⟨rfl, mapError_eq_ok_iff.1 h⟩
  | false =>
    rw [scanText, Bracket.check, hb] at h
    cases h

/-- Whatever is found in a file is found in its content. -/
theorem scan_of_scanFile {t : Tree} {b : Bracket} {file : SourceFile} {elements : List Element}
    (h : scanFile t b file = .ok elements) (hne : elements ≠ []) :
    b.isUsable = true ∧ ∃ data, t.contentOf file.path = .ok data
      ∧ scan b file.display data = .ok elements := by
  rw [scanFile] at h
  obtain ⟨data, hdata, h⟩ := bind_eq_ok_iff.1 h
  split at h
  · -- A file that is not text has no elements.
    cases h
    exact absurd rfl hne
  · obtain ⟨hb, hscan⟩ := scan_of_scanText h
    exact ⟨hb, data, mapError_eq_ok_iff.1 hdata, hscan⟩

/-- What an element says, with its numbers as numbers. -/
def reading (e : Element) : String × String × Nat × Nat × Nat :=
  (e.text, e.loc.path, e.loc.line.toNat, e.loc.startColumn.toNat, e.loc.endColumn.toNat)

theorem Fits.reading_eq {p : Nat × Match} (h : Fits p) (path : String) :
    reading (p.2.toElement path p.1)
      = (String.ofList (Text.trim p.2.inner), path, p.1, p.2.start + 1, p.2.stop) := by
  rw [reading, h.line_eq, h.startColumn_eq, h.endColumn_eq]
  rfl

/-- **A scan reports the brackets of a text, line by line, and nothing else.** For every text there
is one list of brackets for each of its lines. If none of them is a pragma, then the elements
reported are these brackets, one by one and in order, each with its text trimmed, the number of its
line, the column where it starts and the column where it ends, counted in bytes. So they are in the
order of their locations, no two at the same one, and on one line each starts behind the end of the
one before. -/
theorem scanText_brackets {b : Bracket} (hleft : b.left ≠ "") (hright : b.right ≠ "")
    {content : String} (hlines : (textLines content.toList).length < 2 ^ 32)
    (hbytes : ∀ line ∈ textLines content.toList, Text.byteLength line < 2 ^ 32) (path : String) :
    ∃ found : List (List Match),
      (∀ other, List.Forall₂ (Brackets b.left.toList b.right.toList []) (textLines content.toList)
          other ↔ other = found)
        ∧ ((∀ ms ∈ found, ∀ m ∈ ms, ¬ IsPragma (String.ofList (Text.trim m.inner))) →
            ∃ elements, scanText b path (Bytes.ofString content) = .ok elements
              ∧ elements.map reading
                = (found.zipIdx 1).flatMap (fun (ms, n) => ms.map fun m =>
                    (String.ofList (Text.trim m.inner), path, n, m.start + 1, m.stop))
              ∧ elements.Pairwise (fun e e' => e.loc < e'.loc)
              ∧ elements.Pairwise fun e e' =>
                  e.loc.line = e'.loc.line → e.loc.endColumn < e'.loc.startColumn) := by
  have hb : b.isUsable = true := by simp [Bracket.isUsable, hleft, hright]
  have hdata : Countable (Bytes.ofString content) := countable_ofString hlines hbytes
  have hfound := foundIn_ofString b content
  refine ⟨_, fun other => forall₂_brackets_iff, ?_⟩
  rw [← hfound]
  intro hplain
  have hscan : scan b path (Bytes.ofString content)
      = .ok ((numbered 1 (foundIn b (Bytes.ofString content))).map
          fun p => p.2.toElement path p.1) := by
    rw [scan_eq, applyPragmas_of_plain]
    · rw [List.map_map]
      rfl
    · intro q hq
      obtain ⟨p, hp, rfl⟩ := List.mem_map.1 hq
      obtain ⟨ms, hms, hm⟩ := mem_of_mem_numbered hp
      exact hplain ms hms p.2 hm
  refine ⟨_, by rw [scanText_eq_scan hb, hscan]; rfl, ?_, hdata.scan_ordered hb hscan,
    hdata.scan_separated hb hscan⟩
  rw [List.map_map]
  calc (numbered 1 (foundIn b (Bytes.ofString content))).map
        (reading ∘ fun p => p.2.toElement path p.1)
      = (numbered 1 (foundIn b (Bytes.ofString content))).map fun p =>
          (String.ofList (Text.trim p.2.inner), path, p.1, p.2.start + 1, p.2.stop) :=
        List.map_congr_left fun p hp => (hdata.fits hb hp).reading_eq path
    _ = _ := by
        rw [numbered, List.map_flatMap]
        simp only [List.map_map]
        rfl

/-- Delimiters that overlap, a delimiter within a bracket, and one that is not closed. -/
def overlapping : String :=
  "é[##]#]\r\nx [# [# a #] [# b"

theorem scanText_brackets_overlapping :
    (textLines overlapping.toList).length < 2 ^ 32
      ∧ (∀ line ∈ textLines overlapping.toList, Text.byteLength line < 2 ^ 32)
      ∧ ∃ elements, scanText .standard "f" (Bytes.ofString overlapping) = .ok elements
        ∧ elements.map reading = [("#]", "f", 1, 3, 8), ("[# a", "f", 2, 3, 12)] := by
  have hlines : (textLines overlapping.toList).length < 2 ^ 32 := by decide +kernel
  have hbytes : ∀ line ∈ textLines overlapping.toList, Text.byteLength line < 2 ^ 32 := by
    decide +kernel
  obtain ⟨found, hfound, hreport⟩ :=
    scanText_brackets (b := .standard) (by decide) (by decide) hlines hbytes "f"
  have hsame : found = [[⟨2, 8, "#]".toList⟩], [⟨2, 12, " [# a ".toList⟩]] := by
    rw [forall₂_brackets_iff.1 ((hfound found).2 rfl)]
    decide +kernel
  rw [hsame] at hreport
  obtain ⟨elements, hscan, hreading, -⟩ := hreport (by unfold IsPragma; decide +kernel)
  refine ⟨hlines, hbytes, elements, hscan, ?_⟩
  rw [hreading]
  decide +kernel

end Scan

end CrossTag
