import CrossTag.Proofs.Scan
import Mathlib.Data.List.Induction
import Mathlib.Data.List.TakeWhile

/-!
# What pragmas leave of a file

The elements of a file are gone through with one bit of state, whether reporting is suspended. Here
the bit is taken out. Of the elements before the first hard stop (`heeded`), the pragmas have to
alternate, `%stop` first; `Alternate` says this by their numbers,

    pragma     0        1        2        3     ...
    text     %stop    %cont    %stop    %cont   ...

and what is reported are the other elements with as many `%stop` as `%cont` before them
(`reported`).

The bit is the parity of the pragmas so far (`suspended`). The run lemma `applyPragmas_append` says
that elements whose pragmas alternate are gone through without a fault, leave what is reported
behind, and end in the state that their number says. Its induction adds elements at the end, since
all that an element is judged by stands before it. A fault is met at the first element with which
the pragmas no longer alternate (`FirstBreach.applyPragmas_eq`).

What stands behind a hard stop is not looked at (`applyPragmas_heeded`), and no bracket depends on
what stands behind it on its line (`prefix_allMatches`).
-/

namespace CrossTag

namespace Text

/-- The first delimiter stays the first, whatever is put behind the text. -/
theorem cutAt?_append {delimiter cs before after : List Char}
    (h : cutAt? delimiter cs = some (before, after)) (tail : List Char) :
    cutAt? delimiter (cs ++ tail) = some (before, after ++ tail) := by
  have hcs := eq_of_cutAt?_eq_some h
  have hparts : cs ++ tail = before ++ delimiter ++ (after ++ tail) := by
    rw [hcs, List.append_assoc]
  cases hcut : cutAt? delimiter (cs ++ tail) with
  | none => exact absurd hparts (cutAt?_eq_none_iff.1 hcut before (after ++ tail))
  | some p =>
    obtain ⟨before', after'⟩ := p
    have hparts' := eq_of_cutAt?_eq_some hcut
    have hle : before'.length ≤ before.length := length_before_cutAt? hcut hparts
    -- A delimiter that starts no later than the first one of `cs` ends within `cs`.
    have hwithin : (before' ++ delimiter).length ≤ cs.length := by
      rw [hcs, List.length_append, List.length_append, List.length_append]
      omega
    obtain ⟨mid, hmid, -⟩ := exists_between (hparts'.symm.trans rfl) hwithin
    have hle' : before.length ≤ before'.length := length_before_cutAt? h hmid
    have hsame : before ++ (delimiter ++ (after ++ tail)) = before' ++ (delimiter ++ after') := by
      simpa only [List.append_assoc] using hparts.symm.trans hparts'
    obtain ⟨rfl, hrest⟩ := List.append_inj hsame (Nat.le_antisymm hle' hle)
    rw [List.append_cancel_left hrest]

end Text

namespace Scan

/-! ### Hard stops -/

/-- The elements before the first hard stop. -/
def heeded (found : List (Nat × Element)) : List (Nat × Element) :=
  found.takeWhile fun p => p.2.text != "%stop!"

/-- What stands behind a hard stop has no influence. -/
theorem applyPragmas_heeded (path : String) (stopped : Bool) (found : List (Nat × Element)) :
    applyPragmas path stopped (heeded found) = applyPragmas path stopped found := by
  induction found generalizing stopped with
  | nil => rfl
  | cons p found ih =>
    obtain ⟨line, e⟩ := p
    by_cases hstop : e.text = "%stop!"
    · have hnone : heeded ((line, e) :: found) = [] := by simp [heeded, hstop]
      have hpercent : e.text.toList = '%' :: "stop!".toList := by rw [hstop]; rfl
      rw [hnone, applyPragmas, applyPragmas, hpercent]
      exact (if_pos hstop).symm
    · have hcons : heeded ((line, e) :: found) = (line, e) :: heeded found := by
        simp [heeded, hstop]
      rw [hcons, applyPragmas, applyPragmas]
      simp only [ih]

/-- Lists that agree up to a hard stop have the same elements before their first one. -/
theorem heeded_eq_of_prefix {front found : List (Nat × Element)} (h : front <+: found)
    (hstop : ∃ p ∈ front, p.2.text = "%stop!") : heeded found = heeded front := by
  obtain ⟨rest, rfl⟩ := h
  obtain ⟨p, hp, htext⟩ := hstop
  rw [heeded, List.takeWhile_append, if_neg]
  · rfl
  · intro hlength
    have hall : front.takeWhile (fun p => p.2.text != "%stop!") = front :=
      (List.takeWhile_prefix _).eq_of_length hlength
    rw [← hall] at hp
    simpa [htext] using List.mem_takeWhile_imp hp

/-! ### Alternation -/

instance : DecidablePred IsPragma := fun text =>
  inferInstanceAs (Decidable (text.toList.head? = some '%'))

/-- The pragmas among elements. -/
def pragmas (found : List (Nat × Element)) : List (Nat × Element) :=
  found.filter fun p => IsPragma p.2.text

/-- The pragma that may follow a number of others. -/
def due (n : Nat) : String :=
  if n % 2 = 0 then "%stop" else "%cont"

/-- Every pragma is `%stop` or `%cont`, and these alternate, `%stop` first. -/
def Alternate (found : List (Nat × Element)) : Prop :=
  ∀ n p, (pragmas found)[n]? = some p → p.2.text = due n

instance (found : List (Nat × Element)) : Decidable (Alternate found) :=
  decidable_of_iff (∀ q ∈ (pragmas found).zipIdx, q.1.2.text = due q.2)
    ⟨fun h n p hp => h (p, n) (List.mem_zipIdx_iff_getElem?.2 hp),
      fun h q hq => h q.2 q.1 (List.mem_zipIdx_iff_getElem?.1 hq)⟩

/-- How many elements have a given text. -/
def countOf (text : String) (found : List (Nat × Element)) : Nat :=
  found.countP fun p => p.2.text = text

/-- The elements that are no pragmas and have as many `%stop` as `%cont` before them. -/
def reported (found : List (Nat × Element)) : List Element :=
  (found.zipIdx.filter fun (p, n) => ¬ IsPragma p.2.text
    ∧ countOf "%stop" (found.take n) = countOf "%cont" (found.take n)).map (·.1.2)

/-- Whether reporting is suspended behind elements whose pragmas alternate. -/
def suspended (found : List (Nat × Element)) : Bool :=
  (pragmas found).length % 2 = 1

section Concat

variable {found : List (Nat × Element)} {p : Nat × Element}

theorem pragmas_concat_of_pragma (hp : IsPragma p.2.text) :
    pragmas (found ++ [p]) = pragmas found ++ [p] := by
  simp [pragmas, hp]

theorem pragmas_concat_of_plain (hp : ¬ IsPragma p.2.text) :
    pragmas (found ++ [p]) = pragmas found := by
  simp [pragmas, hp]

theorem alternate_concat_iff :
    Alternate (found ++ [p]) ↔
      Alternate found ∧ (IsPragma p.2.text → p.2.text = due (pragmas found).length) := by
  by_cases hp : IsPragma p.2.text
  · rw [Alternate, pragmas_concat_of_pragma hp]
    constructor
    · intro h
      refine ⟨fun n q hq => h n q ?_, fun _ => h _ p List.getElem?_concat_length⟩
      exact List.getElem?_append_left (List.getElem?_eq_some_iff.1 hq).1 ▸ hq
    · rintro ⟨h, hdue⟩ n q hq
      rcases Nat.lt_trichotomy n (pragmas found).length with hn | rfl | hn
      · rw [List.getElem?_append_left hn] at hq
        exact h n q hq
      · rw [List.getElem?_concat_length] at hq
        cases hq
        exact hdue hp
      · rw [List.getElem?_eq_none (by simpa using Nat.succ_le_of_lt hn)] at hq
        cases hq
  · rw [Alternate, pragmas_concat_of_plain hp]
    simp only [hp, false_implies, and_true]
    rfl

theorem countOf_concat (text : String) :
    countOf text (found ++ [p]) = countOf text found + if p.2.text = text then 1 else 0 := by
  rw [countOf, List.countP_append, List.countP_singleton]
  simp [countOf]

/-- What is reported of the elements before does not change. -/
theorem reported_concat :
    reported (found ++ [p]) = reported found
      ++ if ¬ IsPragma p.2.text ∧ countOf "%stop" found = countOf "%cont" found
          then [p.2] else [] := by
  have hbefore : (found.zipIdx.filter fun (q, n) => ¬ IsPragma q.2.text
        ∧ countOf "%stop" ((found ++ [p]).take n) = countOf "%cont" ((found ++ [p]).take n))
      = found.zipIdx.filter fun (q, n) => ¬ IsPragma q.2.text
        ∧ countOf "%stop" (found.take n) = countOf "%cont" (found.take n) := by
    refine List.filter_congr fun q hq => ?_
    have hlt : q.2 < found.length := by simpa using List.snd_lt_of_mem_zipIdx hq
    simp only [List.take_append_of_le_length (Nat.le_of_lt hlt)]
  rw [reported, List.zipIdx_append, List.filter_append, List.map_append, hbefore]
  congr 1
  rw [List.zipIdx_singleton, List.filter_singleton, Nat.zero_add]
  by_cases hp : ¬ IsPragma p.2.text ∧ countOf "%stop" found = countOf "%cont" found
  · simp [hp]
  · rw [if_neg hp]
    simp [hp]

end Concat

/-- Where pragmas alternate, one more `%stop` than `%cont` was met if their number is odd, and
equally many if it is even. -/
theorem Alternate.countOf_eq {found : List (Nat × Element)} (h : Alternate found) :
    countOf "%stop" found = countOf "%cont" found + (pragmas found).length % 2 := by
  induction found using List.reverseRecOn with
  | nil => rfl
  | append_singleton found p ih =>
    obtain ⟨hfound, hdue⟩ := alternate_concat_iff.1 h
    have ih := ih hfound
    rw [countOf_concat, countOf_concat]
    by_cases hp : IsPragma p.2.text
    · rw [pragmas_concat_of_pragma hp, hdue hp, List.length_append, List.length_singleton]
      rcases Nat.mod_two_eq_zero_or_one (pragmas found).length with heven | hodd
      · have hstop : due (pragmas found).length = "%stop" := if_pos heven
        rw [hstop, if_pos rfl, if_neg (by decide)]
        omega
      · have hcont : due (pragmas found).length = "%cont" := if_neg (by omega)
        rw [hcont, if_neg (by decide), if_pos rfl]
        omega
    · have hstop : p.2.text ≠ "%stop" := fun heq => hp (heq ▸ by decide)
      have hcont : p.2.text ≠ "%cont" := fun heq => hp (heq ▸ by decide)
      rw [pragmas_concat_of_plain hp, if_neg hstop, if_neg hcont]
      exact ih

theorem Alternate.countOf_eq_iff {found : List (Nat × Element)} (h : Alternate found) :
    countOf "%stop" found = countOf "%cont" found ↔ suspended found = false := by
  have heq := h.countOf_eq
  rw [suspended, decide_eq_false_iff_not]
  omega

/-! ### Runs -/

section Step

variable {path : String} {stopped : Bool} {line : Nat} {e : Element}
  {rest : List (Nat × Element)}

/-- An element that is no pragma is reported unless reporting is suspended. -/
theorem applyPragmas_plain (he : ¬ IsPragma e.text) :
    applyPragmas path stopped ((line, e) :: rest)
      = (applyPragmas path stopped rest).map ((if stopped then [] else [e]) ++ ·) := by
  rw [applyPragmas]
  split
  · rename_i heq
    exact absurd (by rw [IsPragma, heq]; rfl) he
  · cases stopped with
    | true =>
      rw [if_pos rfl, if_pos rfl]
      cases applyPragmas path true rest <;> rfl
    | false =>
      rw [if_neg Bool.false_ne_true, if_neg Bool.false_ne_true]
      rfl

/-- The pragma that changes the state. -/
def turning (stopped : Bool) : String :=
  if stopped then "%cont" else "%stop"

/-- What is wrong with a pragma that is not due. -/
def faultOf (text : String) : PragmaFault :=
  if text = "%stop" then .alreadyStopped
  else if text = "%cont" then .notStopped
  else .unknown text

/-- A pragma changes the state if it is due, and is a fault if not. -/
theorem applyPragmas_pragma (he : IsPragma e.text) (hstop : e.text ≠ "%stop!") :
    applyPragmas path stopped ((line, e) :: rest)
      = if e.text = turning stopped then applyPragmas path (!stopped) rest
        else .error ⟨path, line, faultOf e.text⟩ := by
  obtain ⟨cs, hcs⟩ : ∃ cs, e.text.toList = '%' :: cs := by
    rw [IsPragma, List.head?_eq_some_iff] at he
    exact he
  rw [applyPragmas, hcs]
  simp only [if_neg hstop]
  cases stopped with
  | true =>
    by_cases hcont : e.text = "%cont"
    · simp [turning, hcont]
    · by_cases htext : e.text = "%stop"
      · simp [turning, faultOf, htext]
      · simp [turning, faultOf, hcont, htext]
  | false =>
    by_cases htext : e.text = "%stop"
    · simp [turning, htext]
    · by_cases hcont : e.text = "%cont"
      · simp [turning, faultOf, hcont]
      · simp [turning, faultOf, hcont, htext]

end Step

theorem due_length_pragmas (found : List (Nat × Element)) :
    due (pragmas found).length = turning (suspended found) := by
  rcases Nat.mod_two_eq_zero_or_one (pragmas found).length with heven | hodd
  · simp [due, turning, suspended, heven]
  · simp [due, turning, suspended, hodd]

/-- **Elements whose pragmas alternate are gone through without a fault,** whatever follows. -/
theorem applyPragmas_append {path : String} {found : List (Nat × Element)}
    (h : Alternate found) (rest : List (Nat × Element)) :
    applyPragmas path false (found ++ rest)
      = (applyPragmas path (suspended found) rest).map (reported found ++ ·) := by
  induction found using List.reverseRecOn generalizing rest with
  | nil =>
    show applyPragmas path false rest = (applyPragmas path false rest).map ([] ++ ·)
    cases applyPragmas path false rest <;> rfl
  | append_singleton found p ih =>
    obtain ⟨line, e⟩ := p
    obtain ⟨hfound, hdue⟩ := alternate_concat_iff.1 h
    rw [List.append_assoc, List.singleton_append, ih hfound, reported_concat]
    by_cases he : IsPragma e.text
    · -- The pragma is due, so that the state turns and nothing is reported.
      have hdue : e.text = due (pragmas found).length := hdue he
      have hstop : e.text ≠ "%stop!" := by
        rw [hdue, due]
        split <;> decide
      have hturned : suspended (found ++ [(line, e)]) = !suspended found := by
        rw [suspended, suspended, pragmas_concat_of_pragma he, List.length_append,
          List.length_singleton]
        rcases Nat.mod_two_eq_zero_or_one (pragmas found).length with heven | hodd
        · simp [Nat.add_mod, heven]
        · simp [Nat.add_mod, hodd]
      rw [applyPragmas_pragma he hstop, if_pos (hdue.trans (due_length_pragmas found)), hturned,
        if_neg fun hplain => hplain.1 he, List.append_nil]
    · have hsame : suspended (found ++ [(line, e)]) = suspended found := by
        rw [suspended, suspended, pragmas_concat_of_plain he]
      have hif : (if suspended found = true then [] else [e])
          = if ¬ IsPragma e.text ∧ countOf "%stop" found = countOf "%cont" found
              then [e] else [] := by
        simp only [hfound.countOf_eq_iff]
        cases suspended found <;> simp [he]
      rw [applyPragmas_plain he, hsame, hif]
      cases applyPragmas path (suspended found) rest with
      | error fault => rfl
      | ok elements =>
        show Except.ok (reported found ++ (_ ++ elements))
          = Except.ok (reported found ++ _ ++ elements)
        rw [List.append_assoc]

/-- The first element with which the pragmas no longer alternate. -/
def FirstBreach (found : List (Nat × Element)) (p : Nat × Element) : Prop :=
  ∃ front rest, found = front ++ p :: rest ∧ Alternate front ∧ ¬ Alternate (front ++ [p])

/-- It is a pragma, and not the one that is due. -/
theorem pragma_of_breach {front : List (Nat × Element)} {p : Nat × Element}
    (h : Alternate front) (hp : ¬ Alternate (front ++ [p])) :
    IsPragma p.2.text ∧ p.2.text ≠ due (pragmas front).length := by
  rw [alternate_concat_iff, not_and] at hp
  exact Classical.not_imp.1 (hp h)

/-- **A fault is met at the first pragma that is not due,** and names its line. -/
theorem FirstBreach.applyPragmas_eq {path : String} {found : List (Nat × Element)}
    {p : Nat × Element} (h : FirstBreach found p) (hstop : p.2.text ≠ "%stop!") :
    applyPragmas path false found = .error ⟨path, p.1, faultOf p.2.text⟩ := by
  obtain ⟨front, rest, rfl, hfront, hp⟩ := h
  obtain ⟨hpragma, hdue⟩ := pragma_of_breach hfront hp
  rw [applyPragmas_append hfront, applyPragmas_pragma hpragma hstop,
    if_neg fun heq => hdue (heq.trans (due_length_pragmas front).symm)]
  rfl

/-- Where pragmas do not alternate, there is a first element with which they no longer do. -/
theorem exists_firstBreach {found : List (Nat × Element)} (h : ¬ Alternate found) :
    ∃ p, FirstBreach found p ∧ IsPragma p.2.text := by
  induction found using List.reverseRecOn with
  | nil => exact absurd (fun n p hp => by cases hp) h
  | append_singleton found p ih =>
    by_cases hfound : Alternate found
    · exact ⟨p, ⟨found, [], rfl, hfound, h⟩, (pragma_of_breach hfound h).1⟩
    · obtain ⟨q, ⟨front, rest, rfl, hfront, hq⟩, hpragma⟩ := ih hfound
      exact ⟨q, ⟨front, rest ++ [p], by simp, hfront, hq⟩, hpragma⟩

/-! ### Brackets before a hard stop -/

theorem firstMatch?_append {left right cs before inner after : List Char}
    (h : firstMatch? left right cs = some (before, inner, after)) (tail : List Char) :
    firstMatch? left right (cs ++ tail) = some (before, inner, after ++ tail) := by
  unfold firstMatch? at h
  split at h
  · cases h
  · cases h
  · rename_i b c rest hleft
    split at h
    · cases h
    · rename_i i a hright
      cases h
      rw [firstMatch?, Text.cutAt?_append hleft tail]
      simp only [List.cons_append, Text.cutAt?_append hright tail]

/-- The brackets of a text stay the first brackets, whatever is put behind it. -/
theorem prefix_allMatches (left right : List Char) (offset : Nat) (cs tail : List Char) :
    allMatches left right offset cs <+: allMatches left right offset (cs ++ tail) := by
  generalize hn : cs.length = n
  induction n using Nat.strongRecOn generalizing cs offset with
  | _ n ih =>
    cases hfirst : firstMatch? left right cs with
    | none =>
      rw [allMatches_of_none hfirst]
      exact List.nil_prefix
    | some p =>
      obtain ⟨before, inner, after⟩ := p
      have hshort := length_after_firstMatch? hfirst
      rw [allMatches_of_some hfirst, allMatches_of_some (firstMatch?_append hfirst tail),
        List.prefix_cons_inj]
      exact ih after.length (by omega) _ _ rfl

theorem numbered_append (number : Nat) (found found' : List (List Match)) :
    numbered number (found ++ found')
      = numbered number found ++ numbered (number + found.length) found' := by
  rw [numbered, List.zipIdx_append, List.flatMap_append]
  rfl

/-- The brackets of the lines before, and those at the front of a line, come first in a file. -/
theorem prefix_numbered {ls more : List (List Char)} {front tail left right : List Char} :
    numbered 1 ((ls ++ [front]).map (allMatches left right 0))
      <+: numbered 1 ((ls ++ (front ++ tail) :: more).map (allMatches left right 0)) := by
  rw [List.map_append, List.map_append, numbered_append, numbered_append,
    List.prefix_append_right_inj, List.map_cons, List.map_cons, numbered_cons, numbered_cons,
    List.map_nil]
  obtain ⟨rest, hrest⟩ := prefix_allMatches left right 0 front tail
  rw [← hrest, List.map_append, List.append_assoc, List.prefix_append_right_inj]
  exact List.nil_prefix

/-- The elements of a file, pragmas included, with the numbers of their lines. -/
def allElements (b : Bracket) (path : String) (data : Bytes) : List (Nat × Element) :=
  elementsOf b path 1 (lines data)

theorem allElements_eq (b : Bracket) (path : String) (data : Bytes) :
    allElements b path data
      = (numbered 1 (((lines data).map Text.decodeLossy).map
          (allMatches b.left.toList b.right.toList 0))).map
        fun p => (p.1, p.2.toElement path p.1) := by
  rw [allElements, elementsOf_eq, List.map_map]
  rfl

/-- Files that agree up to a hard stop have the same elements before it. -/
theorem heeded_allElements_eq {b : Bracket} {path : String} {data data' : Bytes}
    {ls more more' : List (List Char)} {front tail tail' : List Char}
    (h : (lines data).map Text.decodeLossy = ls ++ (front ++ tail) :: more)
    (h' : (lines data').map Text.decodeLossy = ls ++ (front ++ tail') :: more')
    (hstop : ∃ m ∈ allMatches b.left.toList b.right.toList 0 front,
      String.ofList (Text.trim m.inner) = "%stop!") :
    heeded (allElements b path data') = heeded (allElements b path data) := by
  have hfront : ∃ p ∈ (numbered 1 ((ls ++ [front]).map
      (allMatches b.left.toList b.right.toList 0))).map fun p => (p.1, p.2.toElement path p.1),
      p.2.text = "%stop!" := by
    obtain ⟨m, hm, htext⟩ := hstop
    refine ⟨_, List.mem_map.2 ⟨(1 + ls.length, m), ?_, rfl⟩, htext⟩
    rw [List.map_append, numbered_append, List.mem_append, List.length_map, List.map_singleton,
      numbered_cons]
    exact .inr (List.mem_append_left _ (List.mem_map.2 ⟨m, hm, rfl⟩))
  rw [allElements_eq, allElements_eq, h, h', heeded_eq_of_prefix (prefix_numbered.map _) hfront,
    heeded_eq_of_prefix (prefix_numbered.map _) hfront]

/-! ### Scans -/

theorem scan_eq_heeded (b : Bracket) (path : String) (data : Bytes) :
    scan b path data = applyPragmas path false (heeded (allElements b path data)) :=
  (applyPragmas_heeded path false _).symm

/-- **What a scan makes of pragmas.** Delimiters of which one is empty are refused. With any others,
only the elements before the first `%stop!` count. If the pragmas among them alternate, then the
elements reported are those that have as many `%stop` as `%cont` before them, also if the file ends
where reporting is suspended. Otherwise there is a first pragma with which they no longer alternate,
and its line is the one that the fault names, also where reporting is suspended. So nothing behind a
`%stop!` has any influence, be it on the same line or on a later one. -/
theorem scanText_pragmas (b : Bracket) (path : String) (data : Bytes) :
    (b.isUsable = false → scanText b path data = .error (.config (.bracket b)))
      ∧ (b.isUsable = true → Alternate (heeded (allElements b path data)) →
          scanText b path data = .ok (reported (heeded (allElements b path data))))
      ∧ (¬ Alternate (heeded (allElements b path data)) →
          ∃ p, FirstBreach (heeded (allElements b path data)) p ∧ IsPragma p.2.text)
      ∧ (∀ p, b.isUsable = true → FirstBreach (heeded (allElements b path data)) p →
          scanText b path data = .error (.scan ⟨path, p.1, faultOf p.2.text⟩))
      ∧ ∀ (data' : Bytes) (ls more more' : List (List Char)) (front tail tail' : List Char),
          (lines data).map Text.decodeLossy = ls ++ (front ++ tail) :: more →
          (lines data').map Text.decodeLossy = ls ++ (front ++ tail') :: more' →
          (∃ m ∈ allMatches b.left.toList b.right.toList 0 front,
            String.ofList (Text.trim m.inner) = "%stop!") →
          scanText b path data' = scanText b path data := by
  refine ⟨?_, ?_, exists_firstBreach, ?_, ?_⟩
  · intro hb
    rw [scanText, Bracket.check, hb]
    rfl
  · intro hb halternate
    have hrun := @applyPragmas_append path _ halternate []
    rw [List.append_nil] at hrun
    rw [scanText_eq_scan hb, scan_eq_heeded, hrun, applyPragmas]
    show Except.ok (reported (heeded (allElements b path data)) ++ []) = _
    rw [List.append_nil]
  · intro p hb hbreach
    have hstop : p.2.text ≠ "%stop!" := by
      obtain ⟨front, rest, heq, -⟩ := hbreach
      have hmem : p ∈ heeded (allElements b path data) := by
        rw [heq]
        exact List.mem_append_right _ List.mem_cons_self
      simpa using List.mem_takeWhile_imp hmem
    rw [scanText_eq_scan hb, scan_eq_heeded, hbreach.applyPragmas_eq hstop]
    rfl
  · intro data' ls more more' front tail tail' h h' hstop
    rw [scanText, scanText, scan_eq_heeded, scan_eq_heeded, heeded_allElements_eq h h' hstop]

/-- A file in which reporting is suspended across a line end, with a pragma that is none behind a
hard stop. -/
def suspendedOnce : String :=
  "[# a #] [# %stop #]\n[# b #] [# %cont #] [# c #] [# %stop! #] [# %what #]\n[# d #]"

/-- The same pragma where reporting is suspended. -/
def brokenOff : String :=
  "[# a #]\n[# %stop #]\n[# b #] [# %what #] [# %stop! #]"

theorem scanText_pragmas_suspendedOnce :
    scanText .standard "f" (Bytes.ofString suspendedOnce)
        = .ok [⟨"a", ⟨"f", 1, 1, 7⟩⟩, ⟨"c", ⟨"f", 2, 21, 27⟩⟩]
      ∧ scanText .standard "f" (Bytes.ofString brokenOff)
        = .error (.scan ⟨"f", 3, .unknown "%what"⟩) := by
  constructor
  · have halternate : Alternate (heeded (allElements .standard "f"
        (Bytes.ofString suspendedOnce))) := by decide +kernel
    rw [(scanText_pragmas .standard "f" (Bytes.ofString suspendedOnce)).2.1 rfl halternate]
    decide +kernel
  · obtain ⟨-, -, -, hfault, -⟩ := scanText_pragmas .standard "f" (Bytes.ofString brokenOff)
    refine hfault (3, ⟨"%what", ⟨"f", 3, 9, 19⟩⟩) rfl ⟨[(1, ⟨"a", ⟨"f", 1, 1, 7⟩⟩),
      (2, ⟨"%stop", ⟨"f", 2, 1, 11⟩⟩), (3, ⟨"b", ⟨"f", 3, 1, 7⟩⟩)], [], ?_, ?_, ?_⟩
    · decide +kernel
    · decide +kernel
    · decide +kernel

end Scan

end CrossTag
