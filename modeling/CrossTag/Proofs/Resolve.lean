import CrossTag.Index.Resolve
import CrossTag.Proofs.Location
import CrossTag.Proofs.Outcome

/-!
# Navigation between entries

Navigation finds its own place among the entries found and takes the one beside it. It works with
positions in a list; what it means is a matter of locations:

    next   the first entry that stands after the place
    prev   the last entry that stands before it

The two agree because entries of one name stand in the order of their locations, so an entry that
is alone at its place has all earlier ones in front of it and all later ones behind it
(`find?_after`, `findRev?_before`). That order is the order of the index, from which leaving
entries out takes nothing away (`Index.referents_inOrder`).

The entries found for a tag that stands in the index always include the tag itself, since every
entry lies within its own scope (`Entry.isReferredBy_self`). They may also include queries: only
the answers to a query leave those out (`Index.not_isSearch_of_accepts`).
-/

namespace CrossTag

open Outcome

/-- Entries of one name are ordered by their locations. -/
theorem Entry.loc_le_of_canonicalLe {a b : Entry} (hname : a.name = b.name)
    (h : canonicalLe a b = true) : a.loc.le b.loc = true := by
  have heq : compare a.name b.name = .eq := Std.compare_eq_iff_eq.2 hname
  simpa [canonicalLe, canonicalCmp, compareLex, compareOn, heq, Location.le] using h

/-! ### Places in a list -/

/-- The number of entries at a location. -/
def countAt (loc : Location) (found : List Entry) : Nat :=
  found.countP (·.loc = loc)

/-- No entry stands before one that is listed in front of it. -/
def InOrder (found : List Entry) : Prop :=
  found.Pairwise fun a b => a.loc.le b.loc = true

theorem length_positionsAt (loc : Location) (start : Nat) (found : List Entry) :
    (positionsAt loc start found).length = countAt loc found := by
  induction found generalizing start with
  | nil => rfl
  | cons e found ih =>
    by_cases he : e.loc = loc
    · simpa [positionsAt, countAt, he] using ih (start + 1)
    · simpa [positionsAt, countAt, he] using ih (start + 1)

theorem positionsAt_of_absent {loc : Location} {found : List Entry}
    (h : ∀ e ∈ found, e.loc ≠ loc) (start : Nat) : positionsAt loc start found = [] := by
  apply List.eq_nil_of_length_eq_zero
  rw [length_positionsAt, countAt, List.countP_eq_zero]
  intro e he
  simpa using h e he

theorem positionsAt_append (loc : Location) (start : Nat) (before after : List Entry) :
    positionsAt loc start (before ++ after)
      = positionsAt loc start before ++ positionsAt loc (start + before.length) after := by
  induction before generalizing start with
  | nil => rfl
  | cons e before ih =>
    have hstart : start + (e :: before).length = start + 1 + before.length := by
      simp only [List.length_cons]
      omega
    rw [List.cons_append, positionsAt, positionsAt, ih, hstart]
    split
    · rfl
    · rfl

/-- An entry that is alone at its place divides the list. -/
theorem exists_split_of_countAt {loc : Location} {found : List Entry}
    (h : countAt loc found = 1) :
    ∃ before e after, found = before ++ e :: after ∧ e.loc = loc
      ∧ (∀ x ∈ before, x.loc ≠ loc) ∧ ∀ x ∈ after, x.loc ≠ loc := by
  have hpos : 0 < found.countP (·.loc = loc) := by
    rw [← countAt, h]
    exact Nat.one_pos
  obtain ⟨e, hmem, he⟩ := List.countP_pos_iff.1 hpos
  obtain ⟨before, after, rfl⟩ := List.append_of_mem hmem
  -- The one entry that was counted is `e`, so none is left for the two sides.
  have hcount : before.countP (·.loc = loc) + after.countP (·.loc = loc) = 0 := by
    rw [countAt, List.countP_append, List.countP_cons, if_pos he] at h
    omega
  refine ⟨before, e, after, rfl, by simpa using he, ?_, ?_⟩
  · have hbefore := List.countP_eq_zero.1 (Nat.eq_zero_of_add_eq_zero_right hcount)
    intro x hx
    simpa using hbefore x hx
  · have hafter := List.countP_eq_zero.1 (Nat.eq_zero_of_add_eq_zero_left hcount)
    intro x hx
    simpa using hafter x hx

section Alone

variable {before after : List Entry} {e : Entry} {loc : Location}

/-- Around an entry that is alone at its place, what stands before it is listed in front of it
and what stands after it is listed behind it. -/
theorem InOrder.sides (h : InOrder (before ++ e :: after)) (he : e.loc = loc)
    (hbefore : ∀ x ∈ before, x.loc ≠ loc) (hafter : ∀ x ∈ after, x.loc ≠ loc) :
    (∀ x ∈ before, x.loc < loc) ∧ ∀ x ∈ after, loc < x.loc := by
  obtain ⟨-, hbehind, hacross⟩ := List.pairwise_append.1 h
  obtain ⟨hbehind, -⟩ := List.pairwise_cons.1 hbehind
  subst he
  refine ⟨?_, ?_⟩
  · intro x hx
    exact Location.lt_of_le_of_ne (hacross x hx e List.mem_cons_self) (hbefore x hx)
  · intro x hx
    exact Location.lt_of_le_of_ne (hbehind x hx) (hafter x hx).symm

theorem find?_after (he : e.loc = loc) (hbefore : ∀ x ∈ before, x.loc < loc)
    (hafter : ∀ x ∈ after, loc < x.loc) :
    (before ++ e :: after).find? (fun x => loc < x.loc) = after.head? := by
  have hnone : before.find? (fun x => loc < x.loc) = none := by
    rw [List.find?_eq_none]
    intro x hx
    simpa using Location.lt_asymm (hbefore x hx)
  have hself : ¬ loc < e.loc := he ▸ Location.lt_irrefl _
  rw [List.find?_append, hnone, Option.none_or, List.find?_cons_of_neg (by simpa using hself)]
  cases after with
  | nil => rfl
  | cons x after => exact List.find?_cons_of_pos (by simpa using hafter x List.mem_cons_self)

theorem findRev?_before (he : e.loc = loc) (hbefore : ∀ x ∈ before, x.loc < loc)
    (hafter : ∀ x ∈ after, loc < x.loc) :
    (before ++ e :: after).findRev? (fun x => x.loc < loc) = before.getLast? := by
  have hnone : after.reverse.find? (fun x => x.loc < loc) = none := by
    rw [List.find?_eq_none]
    intro x hx
    simpa using Location.lt_asymm (hafter x (List.mem_reverse.1 hx))
  have hself : ¬ e.loc < loc := he ▸ Location.lt_irrefl _
  rw [List.findRev?_eq_find?_reverse, List.reverse_append, List.reverse_cons, List.append_assoc,
    List.find?_append, hnone, Option.none_or, List.singleton_append,
    List.find?_cons_of_neg (by simpa using hself), ← List.head?_reverse]
  cases hrev : before.reverse with
  | nil => rfl
  | cons x rest =>
    have hx : x ∈ before := List.mem_reverse.1 (hrev ▸ List.mem_cons_self)
    exact List.find?_cons_of_pos (by simpa using hbefore x hx)

end Alone

/-! ### Navigation -/

/-- The entry beside a location in the direction of a mode: the first that stands after it, or
the last that stands before it. -/
def nearest? (found : List Entry) (loc : Location) : Mode → Option Entry
  | .all => none
  | .next => found.find? fun e => loc < e.loc
  | .prev => found.findRev? fun e => e.loc < loc

/-- What navigation answers when there is nothing to go on to. -/
def offEnd (found : List Entry) (mode : Mode) (cyclic : Bool) : List Entry :=
  if cyclic then (farEnd? found mode).toList else []

section Navigate

variable {found : List Entry} {loc : Location} {mode : Mode}

/-- Taking the entry beside a position, once it is known that there are not two of them. -/
theorem navigate_of_positions (hmode : mode ≠ .all) (cyclic : Bool)
    (h : countAt loc found ≤ 1) :
    navigate found loc mode cyclic
      = .ok (match neighbour? found mode (positionsAt loc 0 found).head? with
          | some e => [e]
          | none => offEnd found mode cyclic) := by
  rw [← length_positionsAt loc 0] at h
  have hstep : ∀ neighbour : Option Entry,
      (match neighbour with
        | some e => .ok [e]
        | none => .ok (if cyclic then (farEnd? found mode).toList else []))
      = (.ok (match neighbour with
          | some e => [e]
          | none => offEnd found mode cyclic) : Except ResolveError (List Entry)) := by
    intro neighbour
    cases neighbour with
    | none => rfl
    | some e => rfl
  unfold navigate
  match hpositions : positionsAt loc 0 found with
  | [] =>
    -- From nowhere there is no neighbour in either direction.
    cases mode with
    | all => exact absurd rfl hmode
    | next | prev => rfl
  | [i] =>
    cases mode with
    | all => exact absurd rfl hmode
    | next | prev => exact hstep _
  | i :: j :: rest => simp [hpositions] at h

theorem navigate_of_two (hmode : mode ≠ .all) (cyclic : Bool) (h : 2 ≤ countAt loc found) :
    navigate found loc mode cyclic = .error (.ambiguous loc) := by
  rw [← length_positionsAt loc 0] at h
  obtain ⟨i, j, rest, hpositions⟩ : ∃ i j rest, positionsAt loc 0 found = i :: j :: rest := by
    match hp : positionsAt loc 0 found with
    | [] => simp [hp] at h
    | [i] => simp [hp] at h
    | i :: j :: rest => exact ⟨i, j, rest, rfl⟩
  unfold navigate
  rw [hpositions]
  cases mode with
  | all => exact absurd rfl hmode
  | next => rfl
  | prev => rfl

theorem navigate_of_none (hmode : mode ≠ .all) (cyclic : Bool) (h : countAt loc found = 0) :
    navigate found loc mode cyclic = .ok (offEnd found mode cyclic) := by
  have hnil : positionsAt loc 0 found = [] := by
    apply List.eq_nil_of_length_eq_zero
    rw [length_positionsAt, h]
  rw [navigate_of_positions hmode cyclic (by omega), hnil]
  cases mode <;> rfl

/-- The entry listed next to a place that lies between two parts of a list. -/
def beside? (before after : List Entry) : Mode → Option Entry
  | .all => none
  | .next => after.head?
  | .prev => before.getLast?

/-- From an entry that is alone at its place, navigation goes on to the one listed next to it. -/
theorem navigate_of_split {before after : List Entry} {e : Entry} (hmode : mode ≠ .all)
    (cyclic : Bool) (he : e.loc = loc) (hbefore : ∀ x ∈ before, x.loc ≠ loc)
    (hafter : ∀ x ∈ after, x.loc ≠ loc) :
    navigate (before ++ e :: after) loc mode cyclic
      = .ok (match beside? before after mode with
          | some e => [e]
          | none => offEnd (before ++ e :: after) mode cyclic) := by
  -- Its position is the length of what is listed in front of it.
  have hposition : positionsAt loc 0 (before ++ e :: after) = [before.length] := by
    rw [positionsAt_append, positionsAt_of_absent hbefore, positionsAt, if_pos he,
      positionsAt_of_absent hafter, List.nil_append, Nat.zero_add]
  have hone : countAt loc (before ++ e :: after) = 1 := by
    rw [← length_positionsAt loc 0, hposition, List.length_singleton]
  have hneighbour : neighbour? (before ++ e :: after) mode (some before.length)
      = beside? before after mode := by
    cases mode with
    | all => exact absurd rfl hmode
    | next =>
      rw [beside?, neighbour?, List.getElem?_append_right (by omega)]
      simp [List.head?_eq_getElem?]
    | prev =>
      -- At the front of the list there is no position to go back to.
      cases hlen : before.length with
      | zero =>
        rw [List.length_eq_zero_iff.1 hlen]
        rfl
      | succ n =>
        rw [beside?, neighbour?, List.getElem?_append_left (by omega), List.getLast?_eq_getElem?,
          hlen]
        rfl
  rw [navigate_of_positions hmode cyclic (by omega), hposition, List.head?_cons, hneighbour]

/-- In a list in order, that is the nearest one. -/
theorem navigate_of_one (hsorted : InOrder found) (hmode : mode ≠ .all) (cyclic : Bool)
    (h : countAt loc found = 1) :
    navigate found loc mode cyclic
      = .ok (match nearest? found loc mode with
          | some e => [e]
          | none => offEnd found mode cyclic) := by
  obtain ⟨before, e, after, rfl, he, hbefore, hafter⟩ := exists_split_of_countAt h
  rw [navigate_of_split hmode cyclic he hbefore hafter]
  obtain ⟨hbefore, hafter⟩ := hsorted.sides he hbefore hafter
  have hnearest : nearest? (before ++ e :: after) loc mode = beside? before after mode := by
    cases mode with
    | all => rfl
    | next => exact find?_after he hbefore hafter
    | prev => exact findRev?_before he hbefore hafter
  rw [hnearest]

/-- The far end lies behind, so it is never the nearest entry ahead. -/
theorem farEnd?_ne_nearest? (hsorted : InOrder found) (h : 0 < countAt loc found) {e : Entry}
    (he : nearest? found loc mode = some e) : farEnd? found mode ≠ some e := by
  obtain ⟨x, hmem, hx⟩ := List.countP_pos_iff.1 h
  have hloc : x.loc = loc := by simpa using hx
  intro hend
  cases mode with
  | all => cases he
  | next =>
    have hafter : x.loc < e.loc := by
      rw [hloc]
      simpa using List.find?_some he
    obtain ⟨rest, rfl⟩ := List.head?_eq_some_iff.1 hend
    rcases List.mem_cons.1 hmem with rfl | hrest
    · exact Location.lt_irrefl _ hafter
    · exact Location.not_lt_of_le ((List.pairwise_cons.1 hsorted).1 x hrest) hafter
  | prev =>
    have hbefore : e.loc < x.loc := by
      rw [hloc]
      rw [nearest?, List.findRev?_eq_find?_reverse] at he
      simpa using List.find?_some he
    obtain ⟨front, rfl⟩ := List.getLast?_eq_some_iff.1 hend
    rcases List.mem_append.1 hmem with hfront | hlast
    · have hle := (List.pairwise_append.1 hsorted).2.2 x hfront e List.mem_cons_self
      exact Location.not_lt_of_le hle hbefore
    · rw [List.mem_singleton.1 hlast] at hbefore
      exact Location.lt_irrefl _ hbefore

/-- Navigation runs off an end exactly if it starts nowhere, or alone at a place with nothing
ahead of it. -/
theorem navigate_eq_offEnd_iff (hsorted : InOrder found) (hmode : mode ≠ .all) (cyclic : Bool) :
    navigate found loc mode cyclic = .ok (offEnd found mode cyclic) ↔
      countAt loc found = 0 ∨ countAt loc found = 1 ∧ nearest? found loc mode = none := by
  constructor
  · intro h
    by_cases hnone : countAt loc found = 0
    · exact .inl hnone
    · by_cases hone : countAt loc found = 1
      · refine .inr ⟨hone, ?_⟩
        rw [navigate_of_one hsorted hmode cyclic hone] at h
        cases hnear : nearest? found loc mode with
        | none => rfl
        | some e =>
          -- It would have to be the far end, where nothing ahead can stand.
          rw [hnear] at h
          have hfar := farEnd?_ne_nearest? hsorted (by omega) hnear
          have hoff : offEnd found mode cyclic = [e] := (Except.ok.inj h).symm
          unfold offEnd at hoff
          split at hoff
          · exact absurd (Option.toList_eq_singleton_iff.1 hoff) hfar
          · cases hoff
      · rw [navigate_of_two hmode cyclic (by omega)] at h
        cases h
  · rintro (hnone | ⟨hone, hnear⟩)
    · exact navigate_of_none hmode cyclic hnone
    · rw [navigate_of_one hsorted hmode cyclic hone, hnear]

/-- Navigation answers nothing but entries that were found. -/
theorem mem_of_navigate {cyclic : Bool} {entries : List Entry}
    (h : navigate found loc mode cyclic = .ok entries) {e : Entry} (he : e ∈ entries) :
    e ∈ found := by
  unfold navigate at h
  split at h
  · cases h
    exact he
  · cases h
  · split at h
    · rename_i x hneighbour
      cases h
      rw [List.mem_singleton.1 he]
      unfold neighbour? at hneighbour
      split at hneighbour
      · exact List.mem_of_getElem? hneighbour
      · exact List.mem_of_getElem? hneighbour
      · cases hneighbour
    · cases h
      split at he
      · rw [Option.mem_toList] at he
        unfold farEnd? at he
        split at he
        · exact List.mem_of_getLast? he
        · exact List.mem_of_head? he
      · cases he

end Navigate

/-! ### Scopes -/

namespace Entry

theorem isWithin_self (scope : String) : isWithin scope scope = true := by
  unfold isWithin
  split
  · exact List.isPrefixOf_iff_prefix.2 (List.prefix_refl _)
  · exact beq_self_eq_true scope

/-- Every entry can refer to itself. -/
theorem isReferredBy_self (e : Entry) : e.isReferredBy e = true := by
  unfold isReferredBy
  split
  · rename_i hscope
    rw [hscope]
    rfl
  · exact isWithin_self e.scope

end Entry

/-! ### Resolving -/

namespace Index

variable {index : Index} {what : Entry} {options : ResolveOptions} {mode : Mode}

theorem mem_referents_iff {e : Entry} :
    e ∈ index.referents what ↔
      e ∈ index.entries ∧ e.name = what.name ∧ e.isReferredBy what = true := by
  simp [referents]

theorem referents_canonical (index : Index) (what : Entry) :
    (index.referents what).Pairwise fun a b => Entry.canonicalLe a b = true :=
  index.sorted.filter _

/-- What a tag refers to has one name, so it stands in the order of the locations. -/
theorem referents_inOrder (index : Index) (what : Entry) : InOrder (index.referents what) := by
  refine (referents_canonical index what).imp_of_mem ?_
  intro a b ha hb hle
  have hname : a.name = b.name :=
    (mem_referents_iff.1 ha).2.1.trans (mem_referents_iff.1 hb).2.1.symm
  exact Entry.loc_le_of_canonicalLe hname hle

theorem resolve_of_concrete (hwhat : what.isSearch = false) (hmode : options.mode = .ok mode) :
    index.resolve what options
      = (navigate (index.referents what) what.loc mode options.cyclic).map (⟨·, []⟩) := by
  simp only [resolve, hmode, hwhat]
  rfl

theorem resolve_of_query (hwhat : what.isSearch = true) (hmode : options.mode = .ok mode) :
    index.resolve what options = (what.query.mapError .invalidSearch).map fun query =>
      ⟨index.entries.filter query.accepts, if mode = .all then [] else [navigationIgnored]⟩ := by
  simp only [resolve, hmode, hwhat]
  rfl

/-- A tag in the index is among the entries that it refers to. -/
theorem mem_referents_self {e : Entry} (he : e ∈ index.entries) : e ∈ index.referents e :=
  mem_referents_iff.2 ⟨he, rfl, e.isReferredBy_self⟩

/-- What navigation from a location among the entries found is to answer. `ahead` is the entry to
go on to, and `turn` the one at which a cyclic search starts again. -/
structure Navigates (found : List Entry) (loc : Location) (cyclic : Bool)
    (ahead turn : Option Entry) (answer : Except ResolveError Resolution) : Prop where
  ambiguous_iff : answer = .error (.ambiguous loc) ↔ 2 ≤ countAt loc found
  goesOn : countAt loc found = 1 → ∀ e, ahead = some e → answer = .ok ⟨[e], []⟩
  runsOff : countAt loc found = 0 ∨ countAt loc found = 1 ∧ ahead = none →
    answer = .ok ⟨if cyclic then turn.toList else [], []⟩

theorem navigates_resolve (hwhat : what.isSearch = false) (hmode : options.mode = .ok mode)
    (hne : mode ≠ .all) :
    Navigates (index.referents what) what.loc options.cyclic
      (nearest? (index.referents what) what.loc mode) (farEnd? (index.referents what) mode)
      (index.resolve what options) := by
  have hsorted := referents_inOrder index what
  rw [resolve_of_concrete hwhat hmode]
  refine ⟨⟨?_, ?_⟩, ?_, ?_⟩
  · intro herror
    have hcount : countAt what.loc (index.referents what) = 0
        ∨ countAt what.loc (index.referents what) = 1
        ∨ 2 ≤ countAt what.loc (index.referents what) := by omega
    rcases hcount with hnone | hone | htwo
    · rw [navigate_of_none hne _ hnone] at herror
      cases herror
    · rw [navigate_of_one hsorted hne _ hone] at herror
      cases herror
    · exact htwo
  · intro htwo
    rw [navigate_of_two hne _ htwo]
    rfl
  · intro hone e he
    rw [navigate_of_one hsorted hne _ hone, he]
    rfl
  · intro hoff
    rw [(navigate_eq_offEnd_iff hsorted hne _).2 hoff]
    rfl

/-- **Navigation follows the locations of the entries in sight.** A tag that is no query refers to
the entries of its name that it can see, in canonical order. Going on from it leads to the first of
them after its location or to the last before it, and to the other end if there is none and the
search is cyclic; two entries at the location are an error. A tag that is in the index always finds
itself. -/
theorem resolve_concrete (index : Index) :
    (∀ (what : Entry) (cyclic : Bool), what.isSearch = false →
      let found := index.referents what
      found.Pairwise (fun a b => Entry.canonicalLe a b = true)
        ∧ index.resolve what { cyclic := cyclic } = .ok ⟨found, []⟩
        ∧ Navigates found what.loc cyclic (found.find? fun e => what.loc < e.loc) found.head?
            (index.resolve what { next := true, cyclic := cyclic })
        ∧ Navigates found what.loc cyclic (found.findRev? fun e => e.loc < what.loc) found.getLast?
            (index.resolve what { prev := true, cyclic := cyclic }))
      ∧ (∀ e : Entry, e.isReferredBy e = true)
      ∧ ∀ e ∈ index.entries, e ∈ index.referents e ∧ 0 < countAt e.loc (index.referents e) := by
  refine ⟨?_, Entry.isReferredBy_self, ?_⟩
  · intro what cyclic hwhat
    have hall : ResolveOptions.mode { cyclic := cyclic } = .ok .all := rfl
    have hnext : ResolveOptions.mode { next := true, cyclic := cyclic } = .ok .next := rfl
    have hprev : ResolveOptions.mode { prev := true, cyclic := cyclic } = .ok .prev := rfl
    refine ⟨referents_canonical index what, ?_, ?_, ?_⟩
    · exact resolve_of_concrete hwhat hall
    · exact navigates_resolve hwhat hnext (by decide)
    · exact navigates_resolve hwhat hprev (by decide)
  · intro e he
    have hself := mem_referents_self he
    exact ⟨hself, List.countP_pos_iff.2 ⟨e, hself, by simp⟩⟩

/-- A tag of one name, at the start of a line. -/
def meowAt (path : String) (line : UInt32) : Entry :=
  ⟨"meow", .empty, ⟨path, line, 1, 10⟩⟩

/-- An index in which the last place is taken twice. -/
def twoAtTheEnd : Index where
  entries := [meowAt "a.rs" 1, meowAt "a.rs" 2, meowAt "b.rs" 1, meowAt "b.rs" 1]
  sorted := by decide

theorem resolve_twoAtTheEnd :
    (meowAt "a.rs" 2).isSearch = false
      ∧ twoAtTheEnd.resolve (meowAt "a.rs" 2) { next := true } = .ok ⟨[meowAt "b.rs" 1], []⟩
      ∧ twoAtTheEnd.resolve (meowAt "a.rs" 2) { prev := true } = .ok ⟨[meowAt "a.rs" 1], []⟩
      ∧ twoAtTheEnd.resolve (meowAt "a.rs" 9) { prev := true, cyclic := true }
        = .ok ⟨[meowAt "b.rs" 1], []⟩
      ∧ twoAtTheEnd.resolve (meowAt "b.rs" 1) { next := true }
        = .error (.ambiguous ⟨"b.rs", 1, 1, 10⟩) := by
  obtain ⟨hresolve, -, -⟩ := resolve_concrete twoAtTheEnd
  obtain ⟨-, -, hnext, hprev⟩ := hresolve (meowAt "a.rs" 2) false rfl
  obtain ⟨-, -, -, hnowhere⟩ := hresolve (meowAt "a.rs" 9) true rfl
  obtain ⟨-, -, htwice, -⟩ := hresolve (meowAt "b.rs" 1) false rfl
  refine ⟨rfl, ?_, ?_, ?_, ?_⟩
  · exact hnext.goesOn (by decide) _ (by decide)
  · exact hprev.goesOn (by decide) _ (by decide)
  · exact hnowhere.runsOff (.inl (by decide))
  · exact htwice.ambiguous_iff.2 (by decide)

/-! ### Queries -/

/-- Queries are left out of the answers to a query. -/
theorem not_isSearch_of_accepts {query : Entry.Query} {e : Entry} (h : query.accepts e = true) :
    e.isSearch = false := by
  simp only [Entry.Query.accepts, Bool.and_eq_true, Bool.not_eq_true'] at h
  exact h.1.1

/-- **When a resolution is free of queries.** It is for every tag that is a query itself. Any other
tag is answered without queries in all modes exactly if it can see no query that bears its name. -/
theorem resolve_noQueries_iff (index : Index) (what : Entry) :
    (∀ options resolution, index.resolve what options = .ok resolution →
        ∀ e ∈ resolution.entries, e.isSearch = false)
      ↔ what.isSearch = true
        ∨ ∀ e ∈ index.entries, e.name = what.name → e.isReferredBy what = true →
            e.isSearch = false := by
  constructor
  · intro h
    cases hwhat : what.isSearch with
    | true => exact .inl rfl
    | false =>
      -- Asked for all entries, the tag is answered by everything that it refers to.
      have hall : ResolveOptions.mode {} = .ok .all := rfl
      have hresolve : index.resolve what {} = .ok ⟨index.referents what, []⟩ :=
        resolve_of_concrete hwhat hall
      refine .inr ?_
      intro e he hname hsees
      exact h {} _ hresolve e (mem_referents_iff.2 ⟨he, hname, hsees⟩)
  · intro h options resolution hresolve e he
    cases hmode : options.mode with
    | error error =>
      simp only [resolve, hmode] at hresolve
      cases hresolve
    | ok mode =>
      cases hwhat : what.isSearch with
      | true =>
        rw [resolve_of_query hwhat hmode] at hresolve
        obtain ⟨query, -, rfl⟩ := map_eq_ok_iff.1 hresolve
        exact not_isSearch_of_accepts (List.mem_filter.1 he).2
      | false =>
        rw [resolve_of_concrete hwhat hmode] at hresolve
        obtain ⟨entries, hnavigate, rfl⟩ := map_eq_ok_iff.1 hresolve
        obtain ⟨hmem, hname, hsees⟩ := mem_referents_iff.1 (mem_of_navigate hnavigate he)
        rw [hwhat] at h
        exact (h.resolve_left (by decide)) e hmem hname hsees

/-- A query for the name that `meowAt` has. -/
def meowQuery : Entry :=
  ⟨"meow", Attrs.empty.insert Entry.searchKey "exact", ⟨"a.rs", 5, 1, 10⟩⟩

/-- An index of a tag and a query for its name. -/
def tagAndQuery : Index where
  entries := [meowAt "a.rs" 1, meowQuery]
  sorted := by decide

/-- A tag that is no query is answered by queries that bear its name. -/
theorem resolve_tagAndQuery :
    tagAndQuery.resolve (meowAt "a.rs" 1) {} = .ok ⟨[meowAt "a.rs" 1, meowQuery], []⟩
      ∧ meowQuery.isSearch = true
      ∧ ¬ ∀ (index : Index) (what : Entry) (options : ResolveOptions) (resolution : Resolution),
          index.resolve what options = .ok resolution →
            ∀ e ∈ resolution.entries, e.isSearch = false := by
  have hresolve : tagAndQuery.resolve (meowAt "a.rs" 1) {}
      = .ok ⟨[meowAt "a.rs" 1, meowQuery], []⟩ := rfl
  have hquery : meowQuery.isSearch = true := by decide
  refine ⟨hresolve, hquery, ?_⟩
  intro h
  have hnot := h tagAndQuery (meowAt "a.rs" 1) {} _ hresolve meowQuery (by simp)
  rw [hquery] at hnot
  cases hnot

end Index

end CrossTag
