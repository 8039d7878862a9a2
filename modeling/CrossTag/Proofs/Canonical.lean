import CrossTag.Proofs.Index

/-!
# Indexes are canonical

An index can be built in one go or in many steps. To compare the two, an index is taken apart into
the lists of its entries at each name and location (`entriesAt`), of which three things are shown:

    sorting      leaves every one of these lists as it is           `entriesAt_ofList`
    comparing    two indexes with the same lists are equal          `ext_entriesAt`
    editing      acts on each of these lists by itself              `apply_ofList`

So an index never knows how it came about: whatever was done to it, it is the sorted form of the
plain list to which the same was done (`run_eq_ofList`). Only where two different entries agree in
name and location does it show in which order they were supplied.
-/

namespace CrossTag

/-! ### Stable sorting -/

/-- **Sorting is stable:** members of a list that are in order already keep that order. -/
theorem filter_mergeSort {α : Type} {le : α → α → Bool}
    (htrans : ∀ a b c : α, le a b = true → le b c = true → le a c = true)
    (htotal : ∀ a b : α, (le a b || le b a) = true) {p : α → Bool} {xs : List α}
    (h : (xs.filter p).Pairwise fun a b => le a b = true) :
    (xs.mergeSort le).filter p = xs.filter p := by
  -- What is in order is not torn apart, so it is still there in its order.
  have hkept : (xs.filter p).Sublist (xs.mergeSort le) :=
    List.sublist_mergeSort htrans htotal h List.filter_sublist
  have hsub : (xs.filter p).Sublist ((xs.mergeSort le).filter p) := by
    have hself : (xs.filter p).filter p = xs.filter p := by simp
    rw [← hself]
    exact hkept.filter _
  -- And nothing else came to it.
  have hlength := ((List.mergeSort_perm xs le).filter p).length_eq
  exact (hsub.eq_of_length hlength.symm).symm

/-! ### The order of entries -/

namespace Entry

/-- `a` stands no later than `b`: by name, then by path, line, start and end. -/
def InSequence (a b : Entry) : Prop :=
  a.name < b.name ∨ a.name = b.name ∧
    (a.loc.path < b.loc.path ∨ a.loc.path = b.loc.path ∧
      (a.loc.line < b.loc.line ∨ a.loc.line = b.loc.line ∧
        (a.loc.startColumn < b.loc.startColumn ∨ a.loc.startColumn = b.loc.startColumn ∧
          a.loc.endColumn ≤ b.loc.endColumn)))

theorem canonicalLe_iff {a b : Entry} : canonicalLe a b = true ↔ a.InSequence b := by
  have hstring : ∀ {s t : String}, compare s t = .lt ↔ s < t := compareOfLessAndEq_eq_lt
  show ((compare a.name b.name).then (Location.cmp a.loc b.loc)).isLE = true ↔ _
  -- Each part decides if it differs and leaves the decision to the next one if it does not.
  simp only [Location.cmp, compareLex, compareOn, Ordering.isLE_then_iff_or, hstring,
    Std.compare_eq_lt, Std.compare_eq_iff_eq, Std.isLE_compare, InSequence]

/-- Entries that stand no later than each other agree in name and location. -/
theorem samePlace_of_canonicalLe {a b : Entry} (hab : canonicalLe a b = true)
    (hba : canonicalLe b a = true) : a.name = b.name ∧ a.loc = b.loc := by
  have heq : canonicalCmp a b = .eq := Std.OrientedCmp.isLE_antisymm hab hba
  rw [canonicalCmp, compareLex_eq_eq] at heq
  exact ⟨Std.compare_eq_iff_eq.1 heq.1, Std.compare_eq_iff_eq.1 heq.2⟩

theorem canonicalLe_of_samePlace {a b : Entry} (hname : a.name = b.name) (hloc : a.loc = b.loc) :
    canonicalLe a b = true := by
  have heq : canonicalCmp a b = .eq :=
    compareLex_eq_eq.2 ⟨Std.compare_eq_iff_eq.2 hname, Std.compare_eq_iff_eq.2 hloc⟩
  simp [canonicalLe, heq]

end Entry

namespace Index

/-! ### Entries at one place -/

/-- The entries with a given name and location, as they follow each other in a list. -/
def entriesAt (name : String) (loc : Location) (entries : List Entry) : List Entry :=
  entries.filter fun e => e.name = name ∧ e.loc = loc

section EntriesAt

variable {name : String} {loc : Location}

theorem mem_entriesAt_iff {entries : List Entry} {e : Entry} :
    e ∈ entriesAt name loc entries ↔ e ∈ entries ∧ e.name = name ∧ e.loc = loc := by
  simp [entriesAt]

@[simp] theorem entriesAt_append (xs ys : List Entry) :
    entriesAt name loc (xs ++ ys) = entriesAt name loc xs ++ entriesAt name loc ys :=
  List.filter_append xs ys

/-- It does not matter whether entries are selected before or after a place is looked at. -/
@[simp] theorem entriesAt_filter (p : Entry → Bool) (entries : List Entry) :
    entriesAt name loc (entries.filter p) = (entriesAt name loc entries).filter p := by
  simp only [entriesAt, List.filter_filter]
  congr 1
  funext e
  exact Bool.and_comm _ _

theorem entriesAt_cons (e : Entry) (entries : List Entry) :
    entriesAt name loc (e :: entries)
      = if e.name = name ∧ e.loc = loc then e :: entriesAt name loc entries
        else entriesAt name loc entries := by
  simp [entriesAt, List.filter_cons]

/-- Entries at one place are in order however they are listed. -/
theorem entriesAt_pairwise (entries : List Entry) :
    (entriesAt name loc entries).Pairwise fun a b => Entry.canonicalLe a b = true := by
  apply List.pairwise_of_forall_mem_list
  intro a ha b hb
  obtain ⟨-, hname, hloc⟩ := mem_entriesAt_iff.1 ha
  obtain ⟨-, hname', hloc'⟩ := mem_entriesAt_iff.1 hb
  exact Entry.canonicalLe_of_samePlace (hname.trans hname'.symm) (hloc.trans hloc'.symm)

end EntriesAt

/-! ### Sorting -/

theorem ofList_perm (entries : List Entry) : (ofList entries).entries.Perm entries :=
  List.mergeSort_perm entries _

/-- Sorting keeps the entries at each place as they were supplied. -/
@[simp] theorem entriesAt_ofList (name : String) (loc : Location) (entries : List Entry) :
    entriesAt name loc (ofList entries).entries = entriesAt name loc entries :=
  filter_mergeSort Entry.canonicalLe_trans Entry.canonicalLe_total (entriesAt_pairwise entries)

theorem mem_iff_of_entriesAt {xs ys : List Entry}
    (h : ∀ name loc, entriesAt name loc xs = entriesAt name loc ys) (e : Entry) :
    e ∈ xs ↔ e ∈ ys := by
  have hplace : e ∈ entriesAt e.name e.loc xs ↔ e ∈ entriesAt e.name e.loc ys := by rw [h]
  simpa [mem_entriesAt_iff] using hplace

/-- Sorted lists with the same entries at every place are equal. -/
theorem eq_of_entriesAt {xs ys : List Entry}
    (hxs : xs.Pairwise fun a b => Entry.canonicalLe a b = true)
    (hys : ys.Pairwise fun a b => Entry.canonicalLe a b = true)
    (h : ∀ name loc, entriesAt name loc xs = entriesAt name loc ys) : xs = ys := by
  induction xs generalizing ys with
  | nil =>
    symm
    apply List.eq_nil_iff_forall_not_mem.2
    intro e he
    exact absurd ((mem_iff_of_entriesAt h e).2 he) (by simp)
  | cons a xs ih =>
    cases ys with
    | nil => exact absurd ((mem_iff_of_entriesAt h a).1 List.mem_cons_self) (by simp)
    | cons b ys =>
      have hle : ∀ {x y : Entry} {rest : List Entry}, y ∈ x :: rest →
          (∀ z ∈ rest, Entry.canonicalLe x z = true) → Entry.canonicalLe x y = true := by
        intro x y rest hy hrest
        rcases List.mem_cons.1 hy with rfl | hy
        · exact Entry.canonicalLe_of_samePlace rfl rfl
        · exact hrest y hy
      obtain ⟨hahead, hxs'⟩ := List.pairwise_cons.1 hxs
      obtain ⟨hbhead, hys'⟩ := List.pairwise_cons.1 hys
      -- Each of the two heads is somewhere in the other list, so neither stands before the other.
      obtain ⟨hname, hloc⟩ := Entry.samePlace_of_canonicalLe
        (hle ((mem_iff_of_entriesAt h b).2 List.mem_cons_self) hahead)
        (hle ((mem_iff_of_entriesAt h a).1 List.mem_cons_self) hbhead)
      -- Hence both are the first at one place.
      have hhead : a = b := by
        have hplace := h a.name a.loc
        rw [entriesAt_cons, entriesAt_cons, if_pos ⟨rfl, rfl⟩,
          if_pos ⟨hname.symm, hloc.symm⟩] at hplace
        exact (List.cons.inj hplace).1
      subst hhead
      have htail : ∀ name loc, entriesAt name loc xs = entriesAt name loc ys := by
        intro name loc
        have hplace := h name loc
        rw [entriesAt_cons, entriesAt_cons] at hplace
        split at hplace
        · exact (List.cons.inj hplace).2
        · exact hplace
      rw [ih hxs' hys' htail]

/-- Indexes with the same entries at every place are equal. -/
theorem ext_entriesAt {a b : Index}
    (h : ∀ name loc, entriesAt name loc a.entries = entriesAt name loc b.entries) : a = b := by
  have hentries := eq_of_entriesAt a.sorted b.sorted h
  cases a
  cases b
  cases hentries
  rfl

/-- If entries that agree in name and location are equal, it does not matter in which order they
are supplied. -/
theorem ofList_eq_of_perm {xs ys : List Entry} (hperm : xs.Perm ys)
    (halike : ∀ a ∈ xs, ∀ b ∈ xs, a.name = b.name → a.loc = b.loc → a = b) :
    ofList xs = ofList ys := by
  have hperm' : (ofList xs).entries.Perm (ofList ys).entries :=
    (ofList_perm xs).trans (hperm.trans (ofList_perm ys).symm)
  have hentries : (ofList xs).entries = (ofList ys).entries := by
    refine hperm'.eq_of_pairwise ?_ (ofList xs).sorted (ofList ys).sorted
    intro a b ha hb hab hba
    obtain ⟨hname, hloc⟩ := Entry.samePlace_of_canonicalLe hab hba
    exact halike a (mem_ofList.1 ha) b (hperm.mem_iff.2 (mem_ofList.1 hb)) hname hloc
  apply ext_entriesAt
  intro name loc
  rw [hentries]

/-! ### Editing -/

/-- What can be done to an index: start it afresh from entries, add some, or keep those that a
condition selects. -/
inductive Edit
  | start (entries : List Entry)
  | add (entries : List Entry)
  | keep (p : Entry → Bool)

namespace Edit

def apply : Edit → Index → Index
  | start entries, _ => ofList entries
  | add entries, index => index.add entries
  | keep p, index => index.filter p

/-- The same on a list that nobody sorts. -/
def applyToList : Edit → List Entry → List Entry
  | start entries, _ => entries
  | add entries, supplied => supplied ++ entries
  | keep p, supplied => supplied.filter p

/-- Sorting first and editing then is editing first and sorting then. -/
theorem apply_ofList (edit : Edit) (supplied : List Entry) :
    edit.apply (ofList supplied) = ofList (edit.applyToList supplied) := by
  cases edit with
  | start entries => rfl
  | add entries =>
    apply ext_entriesAt
    intro name loc
    simp [apply, applyToList, Index.add]
  | keep p =>
    apply ext_entriesAt
    intro name loc
    simp [apply, applyToList, Index.filter]

end Edit

/-- The index after a sequence of edits, from the empty one on. -/
def run (edits : List Edit) : Index :=
  edits.foldl (fun index edit => edit.apply index) empty

/-- What a sequence of edits makes of a list that nobody sorts. -/
def supplied (edits : List Edit) : List Entry :=
  edits.foldl (fun entries edit => edit.applyToList entries) []

/-- An index is the sorted form of what was supplied, however it was built. -/
theorem run_eq_ofList (edits : List Edit) : run edits = ofList (supplied edits) := by
  have hrun : ∀ entries, edits.foldl (fun index edit => edit.apply index) (ofList entries)
      = ofList (edits.foldl (fun entries edit => edit.applyToList entries) entries) := by
    induction edits with
    | nil => exact fun _ => rfl
    | cons edit edits ih =>
      intro entries
      rw [List.foldl_cons, List.foldl_cons, edit.apply_ofList, ih]
  have hempty : empty = ofList [] := (ofList_entries empty).symm
  rw [run, hempty, hrun, supplied]

/-- **An index is a canonical collection of what was supplied.** Adding is the same as supplying
everything at once. After any edits the entries stand in the order of name, path, line, start and
end; they are those that were supplied, none lost and none twice; those at one place follow each
other as they were supplied; and sorting them again changes nothing. The order in which entries are
supplied matters only to different ones at one place. -/
theorem run_canonical :
    (∀ xs ys, (ofList xs).add ys = ofList (xs ++ ys))
      ∧ (∀ edits,
          (run edits).entries.Pairwise Entry.InSequence
            ∧ (run edits).entries.Perm (supplied edits)
            ∧ (∀ name loc, entriesAt name loc (run edits).entries
                = entriesAt name loc (supplied edits))
            ∧ ofList (run edits).entries = run edits)
      ∧ ∀ xs ys, xs.Perm ys →
          (∀ a ∈ xs, ∀ b ∈ xs, a.name = b.name → a.loc = b.loc → a = b) →
          ofList xs = ofList ys := by
  refine ⟨fun xs ys => (Edit.add ys).apply_ofList xs, ?_, fun xs ys => ofList_eq_of_perm⟩
  intro edits
  refine ⟨?_, ?_, ?_, ofList_entries _⟩
  · apply (run edits).sorted.imp
    intro a b hle
    exact Entry.canonicalLe_iff.1 hle
  · rw [run_eq_ofList]
    exact ofList_perm _
  · intro name loc
    rw [run_eq_ofList, entriesAt_ofList]

/-- Two copies of one tag, and two tags that only their name or only their place tells apart from
it. -/
def copiedTags : List Entry :=
  [⟨"b", .empty, ⟨"f.rs", 3, 5, 9⟩⟩, ⟨"a", Attrs.empty.insert "k" "", ⟨"f.rs", 3, 5, 9⟩⟩,
    ⟨"b", .empty, ⟨"f.rs", 3, 5, 9⟩⟩, ⟨"b", Attrs.empty.insert "k" "", ⟨"f.rs", 3, 5, 8⟩⟩]

theorem run_canonical_copiedTags :
    copiedTags.Perm copiedTags.reverse
      ∧ (∀ a ∈ copiedTags, ∀ b ∈ copiedTags, a.name = b.name → a.loc = b.loc → a = b)
      ∧ ofList copiedTags = ofList copiedTags.reverse := by
  have hperm : copiedTags.Perm copiedTags.reverse := copiedTags.reverse_perm.symm
  have halike : ∀ a ∈ copiedTags, ∀ b ∈ copiedTags, a.name = b.name → a.loc = b.loc → a = b := by
    decide
  obtain ⟨-, -, hsame⟩ := run_canonical
  exact ⟨hperm, halike, hsame _ _ hperm halike⟩

end Index

end CrossTag
