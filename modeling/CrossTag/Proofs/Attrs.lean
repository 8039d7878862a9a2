import CrossTag.Attrs
import CrossTag.Proofs.Pairs

/-!
# Attributes as finite maps

Attributes are a sorted list of pairs, but everything that reads or sets them is told apart by
`get?` alone: an insertion changes the value under one key, and two maps that answer alike are
equal. So a map may be filled in any order of its keys, and the order in which a text lists
attributes leaves no trace in the result.
-/

namespace CrossTag.Attrs

/-! ### Answers -/

/-- The pairs of a map are those that `get?` answers. -/
theorem mem_pairs_iff {attrs : Attrs} {key value : String} :
    (key, value) ∈ attrs.pairs ↔ attrs.get? key = some value := by
  obtain ⟨ps, hsorted⟩ := attrs
  show (key, value) ∈ ps ↔ ps.lookup key = some value
  induction ps with
  | nil => simp
  | cons p ps ih =>
    obtain ⟨k, v⟩ := p
    obtain ⟨hhead, htail⟩ := List.pairwise_cons.1 hsorted
    rw [Pairs.lookup_cons, List.mem_cons, ih htail]
    by_cases hk : key = k
    · -- A second pair under the same key would not be above the first one.
      have hnot : ps.lookup key ≠ some value := fun h =>
        String.lt_irrefl k (hk ▸ hhead _ ((ih htail).2 h))
      simp [hk, hk ▸ hnot, eq_comm]
    · simp [hk]

theorem mem_keys_iff {attrs : Attrs} {key : String} :
    key ∈ attrs.keys ↔ ∃ value, attrs.get? key = some value := by
  simp [keys, ← mem_pairs_iff]

theorem keys_sorted (attrs : Attrs) : attrs.keys.Pairwise (· < ·) :=
  List.pairwise_map.2 attrs.sorted

theorem nodup_keys (attrs : Attrs) : attrs.keys.Nodup := by
  refine attrs.keys_sorted.imp ?_
  rintro key _ hlt rfl
  exact String.lt_irrefl key hlt

/-- Two maps with the same answers are equal. -/
theorem ext_get? {a b : Attrs} (h : ∀ key, a.get? key = b.get? key) : a = b := by
  have hmem : ∀ p, p ∈ a.pairs ↔ p ∈ b.pairs := by
    intro p
    rw [mem_pairs_iff, mem_pairs_iff, h]
  have nodup : ∀ {attrs : Attrs}, attrs.pairs.Nodup := by
    intro attrs
    refine attrs.sorted.imp ?_
    rintro p q hlt rfl
    exact String.lt_irrefl _ hlt
  have hperm : a.pairs.Perm b.pairs := (List.perm_ext_iff_of_nodup nodup nodup).2 hmem
  have hpairs : a.pairs = b.pairs :=
    hperm.eq_of_pairwise (fun p q _ _ hpq hqp => absurd hpq (String.lt_asymm hqp))
      a.sorted b.sorted
  cases a
  cases b
  cases hpairs
  rfl

/-! ### Setting values -/

@[simp] theorem get?_empty (key : String) : empty.get? key = none := rfl

theorem lookup_insertPair (key value k : String) (ps : List (String × String)) :
    (insertPair key value ps).lookup k = if k = key then some value else ps.lookup k := by
  induction ps with
  | nil => exact Pairs.lookup_cons key value k []
  | cons p ps ih =>
    obtain ⟨k', v'⟩ := p
    simp only [insertPair]
    split
    · exact Pairs.lookup_cons key value k _
    · split
      · rename_i hlt
        have hne : key ≠ k' := fun h => String.lt_irrefl key (h ▸ hlt)
        rw [Pairs.lookup_cons, Pairs.lookup_cons, ih]
        by_cases hk : k = key
        · simp [hk, hne]
        · simp [hk]
      · rename_i hge hle
        have heq : key = k' := String.le_antisymm hle hge
        rw [Pairs.lookup_cons, Pairs.lookup_cons, ← heq]
        by_cases hk : k = key
        · simp [hk]
        · simp [hk]

@[simp] theorem get?_insert (attrs : Attrs) (key value k : String) :
    (attrs.insert key value).get? k = if k = key then some value else attrs.get? k :=
  lookup_insertPair key value k attrs.pairs

theorem contains_eq_false_iff {attrs : Attrs} {key : String} :
    attrs.contains key = false ↔ attrs.get? key = none := by
  simp [contains]

/-- Of two pairs with one key, the later one answers. -/
theorem get?_ofList (pairs : List (String × String)) (key : String) :
    (ofList pairs).get? key = pairs.reverse.lookup key := by
  rw [ofList, List.foldl_eq_foldr_reverse]
  induction pairs.reverse with
  | nil => rfl
  | cons p ps ih =>
    obtain ⟨k, v⟩ := p
    rw [List.foldr_cons, get?_insert, Pairs.lookup_cons, ih]

/-- If no key comes twice, every pair answers. -/
theorem get?_ofList_eq_some_iff {pairs : List (String × String)} (hkeys : (pairs.map (·.1)).Nodup)
    {key value : String} : (ofList pairs).get? key = some value ↔ (key, value) ∈ pairs := by
  rw [get?_ofList]
  constructor
  · intro h
    exact List.mem_reverse.1 (Pairs.mem_of_lookup h)
  · intro h
    refine Pairs.lookup_of_mem ?_ (List.mem_reverse.2 h)
    rw [List.map_reverse]
    exact (List.reverse_perm _).nodup_iff.2 hkeys

end CrossTag.Attrs
