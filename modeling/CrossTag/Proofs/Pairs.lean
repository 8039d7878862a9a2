/-!
# Lists of pairs

Attributes and directory trees are kept as lists of pairs of a key and a value, of which the
first pair under a key answers for it. These laws say what `lookup` answers after a pair was put
in front and after some keys were taken out.
-/

namespace CrossTag.Pairs

variable {κ ν : Type} [DecidableEq κ] [BEq κ] [LawfulBEq κ]

theorem lookup_cons (key : κ) (value : ν) (k : κ) (ps : List (κ × ν)) :
    ((key, value) :: ps).lookup k = if k = key then some value else ps.lookup k := by
  by_cases hk : k = key
  · simp [hk]
  · have hbeq : (k == key) = false := by simpa using hk
    simp [List.lookup_cons, hbeq, hk]

/-- Restricting a list of pairs by their keys restricts the answers. -/
theorem lookup_filter (p : κ → Bool) (ps : List (κ × ν)) (key : κ) :
    (ps.filter fun q => p q.1).lookup key = if p key then ps.lookup key else none := by
  induction ps with
  | nil => simp
  | cons q ps ih =>
    obtain ⟨k, v⟩ := q
    by_cases hp : p k
    · rw [List.filter_cons_of_pos (by simpa using hp), lookup_cons, lookup_cons, ih]
      by_cases hk : key = k
      · simp [hk, hp]
      · simp [hk]
    · rw [List.filter_cons_of_neg (by simpa using hp), lookup_cons, ih]
      by_cases hk : key = k
      · simp [hk, hp]
      · simp [hk]

omit [DecidableEq κ] in
theorem mem_of_lookup {ps : List (κ × ν)} {key : κ} {value : ν}
    (h : ps.lookup key = some value) : (key, value) ∈ ps := by
  obtain ⟨before, after, rfl, -⟩ := List.lookup_eq_some_iff.1 h
  exact List.mem_append_right _ List.mem_cons_self

omit [DecidableEq κ] in
/-- If no key comes twice, every pair answers for its key. -/
theorem lookup_of_mem {ps : List (κ × ν)} (hkeys : (ps.map (·.1)).Nodup) {key : κ} {value : ν}
    (h : (key, value) ∈ ps) : ps.lookup key = some value := by
  obtain ⟨before, after, rfl⟩ := List.append_of_mem h
  refine List.lookup_eq_some_iff.2 ⟨before, after, rfl, ?_⟩
  intro p hp
  rw [List.map_append, List.map_cons, List.nodup_append] at hkeys
  have hne := hkeys.2.2 p.1 (List.mem_map_of_mem hp) key List.mem_cons_self
  simpa using Ne.symm hne

end CrossTag.Pairs
