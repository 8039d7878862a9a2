/-!
# Attributes

The attributes of a tag are a finite map from keys to values, kept as a list of pairs with
strictly ascending keys. The order is part of the type, so two maps with the same pairs are
equal, and listing a map, writing it to a record or handing it to a command always follows
the order of the keys.
-/

namespace CrossTag

/-- A map from keys to values, listed in ascending order of the keys. -/
structure Attrs where
  pairs : List (String × String)
  sorted : pairs.Pairwise fun a b => a.1 < b.1
deriving DecidableEq

namespace Attrs

/-- No attributes. -/
def empty : Attrs := ⟨[], .nil⟩

instance : Inhabited Attrs := ⟨empty⟩

/-- The value under a key. -/
def get? (attrs : Attrs) (key : String) : Option String :=
  attrs.pairs.lookup key

/-- True if there is a value under `key`. -/
def contains (attrs : Attrs) (key : String) : Bool :=
  (attrs.get? key).isSome

/-- The keys in ascending order. -/
def keys (attrs : Attrs) : List String :=
  attrs.pairs.map (·.1)

/-- Puts a pair in its place, instead of one with the same key. -/
def insertPair (key value : String) : List (String × String) → List (String × String)
  | [] => [(key, value)]
  | p :: ps =>
    if key < p.1 then (key, value) :: p :: ps
    else if p.1 < key then p :: insertPair key value ps
    else (key, value) :: ps

/-- A key of the list after an insertion is the new one or an old one. -/
theorem fst_of_mem_insertPair {key value : String} {ps : List (String × String)}
    {q : String × String} (h : q ∈ insertPair key value ps) :
    q.1 = key ∨ ∃ p ∈ ps, p.1 = q.1 := by
  induction ps with
  | nil =>
    simp only [insertPair, List.mem_singleton] at h
    exact .inl (by simp [h])
  | cons p ps ih =>
    simp only [insertPair] at h
    split at h
    · rcases List.mem_cons.1 h with rfl | h
      · exact .inl rfl
      · exact .inr ⟨q, h, rfl⟩
    · split at h
      · rcases List.mem_cons.1 h with rfl | h
        · exact .inr ⟨q, List.mem_cons_self, rfl⟩
        · rcases ih h with h | ⟨r, hr, he⟩
          · exact .inl h
          · exact .inr ⟨r, List.mem_cons_of_mem _ hr, he⟩
      · rcases List.mem_cons.1 h with rfl | h
        · exact .inl rfl
        · exact .inr ⟨q, List.mem_cons_of_mem _ h, rfl⟩

/-- Insertion keeps the keys ascending. -/
theorem pairwise_insertPair {key value : String} {ps : List (String × String)}
    (h : ps.Pairwise fun a b => a.1 < b.1) :
    (insertPair key value ps).Pairwise fun a b => a.1 < b.1 := by
  induction ps with
  | nil => simp [insertPair]
  | cons p ps ih =>
    obtain ⟨hp, hps⟩ := List.pairwise_cons.1 h
    simp only [insertPair]
    split
    · rename_i hlt
      refine List.pairwise_cons.2 ⟨fun q hq => ?_, h⟩
      rcases List.mem_cons.1 hq with rfl | hq
      · exact hlt
      · exact String.lt_trans hlt (hp q hq)
    · split
      · rename_i hge hlt
        refine List.pairwise_cons.2 ⟨fun q hq => ?_, ih hps⟩
        rcases fst_of_mem_insertPair hq with hk | ⟨r, hr, he⟩
        · rw [hk]; exact hlt
        · rw [← he]; exact hp r hr
      · rename_i hge hle
        have heq : key = p.1 := String.le_antisymm hle hge
        refine List.pairwise_cons.2 ⟨fun q hq => ?_, hps⟩
        rw [heq]
        exact hp q hq

/-- Sets the value under a key. -/
def insert (attrs : Attrs) (key value : String) : Attrs :=
  ⟨insertPair key value attrs.pairs, pairwise_insertPair attrs.sorted⟩

/-- The map of a list of pairs; of two pairs with one key the later counts. -/
def ofList (pairs : List (String × String)) : Attrs :=
  pairs.foldl (fun attrs p => attrs.insert p.1 p.2) empty

/-- An attribute as it is shown: `key`, or `key=value` if the value is not empty. -/
def showPair (key value : String) : String :=
  if value.isEmpty then key else key ++ "=" ++ value

end Attrs

end CrossTag
