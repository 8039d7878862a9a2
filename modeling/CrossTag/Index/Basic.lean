import CrossTag.Entry

/-!
# Indexes

An index is a collection of entries in canonical order, by name and then by location. Entries
that agree in both stay in the order in which they came, and nothing is merged. The order is
part of the type: sorting is stable, and leaving entries out cannot break it.
-/

namespace CrossTag

/-- Entries in canonical order. -/
structure Index where
  entries : List Entry
  sorted : entries.Pairwise fun a b => Entry.canonicalLe a b = true
deriving DecidableEq

namespace Index

/-- The index without entries. -/
def empty : Index := ⟨[], .nil⟩

instance : Inhabited Index := ⟨empty⟩

/-- The index of a list of entries. -/
def ofList (entries : List Entry) : Index :=
  ⟨entries.mergeSort Entry.canonicalLe,
    List.pairwise_mergeSort Entry.canonicalLe_trans Entry.canonicalLe_total entries⟩

/-- Adds entries; those that are in the index already stay in front of new ones with the same
name and location. -/
def add (index : Index) (entries : List Entry) : Index :=
  ofList (index.entries ++ entries)

/-- The number of entries. -/
def size (index : Index) : Nat :=
  index.entries.length

/-- True if there are no entries. -/
def isEmpty (index : Index) : Bool :=
  index.entries.isEmpty

/-- The entries that a condition selects. -/
def filter (index : Index) (p : Entry → Bool) : Index :=
  ⟨index.entries.filter p, index.sorted.filter p⟩

end Index

end CrossTag
