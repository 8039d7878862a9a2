import CrossTag.Index.Store
import CrossTag.Proofs.Outcome
import CrossTag.Proofs.Pairs

/-!
# What the writer writes

While an index is written, its text is in the draft. The invariant of writing says that the
draft is found under its path and is a file with certain bytes: a step that appends text puts
the bytes of that text behind them (`perform_append`), so a run of such steps leaves the bytes
of all texts, one after another (`run_appends`). Nothing but the draft has to be assumed about
the tree, since changing a file moves no path: a path that led somewhere still leads there
(`follow_put`).
-/

namespace CrossTag

open Outcome

namespace Tree

variable {t : Tree} {key : List String} {node : Node}

theorem ne_nil_of_isDirAt (h : t.isDirAt key = false) : key ≠ [] := by
  rintro rfl
  cases h

theorem node?_put (hkey : key ≠ []) (k : List String) :
    (t.put key node).node? k = if k = key then some node else t.node? k := by
  by_cases hroot : k = []
  · have hne : k ≠ key := fun h => hkey (h ▸ hroot)
    simp [node?, hroot, hroot ▸ hne]
  · have hrest := Pairs.lookup_filter (· != key) t.nodes k
    rw [node?, if_neg hroot, node?, if_neg hroot, put, List.lookup_append, hrest,
      Pairs.lookup_cons]
    by_cases hk : k = key
    · simp [hk]
    · simp [hk]

theorem isDirAt_put {k : List String} (hold : t.isDirAt key = false) (h : t.isDirAt k = true) :
    (t.put key node).isDirAt k = true := by
  have hne : k ≠ key := by
    rintro rfl
    rw [hold] at h
    cases h
  rw [isDirAt, node?_put (ne_nil_of_isDirAt hold), if_neg hne]
  exact h

/-- Putting a node where no directory stands moves no path. -/
theorem follow_put (hold : t.isDirAt key = false) {place pieces result : List String}
    (h : t.follow place pieces = .ok result) :
    (t.put key node).follow place pieces = .ok result := by
  induction pieces generalizing place with
  | nil => exact h
  | cons piece rest ih =>
    rw [follow] at h ⊢
    split at h
    · rename_i hdir
      rw [if_pos (isDirAt_put hold hdir)]
      split at h
      · rename_i hhere
        rw [if_pos hhere]
        exact ih h
      · rename_i hhere
        rw [if_neg hhere]
        split at h
        · rename_i hparent
          rw [if_pos hparent]
          exact ih h
        · rename_i hparent
          rw [if_neg hparent, node?_put (ne_nil_of_isDirAt hold)]
          split at h
          · -- The next place is taken, by what stood there or by the new node.
            rename_i old hnode
            rw [hnode]
            split
            · exact ih h
            · rename_i hnone
              split at hnone <;> cases hnone
          · cases h
    · cases h

theorem resolve_put (hold : t.isDirAt key = false) {written : String} {result : List String}
    (h : t.resolve written = .ok result) : (t.put key node).resolve written = .ok result := by
  rw [resolve] at h ⊢
  split at h
  · cases h
  · rename_i hempty
    rw [if_neg hempty]
    exact follow_put hold h

end Tree

namespace Store.Job

variable {job : Job} {t t' : Tree}

/-! ### The draft -/

/-- The draft is there and holds the given bytes. -/
def DraftHolds (job : Job) (t : Tree) (data : Bytes) : Prop :=
  ∃ key, job.draftKey t = .ok key ∧ t.node? key = some (.file data)

theorem draftKey_put {key : List String} {node : Node} (hold : t.isDirAt key = false)
    (h : job.draftKey t = .ok key) : job.draftKey (t.put key node) = .ok key := by
  obtain ⟨dir, hdir, hkey⟩ := bind_eq_ok_iff.1 h
  exact bind_eq_ok_iff.2 ⟨dir, Tree.resolve_put hold hdir, hkey⟩

theorem abandon_eq {key : List String} (h : job.draftKey t = .ok key) :
    job.abandon t = t.erase key := by
  -- Equations for `abandon` take the path of the draft apart, which is not needed here.
  delta abandon
  rw [h]

theorem draftHolds_put {key : List String} {data : Bytes} (hold : t.isDirAt key = false)
    (h : job.draftKey t = .ok key) : job.DraftHolds (t.put key (.file data)) data := by
  refine ⟨key, draftKey_put hold h, ?_⟩
  rw [Tree.node?_put (Tree.ne_nil_of_isDirAt hold), if_pos rfl]

/-- A draft that was just started is empty. -/
theorem draftHolds_of_start (h : job.perform t .startDraft = .ok t') : job.DraftHolds t' [] := by
  obtain ⟨key, hkey, h⟩ := bind_eq_ok_iff.1 h
  split at h
  · cases h
  · rename_i hfree
    cases h
    refine draftHolds_put ?_ hkey
    -- Nothing stood there before, so no directory did.
    cases hnode : t.node? key with
    | none => rw [Tree.isDirAt, hnode]; rfl
    | some node => exact absurd (by rw [hnode]; rfl) hfree

theorem perform_append {data : Bytes} (h : job.DraftHolds t data) (text : String) :
    ∃ t', job.perform t (.append text) = .ok t'
      ∧ job.DraftHolds t' (data ++ Bytes.ofString text) := by
  obtain ⟨key, hkey, hnode⟩ := h
  refine ⟨t.put key (.file (data ++ Bytes.ofString text)), ?_, ?_⟩
  · refine bind_eq_ok_iff.2 ⟨key, hkey, ?_⟩
    rw [hnode]
    rfl
  · refine draftHolds_put ?_ hkey
    rw [Tree.isDirAt, hnode]
    rfl

theorem ofString_append (a b : String) :
    Bytes.ofString (a ++ b) = Bytes.ofString a ++ Bytes.ofString b := by
  simp [Bytes.ofString, Text.encode]

/-! ### Runs -/

/-- A run succeeds if its first step does and the rest of it does. -/
theorem run_cons_eq_ok_iff {step : Step} {rest : List Step} :
    job.run t (step :: rest) = (t', .ok ()) ↔
      ∃ next, job.perform t step = .ok next ∧ job.run next rest = (t', .ok ()) := by
  rw [run]
  cases job.perform t step with
  | error fault => simp
  | ok next => simp

theorem run_append {front : List Step} (h : job.run t front = (t', .ok ())) (rest : List Step) :
    job.run t (front ++ rest) = job.run t' rest := by
  induction front generalizing t with
  | nil =>
    cases h
    rfl
  | cons step front ih =>
    obtain ⟨next, hstep, hrun⟩ := run_cons_eq_ok_iff.1 h
    rw [List.cons_append, run, hstep]
    exact ih hrun

/-- **Appending texts to a draft succeeds, and leaves the bytes of all of them behind what was
there.** -/
theorem run_appends {data : Bytes} (h : job.DraftHolds t data) (texts : List String) :
    ∃ t', job.run t (texts.map .append) = (t', .ok ())
      ∧ job.DraftHolds t' (data ++ Bytes.ofString (String.join texts)) := by
  induction texts generalizing t data with
  | nil => exact ⟨t, rfl, by simpa [Bytes.ofString, Text.encode] using h⟩
  | cons text texts ih =>
    obtain ⟨next, hstep, hnext⟩ := perform_append h text
    obtain ⟨t', hrun, ht'⟩ := ih hnext
    refine ⟨t', run_cons_eq_ok_iff.2 ⟨next, hstep, hrun⟩, ?_⟩
    rw [String.join_cons, ofString_append, ← List.append_assoc]
    exact ht'

/-- **Once its draft is started, an index is written up to the last two steps, and the draft
then holds the bytes of its text.** -/
theorem run_steps (hstart : job.run t [.makeDirectory, .startDraft] = (t', .ok ()))
    (index : Index) (comment : String) :
    ∃ written, job.run t (steps index comment) = job.run written [.sync, .publish]
      ∧ job.DraftHolds written (Bytes.ofString (index.serialize comment)) := by
  obtain ⟨made, -, hdraft⟩ := run_cons_eq_ok_iff.1 hstart
  obtain ⟨drafted, hdraft, hdone⟩ := run_cons_eq_ok_iff.1 hdraft
  cases hdone
  have hempty : job.DraftHolds t' [] := draftHolds_of_start hdraft
  obtain ⟨written, hrun, hwritten⟩ := run_appends hempty ((index.lines comment).map (· ++ "\n"))
  refine ⟨written, ?_, hwritten⟩
  have htext : job.run t' ((index.lines comment).map fun line => .append (line ++ "\n"))
      = (written, .ok ()) := by
    rw [← hrun, List.map_map]
    rfl
  rw [steps, List.append_assoc, run_append hstart, run_append htext]

end Store.Job

end CrossTag
