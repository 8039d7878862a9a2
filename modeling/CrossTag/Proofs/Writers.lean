import Mathlib.Logic.Relation
import CrossTag.Proofs.Directories
import CrossTag.Proofs.Index
import CrossTag.Proofs.Reader

/-!
# Writers at work at the same time

Any number of calls write indexes to one file. Each of them does the steps of writing one after
another, and between two steps of one call the others may do any number of theirs. A step may fail
at any time, done in part; its call then removes the draft and has failed.

    a call      how far it is (`Progress`), what it may do next (`Moves`) and what it expects of
                the tree to go on (`Expects`)
    a move      changes directories that were missing, its own draft, or the file, and the file
                only when it finishes (`Moves.moved`)
    a session   the tree and how far every call is; in each session that is reached, everything in
                the tree is as it was, or a directory that was made, a draft of a call that is at
                work, or the file (`Sound.step`, `Sound.of_reaches`)

Drafts of two calls do not meet, since their names differ, and none of them is the file: this is
what carries `Expects` of one call over the moves of the others. `atomic_of_reaches` reads off what
this means for the file, and for what its path leads to. These two differ for a path that goes up
from something that is missing (`Tree.GoesUpFromMissing`): making a directory there changes no file,
but it opens the way to one that was there before.
-/

namespace CrossTag.Store

open Outcome

/-! ### Calls -/

/-- A call that writes an index: the name of its draft, and what it writes. -/
structure Call where
  draft : String
  index : Index
  comment : String

/-- How far a call is. -/
inductive Progress
  /-- It has steps left to do. If none is left, it is finished. -/
  | todo (rest : List Step)
  /-- A step failed, and the draft is still to be removed. -/
  | cleaning
  | failed
deriving DecidableEq, Repr

namespace Progress

/-- A call that has done all its steps. -/
abbrev finished : Progress := .todo []

/-- True of calls that have made a draft and neither published nor removed it. -/
def hasDraft : Progress → Bool
  | .todo [] => false
  | .todo (step :: _) => step.hasDraft
  | .cleaning => true
  | .failed => false

end Progress

/-- What a step that fails may leave: nothing, the first of the directories that it makes, or a
part of the text that it adds. -/
inductive Job.Leaves (job : Job) (t : Tree) : Step → Tree → Prop
  | nothing (step : Step) : Leaves job t step t
  | directories {t' : Tree} (n : Nat)
      (h : t.makeDirs (t.start (Path.directory job.target))
        ((Path.pieces (Path.directory job.target)).take n) = .ok t') :
      Leaves job t .makeDirectory t'
  | text {text : String} {key : List String} {data part : Bytes}
      (hpart : part <+: Bytes.ofString text)
      (hkey : job.draftKey t = .ok key) (hdata : t.node? key = some (.file data)) :
      Leaves job t (.append text) (t.put key (.file (data ++ part)))

namespace Call

/-- The bytes that the call writes. -/
def text (c : Call) : Bytes :=
  .ofString (c.index.serialize c.comment)

/-- The steps of the call. -/
def steps (c : Call) : List Step :=
  Store.steps c.index c.comment

/-- What the call works on. -/
def job (c : Call) (target : String) : Job :=
  ⟨target, c.draft⟩

/-- What a call may do next, in a tree. -/
inductive Moves (c : Call) (target : String) (t : Tree) : Progress → Tree → Progress → Prop
  | step {step : Step} {rest : List Step} {t' : Tree}
      (h : (c.job target).perform t step = .ok t') :
      Moves c target t (.todo (step :: rest)) t' (.todo rest)
  /-- A step fails, whatever it would do. The call is done if it has no draft. -/
  | fail {step : Step} {rest : List Step} {t' : Tree} (h : (c.job target).Leaves t step t') :
      Moves c target t (.todo (step :: rest)) t' (if step.hasDraft then .cleaning else .failed)
  | clean : Moves c target t .cleaning ((c.job target).abandon t) .failed

/-! ### What a call expects -/

variable {c : Call} {target : String} {t t' : Tree} {p p' : Progress} {key : List String}
  {data : Bytes}

/-- The path of the draft of a call, once the directory of the file is there. -/
def DraftAt (c : Call) (target : String) (t : Tree) (key : List String) : Prop :=
  ∃ dir, t.LeadsTo (Path.directory target) dir ∧ key = dir ++ [c.draft]

/-- The draft of a call is there and holds the given bytes. -/
def Drafted (c : Call) (target : String) (t : Tree) (data : Bytes) : Prop :=
  ∃ key, c.DraftAt target t key ∧ t.node? key = some (.file data)

/-- The texts that are added to the draft one after another. -/
def texts (c : Call) : List String :=
  (c.index.lines c.comment).map (· ++ "\n")

/-- The steps that are left when these texts are still to be added. -/
def remaining (texts : List String) : List Step :=
  texts.map .append ++ [.sync, .publish]

/-- What a call expects of the tree to go on: before it adds a text, that the draft holds all of
its bytes but those of the texts to come, and before it publishes the draft, all of them. -/
def Expects (c : Call) (target : String) (t : Tree) : Progress → Prop
  | .todo [] => True
  | .todo (.makeDirectory :: rest) => rest = .startDraft :: remaining c.texts
  | .todo (.startDraft :: rest) => rest = remaining c.texts ∧ ∃ key, c.DraftAt target t key
  | .todo (.append text :: rest) =>
    ∃ texts data, rest = remaining texts ∧ c.Drafted target t data
      ∧ data ++ .ofString (text ++ String.join texts) = c.text
  | .todo (.sync :: rest) => rest = [.publish] ∧ c.Drafted target t c.text
  | .todo (.publish :: rest) => rest = [] ∧ c.Drafted target t c.text
  | .cleaning => ∃ data, c.Drafted target t data
  | .failed => True

theorem steps_eq (c : Call) :
    c.steps = .makeDirectory :: .startDraft :: remaining c.texts := by
  simp [steps, Store.steps, remaining, texts]

theorem expects_steps (c : Call) (target : String) (t : Tree) :
    c.Expects target t (.todo c.steps) := by
  rw [steps_eq]
  rfl

theorem expects_remaining {texts : List String} (h : c.Drafted target t data)
    (htext : data ++ .ofString (String.join texts) = c.text) :
    c.Expects target t (.todo (remaining texts)) := by
  cases texts with
  | nil =>
    have hdata : data = c.text := by
      rw [← htext]
      simp [Bytes.ofString, Text.encode]
    exact ⟨rfl, hdata ▸ h⟩
  | cons text texts =>
    refine ⟨texts, data, rfl, h, ?_⟩
    rw [← htext, String.join_cons]

theorem hasDraft_remaining (texts : List String) :
    (Progress.todo (remaining texts)).hasDraft = true := by
  cases texts with
  | nil => rfl
  | cons text texts => rfl

namespace DraftAt

theorem unique {key' : List String} (h : c.DraftAt target t key) (h' : c.DraftAt target t key') :
    key' = key := by
  obtain ⟨dir, hdir, rfl⟩ := h
  obtain ⟨dir', hdir', rfl⟩ := h'
  rw [hdir.unique hdir']

theorem of_keepsDirs (hkeeps : t.KeepsDirs t') (h : c.DraftAt target t key) :
    c.DraftAt target t' key := by
  obtain ⟨dir, hdir, hkey⟩ := h
  exact ⟨dir, hkeeps.leadsTo hdir, hkey⟩

theorem draftKey (h : c.DraftAt target t key) : (c.job target).draftKey t = .ok key := by
  obtain ⟨dir, hdir, rfl⟩ := h
  exact bind_eq_ok_iff.2 ⟨dir, hdir.1, rfl⟩

theorem getLast?_eq (h : c.DraftAt target t key) : key.getLast? = some c.draft := by
  obtain ⟨dir, -, rfl⟩ := h
  exact List.getLast?_concat

/-- A draft is not the file, since the last names of the two differ. -/
theorem ne_place {t' : Tree} {key' : List String} (h : c.DraftAt target t key)
    (hapart : Path.lastStep? target ≠ some c.draft) (hplace : t'.place target = .ok key') :
    key ≠ key' := by
  rintro rfl
  exact hapart ((Tree.getLast?_of_place hplace).symm.trans h.getLast?_eq)

theorem put (h : c.DraftAt target t key) (ht : t.Proper) (hname : Path.IsName c.draft)
    (hold : t.isDirAt key = false) (node : Node) : (t.put key node).Proper := by
  obtain ⟨dir, hdir, rfl⟩ := h
  exact ht.put hdir.2 hname hold node

end DraftAt

theorem Expects.exists_drafted (h : c.Expects target t p) (hp : p.hasDraft = true) :
    ∃ data, c.Drafted target t data := by
  match p with
  | .todo [] => cases hp
  | .todo (.makeDirectory :: rest) => cases hp
  | .todo (.startDraft :: rest) => cases hp
  | .todo (.append text :: rest) =>
    obtain ⟨texts, data, -, hdata, -⟩ := h
    exact ⟨data, hdata⟩
  | .todo (.sync :: rest) => exact ⟨_, h.2⟩
  | .todo (.publish :: rest) => exact ⟨_, h.2⟩
  | .cleaning => exact h
  | .failed => cases hp

/-- What a call expects depends on directories and on its draft only. -/
theorem Expects.frame (h : c.Expects target t p) (hkeeps : t.KeepsDirs t')
    (hdraft : p.hasDraft = true → ∀ key, c.DraftAt target t key → t'.node? key = t.node? key) :
    c.Expects target t' p := by
  have hdrafted : p.hasDraft = true → ∀ {data}, c.Drafted target t data →
      c.Drafted target t' data := by
    rintro hp data ⟨key, hkey, hdata⟩
    exact ⟨key, hkey.of_keepsDirs hkeeps, (hdraft hp key hkey).trans hdata⟩
  match p with
  | .todo [] => trivial
  | .todo (.makeDirectory :: rest) => exact h
  | .todo (.startDraft :: rest) =>
    obtain ⟨hrest, key, hkey⟩ := h
    exact ⟨hrest, key, hkey.of_keepsDirs hkeeps⟩
  | .todo (.append text :: rest) =>
    obtain ⟨texts, data, hrest, hdata, htext⟩ := h
    exact ⟨texts, data, hrest, hdrafted rfl hdata, htext⟩
  | .todo (.sync :: rest) => exact ⟨h.1, hdrafted rfl h.2⟩
  | .todo (.publish :: rest) => exact ⟨h.1, hdrafted rfl h.2⟩
  | .cleaning =>
    obtain ⟨data, hdata⟩ := h
    exact ⟨data, hdrafted rfl hdata⟩
  | .failed => trivial

/-! ### Moves of one call -/

/-- How a move of a call may change what stands under a path. -/
inductive Change (c : Call) (target : String) (t : Tree) (p : Progress) (t' : Tree) (p' : Progress)
    (key : List String) : Prop
  | same (h : t'.node? key = t.node? key)
  | directory (hfree : t.node? key = none) (h : t'.node? key = some .dir)
  | draft (hkey : c.DraftAt target t key) (h : p.hasDraft = true ∨ p'.hasDraft = true)
  | published (hplace : t.place target = .ok key) (hp : p' = .finished)
      (h : t'.node? key = some (.file c.text))

/-- What a move of a call does. -/
structure Moved (c : Call) (target : String) (t : Tree) (p : Progress) (t' : Tree) (p' : Progress) :
    Prop where
  proper : t'.Proper
  keeps : t.KeepsDirs t'
  expects : c.Expects target t' p'
  changes : ∀ key, Change c target t p t' p' key
  /-- A draft is made where nothing stood. -/
  made : p'.hasDraft = true →
    p.hasDraft = true ∨ ∃ key, c.DraftAt target t key ∧ t.node? key = none
  /-- Nothing stands in the place of a draft that was given up or published. -/
  gone : p.hasDraft = true → p'.hasDraft = false →
    ∀ key, c.DraftAt target t key → t'.node? key = none

namespace Moved

theorem of_moreDirs (hproper : t'.Proper) (hmore : t.MoreDirs t') (hp : p'.hasDraft = p.hasDraft)
    (hexpects : c.Expects target t' p') : Moved c target t p t' p' where
  proper := hproper
  keeps := hmore.keepsDirs
  expects := hexpects
  changes key := by
    rcases hmore.nodes key with hsame | ⟨hfree, hdir⟩
    · exact .same hsame
    · exact .directory hfree hdir
  made h := .inl (hp ▸ h)
  gone h h' := by
    rw [hp, h] at h'
    cases h'

theorem of_put (ht : t.Proper) (hname : Path.IsName c.draft) (hkey : c.DraftAt target t key)
    (hold : t.isDirAt key = false) (hp' : p'.hasDraft = true)
    (hp : p.hasDraft = true ∨ t.node? key = none)
    (hexpects : c.Drafted target (t.put key (.file data)) data →
      c.Expects target (t.put key (.file data)) p') :
    Moved c target t p (t.put key (.file data)) p' := by
  have hput : ∀ k, (t.put key (.file data)).node? k
      = if k = key then some (.file data) else t.node? k :=
    Tree.node?_put (Tree.ne_nil_of_isDirAt hold)
  have hkeeps : t.KeepsDirs (t.put key (.file data)) := .put hold _
  refine ⟨hkey.put ht hname hold _, hkeeps, hexpects ?_, fun k => ?_, ?_, ?_⟩
  · exact ⟨key, hkey.of_keepsDirs hkeeps, by rw [hput, if_pos rfl]⟩
  · by_cases hk : k = key
    · exact .draft (hk ▸ hkey) (.inr hp')
    · exact .same (by rw [hput, if_neg hk])
  · exact fun _ => hp.imp_right fun hfree => ⟨key, hkey, hfree⟩
  · intro _ h'
    rw [hp'] at h'
    cases h'

/-- Where a file stood, a move makes no directory. -/
theorem sparesFiles (h : Moved c target t p t' p') : t.SparesFiles t' := by
  intro key data hfile
  cases h.changes key with
  | same hsame => exact Tree.isDirAt_of_file (hsame.trans hfile)
  | directory hfree _ =>
    rw [hfile] at hfree
    cases hfree
  | draft hkey hp =>
    cases hp' : p'.hasDraft with
    | true =>
      obtain ⟨_, key', hkey', hdata⟩ := h.expects.exists_drafted hp'
      rw [(hkey.of_keepsDirs h.keeps).unique hkey'] at hdata
      exact Tree.isDirAt_of_file hdata
    | false =>
      have hp := hp.resolve_right (by simp [hp'])
      exact Tree.isDirAt_of_none (h.gone hp hp' key hkey)
  | published _ _ hdata => exact Tree.isDirAt_of_file hdata

end Moved

theorem moved_step (ht : t.Proper) (hname : Path.IsName c.draft)
    (hapart : Path.lastStep? target ≠ some c.draft) {step : Step} {rest : List Step}
    (hexpects : c.Expects target t (.todo (step :: rest)))
    (h : (c.job target).perform t step = .ok t') :
    Moved c target t (.todo (step :: rest)) t' (.todo rest) := by
  cases step with
  | makeDirectory =>
    obtain ⟨hproper, hmore, dir, hdir⟩ := ht.createDirs (Path.directory_ne_empty target) h
    cases hexpects
    exact .of_moreDirs hproper hmore rfl ⟨rfl, _, dir, hdir, rfl⟩
  | startDraft =>
    obtain ⟨rfl, key, hkey⟩ := hexpects
    obtain ⟨_, hkey', h⟩ := bind_eq_ok_iff.1 h
    cases hkey.draftKey.symm.trans hkey'
    split at h
    · cases h
    · rename_i hfree
      cases h
      rw [Option.not_isSome_iff_eq_none] at hfree
      refine .of_put ht hname hkey (Tree.isDirAt_of_none hfree) (hasDraft_remaining _)
        (.inr hfree) fun hdrafted => ?_
      exact expects_remaining hdrafted rfl
  | append text =>
    obtain ⟨texts, data, rfl, ⟨key, hkey, hdata⟩, htext⟩ := hexpects
    obtain ⟨_, hkey', h⟩ := bind_eq_ok_iff.1 h
    cases hkey.draftKey.symm.trans hkey'
    rw [hdata] at h
    cases h
    refine .of_put ht hname hkey (Tree.isDirAt_of_file hdata) (hasDraft_remaining _)
      (.inl rfl) fun hdrafted => expects_remaining hdrafted ?_
    rw [← htext, Job.ofString_append, List.append_assoc]
  | sync =>
    obtain ⟨rfl, hdrafted⟩ := hexpects
    cases h
    exact .of_moreDirs ht (.refl t) rfl ⟨rfl, hdrafted⟩
  | publish =>
    obtain ⟨rfl, key, hkey, hdata⟩ := hexpects
    obtain ⟨_, hkey', h⟩ := bind_eq_ok_iff.1 h
    cases hkey.draftKey.symm.trans hkey'
    -- The draft takes the place of the file and leaves its own, which is another one.
    obtain ⟨place, hplace, -, hproper, hkeeps, hnodes⟩ := ht.rename hdata h
    refine ⟨hproper, hkeeps, trivial, fun k => ?_, nofun, fun _ _ key' hkey' => ?_⟩
    · by_cases hk : k = place
      · refine .published (hk ▸ hplace) rfl ?_
        rw [hnodes, if_pos hk]
      · by_cases hk' : k = key
        · exact .draft (hk' ▸ hkey) (.inl rfl)
        · exact .same (by rw [hnodes, if_neg hk, if_neg hk'])
    · cases hkey.unique hkey'
      rw [hnodes, if_neg (hkey.ne_place hapart hplace), if_pos rfl]

/-- A step that fails leaves directories, or a part of the draft that its call then removes. -/
theorem moved_fail (ht : t.Proper) (hname : Path.IsName c.draft) {step : Step} {rest : List Step}
    (hexpects : c.Expects target t (.todo (step :: rest))) (h : (c.job target).Leaves t step t') :
    Moved c target t (.todo (step :: rest)) t' (if step.hasDraft then .cleaning else .failed) := by
  cases h with
  | nothing =>
    cases hstep : step.hasDraft with
    | true => exact .of_moreDirs ht (.refl t) hstep.symm (hexpects.exists_drafted hstep)
    | false => exact .of_moreDirs ht (.refl t) hstep.symm trivial
  | directories n h =>
    obtain ⟨hproper, hmore, -⟩ :=
      ht.makeDirs (fun _ hmem => Path.no_separator_of_mem_pieces (List.mem_of_mem_take hmem)) h
    exact .of_moreDirs hproper hmore rfl trivial
  | text hpart hkey' hdata' =>
    obtain ⟨texts, data, rfl, ⟨key, hkey, hdata⟩, -⟩ := hexpects
    cases hkey.draftKey.symm.trans hkey'
    exact .of_put ht hname hkey (Tree.isDirAt_of_file hdata) rfl (.inl rfl) fun hdrafted =>
      ⟨_, hdrafted⟩

theorem moved_clean (ht : t.Proper) (hexpects : c.Expects target t .cleaning) :
    Moved c target t .cleaning ((c.job target).abandon t) .failed := by
  obtain ⟨data, key, hkey, hdata⟩ := hexpects
  rw [Job.abandon_eq hkey.draftKey]
  have hnodes := ht.node?_erase_file hdata
  refine ⟨ht.erase (Tree.isDirAt_of_file hdata), ht.keepsDirs_erase hdata, trivial, fun k => ?_,
    nofun, fun _ _ key' hkey' => ?_⟩
  · by_cases hk : k = key
    · exact .draft (hk ▸ hkey) (.inl rfl)
    · exact .same (by rw [hnodes, if_neg hk])
  · rw [hkey.unique hkey', hnodes, if_pos rfl]

/-- **A move changes missing directories, the draft of the call, or the file, and the file only
when the call finishes.** -/
theorem Moves.moved (h : c.Moves target t p t' p') (ht : t.Proper) (hname : Path.IsName c.draft)
    (hapart : Path.lastStep? target ≠ some c.draft) (hexpects : c.Expects target t p) :
    Moved c target t p t' p' := by
  cases h with
  | step h => exact moved_step ht hname hapart hexpects h
  | fail h => exact moved_fail ht hname hexpects h
  | clean => exact moved_clean ht hexpects

theorem Moves.not_finished (h : c.Moves target t p t' p') : p ≠ .finished := by
  cases h <;> nofun

/-- The text of an index of writable entries is read as this index. -/
theorem ofBytes_text (c : Call) (hentries : ∀ e ∈ c.index.entries, e.Writable)
    (hcomment : '\n' ∉ c.comment.toList) : ofBytes c.text = .ok c.index := by
  have hread : (Index.readText (c.index.serialize c.comment)).toIndex = .ok c.index :=
    Index.deserialize_serialize hentries hcomment
  rw [ofBytes, text, Index.readBytes_ofString, hread]
  rfl

end Call

/-! ### Sessions -/

/-- A tree, and how far every call is. -/
structure Session (ι : Type) where
  tree : Tree
  progress : ι → Progress

/-- The drafts of the calls have names of their own, which are not the name of the file. -/
structure DraftNames {ι : Type} (target : String) (calls : ι → Call) : Prop where
  isName : ∀ i, Path.IsName (calls i).draft
  distinct : ∀ {i j}, (calls i).draft = (calls j).draft → i = j
  apart : ∀ i, Path.lastStep? target ≠ some (calls i).draft

namespace Session

variable {ι : Type} {target : String} {calls : ι → Call} {t₀ : Tree} {s s' : Session ι} {i : ι}

/-- All calls are at their beginning. -/
def start (t : Tree) (calls : ι → Call) : Session ι :=
  ⟨t, fun i => .todo (calls i).steps⟩

/-- One call makes a move, and the others wait. -/
structure Acts (target : String) (calls : ι → Call) (i : ι) (s s' : Session ι) : Prop where
  move : (calls i).Moves target s.tree (s.progress i) s'.tree (s'.progress i)
  others : ∀ j, j ≠ i → s'.progress j = s.progress j

/-- A session that may come after another, with moves of any calls in any order. -/
def Reaches (target : String) (calls : ι → Call) : Session ι → Session ι → Prop :=
  Relation.ReflTransGen fun s s' => ∃ i, Acts target calls i s s'

/-- Where what stands under a path comes from. -/
inductive Accounted (target : String) (calls : ι → Call) (t₀ : Tree) (s : Session ι)
    (key : List String) : Prop
  | initial (h : s.tree.node? key = t₀.node? key)
  | directory (hfree : t₀.node? key = none) (h : s.tree.node? key = some .dir)
  | draft (i : ι) (hkey : (calls i).DraftAt target s.tree key)
      (h : (s.progress i).hasDraft = true)
  | published (i : ι) (hplace : s.tree.place target = .ok key) (hp : s.progress i = .finished)
      (h : s.tree.node? key = some (.file (calls i).text))

/-- What holds in every session. -/
structure Sound (target : String) (calls : ι → Call) (t₀ : Tree) (s : Session ι) : Prop where
  proper : s.tree.Proper
  keeps : t₀.KeepsDirs s.tree
  expects : ∀ i, (calls i).Expects target s.tree (s.progress i)
  accounted : ∀ key, Accounted target calls t₀ s key
  /-- Drafts stand where nothing stood. -/
  fresh : ∀ i, (s.progress i).hasDraft = true →
    ∀ key, (calls i).DraftAt target s.tree key → t₀.node? key = none

theorem sound_start (ht : t₀.Proper) : Sound target calls t₀ (start t₀ calls) where
  proper := ht
  keeps := .refl t₀
  expects i := (calls i).expects_steps target t₀
  accounted _ := .initial rfl
  fresh i h := by
    change (Progress.todo (calls i).steps).hasDraft = true at h
    rw [Call.steps_eq] at h
    cases h

namespace Sound

theorem node?_draft (hs : Sound target calls t₀ s) {key : List String}
    (hkey : (calls i).DraftAt target s.tree key) (h : (s.progress i).hasDraft = true) :
    ∃ data, s.tree.node? key = some (.file data) := by
  obtain ⟨data, key', hkey', hdata⟩ := (hs.expects i).exists_drafted h
  rw [hkey.unique hkey'] at hdata
  exact ⟨data, hdata⟩

/-- Where nothing stands in a session, nothing stood at the start. -/
theorem initial_free (hs : Sound target calls t₀ s) {key : List String}
    (hfree : s.tree.node? key = none) : t₀.node? key = none := by
  cases hs.accounted key with
  | initial h => rw [← h, hfree]
  | directory h => exact h
  | draft j hkey h =>
    obtain ⟨data, hdata⟩ := hs.node?_draft hkey h
    rw [hfree] at hdata
    cases hdata
  | published j hplace hp h =>
    rw [hfree] at h
    cases h

theorem moved (hs : Sound target calls t₀ s) (hnames : DraftNames target calls)
    (h : Acts target calls i s s') :
    (calls i).Moved target s.tree (s.progress i) s'.tree (s'.progress i) :=
  h.move.moved hs.proper (hnames.isName i) (hnames.apart i) (hs.expects i)

/-- A move of one call leaves the drafts of the others alone. -/
theorem expects_step (hs : Sound target calls t₀ s) (hnames : DraftNames target calls)
    (h : Acts target calls i s s') (j : ι) :
    (calls j).Expects target s'.tree (s'.progress j) := by
  have hmoved := hs.moved hnames h
  by_cases hj : j = i
  · rw [hj]
    exact hmoved.expects
  · -- The draft of `j` is a file, so no directory is made there; it has another name than the
    -- draft of `i`, and another than the file.
    rw [h.others j hj]
    refine (hs.expects j).frame hmoved.keeps fun hp key hkey => ?_
    cases hmoved.changes key with
    | same h => exact h
    | directory hfree _ =>
      obtain ⟨data, hdata⟩ := hs.node?_draft hkey hp
      rw [hfree] at hdata
      cases hdata
    | draft hkey' _ =>
      have hname := hkey.getLast?_eq.symm.trans hkey'.getLast?_eq
      exact absurd (hnames.distinct (Option.some.inj hname)) hj
    | published hplace _ _ => exact absurd rfl (hkey.ne_place (hnames.apart j) hplace)

theorem fresh_step (hs : Sound target calls t₀ s) (hnames : DraftNames target calls)
    (h : Acts target calls i s s') (j : ι) (hp : (s'.progress j).hasDraft = true)
    (key : List String) (hkey : (calls j).DraftAt target s'.tree key) : t₀.node? key = none := by
  have hmoved := hs.moved hnames h
  have hold : (s.progress j).hasDraft = true → t₀.node? key = none := by
    intro hp
    obtain ⟨data, key', hkey', -⟩ := (hs.expects j).exists_drafted hp
    rw [(hkey'.of_keepsDirs hmoved.keeps).unique hkey]
    exact hs.fresh j hp key' hkey'
  by_cases hj : j = i
  · subst hj
    -- A draft that was just made stands where nothing stood, and so nothing stood there at all.
    rcases hmoved.made hp with hp | ⟨key', hkey', hfree⟩
    · exact hold hp
    · rw [(hkey'.of_keepsDirs hmoved.keeps).unique hkey]
      exact hs.initial_free hfree
  · rw [h.others j hj] at hp
    exact hold hp

theorem accounted_step (hs : Sound target calls t₀ s) (hnames : DraftNames target calls)
    (h : Acts target calls i s s') (key : List String) : Accounted target calls t₀ s' key := by
  have hmoved := hs.moved hnames h
  have hdraft : (calls i).DraftAt target s.tree key →
      (s.progress i).hasDraft = true ∨ (s'.progress i).hasDraft = true →
      Accounted target calls t₀ s' key := by
    intro hkey hp
    cases hp' : (s'.progress i).hasDraft with
    | true => exact .draft i (hkey.of_keepsDirs hmoved.keeps) hp'
    | false =>
      -- The draft is gone, and nothing stood there before it.
      have hp := hp.resolve_right (by simp [hp'])
      refine .initial ?_
      rw [hmoved.gone hp hp' key hkey, hs.fresh i hp key hkey]
  cases hmoved.changes key with
  | directory hfree hdir => exact .directory (hs.initial_free hfree) hdir
  | draft hkey hp => exact hdraft hkey hp
  | published hplace hp hdata => exact .published i (hmoved.keeps.place hplace) hp hdata
  | same hsame =>
    cases hs.accounted key with
    | initial hnode => exact .initial (hsame.trans hnode)
    | directory hfree hdir => exact .directory hfree (hsame.trans hdir)
    | draft j hkey hp =>
      by_cases hj : j = i
      · subst hj
        exact hdraft hkey (.inl hp)
      · exact .draft j (hkey.of_keepsDirs hmoved.keeps) (by rw [h.others j hj]; exact hp)
    | published j hplace hp hdata =>
      -- A call that is finished makes no more moves.
      have hj : j ≠ i := by
        rintro rfl
        exact h.move.not_finished hp
      exact .published j (hmoved.keeps.place hplace) ((h.others j hj).trans hp)
        (hsame.trans hdata)

theorem step (hs : Sound target calls t₀ s) (hnames : DraftNames target calls)
    (h : Acts target calls i s s') : Sound target calls t₀ s' where
  proper := (hs.moved hnames h).proper
  keeps := hs.keeps.trans (hs.moved hnames h).keeps
  expects := hs.expects_step hnames h
  accounted := hs.accounted_step hnames h
  fresh := hs.fresh_step hnames h

theorem of_reaches (ht : t₀.Proper) (hnames : DraftNames target calls)
    (h : Reaches target calls (start t₀ calls) s) : Sound target calls t₀ s := by
  induction h with
  | refl => exact sound_start ht
  | tail _ hstep ih =>
    obtain ⟨i, hstep⟩ := hstep
    exact ih.step hnames hstep

end Sound

/-! ### What the file holds -/

/-- A call is finished, and the file under a path holds all that it writes. -/
def Holds (calls : ι → Call) (s : Session ι) (key : List String) : Prop :=
  ∃ i, s.progress i = .finished ∧ s.tree.file? key = some (calls i).text

namespace Sound

/-- Every file is as it was at the start, or is the file that was written, or a draft. -/
theorem file?_cases (hs : Sound target calls t₀ s) (key : List String) :
    s.tree.file? key = t₀.file? key ∨ s.tree.place target = .ok key ∧ Holds calls s key
      ∨ ∃ i, (s.progress i).hasDraft = true ∧ (calls i).DraftAt target s.tree key
        ∧ t₀.node? key = none := by
  cases hs.accounted key with
  | initial h => exact .inl (by rw [Tree.file?, Tree.file?, h])
  | directory hfree h => exact .inl (by rw [Tree.file?, Tree.file?, hfree, h])
  | draft i hkey h => exact .inr (.inr ⟨i, h, hkey, hs.fresh i h key hkey⟩)
  | published i hplace hp h => exact .inr (.inl ⟨hplace, i, hp, Tree.file?_eq_some_iff.2 h⟩)

theorem file?_place (hs : Sound target calls t₀ s) (hnames : DraftNames target calls)
    {key : List String} (hplace : s.tree.place target = .ok key) :
    s.tree.file? key = t₀.file? key ∨ Holds calls s key := by
  rcases hs.file?_cases key with h | ⟨-, h⟩ | ⟨i, -, hkey, -⟩
  · exact .inl h
  · exact .inr h
  · exact absurd rfl (hkey.ne_place (hnames.apart i) hplace)

theorem file?_draft (hs : Sound target calls t₀ s) (hnames : DraftNames target calls)
    (hp : (s.progress i).hasDraft = false) {key : List String}
    (hkey : (calls i).DraftAt target s.tree key) : s.tree.file? key = t₀.file? key := by
  rcases hs.file?_cases key with h | ⟨hplace, -⟩ | ⟨j, hj, hkey', -⟩
  · exact h
  · exact absurd rfl (hkey.ne_place (hnames.apart i) hplace)
  · have hname := hkey.getLast?_eq.symm.trans hkey'.getLast?_eq
    rw [hnames.distinct (Option.some.inj hname), hj] at hp
    cases hp

/-- Where a file stood at the start, no directory is made. -/
theorem sparesFiles (hs : Sound target calls t₀ s) : t₀.SparesFiles s.tree := by
  intro key data hfile
  cases hs.accounted key with
  | initial hsame => exact Tree.isDirAt_of_file (hsame.trans hfile)
  | directory hfree _ =>
    rw [hfile] at hfree
    cases hfree
  | draft i hkey hp =>
    obtain ⟨_, hdata⟩ := hs.node?_draft hkey hp
    exact Tree.isDirAt_of_file hdata
  | published _ _ _ hdata => exact Tree.isDirAt_of_file hdata

/-- A move by which its call does not finish leaves the file as it is. -/
theorem file?_step (hs : Sound target calls t₀ s) (hnames : DraftNames target calls)
    (h : Acts target calls i s s') (hp : s'.progress i ≠ .finished) {key : List String}
    (hplace : s'.tree.place target = .ok key) : s'.tree.file? key = s.tree.file? key := by
  have hmoved := hs.moved hnames h
  cases hmoved.changes key with
  | same h => rw [Tree.file?, Tree.file?, h]
  | directory hfree h => rw [Tree.file?, Tree.file?, hfree, h]
  | draft hkey _ => exact absurd rfl (hkey.ne_place (hnames.apart i) hplace)
  | published _ hp' _ => exact absurd hp' hp

end Sound

/-- What a session makes of the files of a tree. -/
structure Atomic (t₀ : Tree) (target : String) (calls : ι → Call) (s : Session ι) : Prop where
  /-- The file of the path holds what it held at the start, or all that one of the calls that are
  finished writes. -/
  file : ∀ key, s.tree.place target = .ok key →
    s.tree.file? key = t₀.file? key ∨ Holds calls s key
  /-- The same of what the path leads to, unless it goes up from something that is missing at the
  start. Such a path leads nowhere, and may lead to a file once a directory is made there, also by
  a call that then fails. -/
  content : ¬ t₀.GoesUpFromMissing target →
    s.tree.content? target = t₀.content? target
      ∨ ∃ i, s.progress i = .finished ∧ s.tree.content? target = some (calls i).text
  /-- Only calls that are not finished make moves, and a move leaves the file as it is unless its
  call finishes. So a call that fails never changes it. It leaves what the path leads to, unless the
  path goes up from something that is missing before the move. -/
  moves : ∀ i s', Acts target calls i s s' → s.progress i ≠ .finished
    ∧ (s'.progress i ≠ .finished →
      (∀ key, s'.tree.place target = .ok key → s'.tree.file? key = s.tree.file? key)
      ∧ (¬ s.tree.GoesUpFromMissing target →
        s'.tree.content? target = s.tree.content? target))
  /-- No file in the tree is new but the file of the path and the drafts of calls at work, and no
  other file is lost. -/
  others : ∀ key, s.tree.file? key = t₀.file? key ∨ s.tree.place target = .ok key
    ∨ ∃ i, (s.progress i).hasDraft = true ∧ (calls i).DraftAt target s.tree key
      ∧ t₀.node? key = none
  /-- A call that failed or is finished has no draft. -/
  drafts : ∀ i, s.progress i = .failed ∨ s.progress i = .finished →
    ∀ key, (calls i).DraftAt target s.tree key → s.tree.file? key = t₀.file? key
  /-- Reading the path finds no file, or the file as it was at the start, or all that one of the
  calls that are finished wrote: its index, if this can be written. -/
  reads : target ≠ standardStream → ∀ input,
    (∃ fault, read s.tree input target = .error (.file (.fault fault)))
    ∨ (∃ key data, s.tree.place target = .ok key ∧ t₀.file? key = some data
      ∧ read s.tree input target = ofBytes data)
    ∨ ∃ i, s.progress i = .finished ∧ read s.tree input target = ofBytes (calls i).text
      ∧ ((∀ e ∈ (calls i).index.entries, e.Writable) → '\n' ∉ (calls i).comment.toList →
        read s.tree input target = .ok (calls i).index)

theorem Sound.content?_cases (hs : Sound target calls t₀ s) (ht : t₀.Proper)
    (hnames : DraftNames target calls) (hway : ¬ t₀.GoesUpFromMissing target) :
    s.tree.content? target = t₀.content? target
      ∨ ∃ i, s.progress i = .finished ∧ s.tree.content? target = some (calls i).text := by
  by_cases hholds : ∃ key, s.tree.place target = .ok key ∧ Holds calls s key
  · obtain ⟨key, hplace, i, hp, hfile⟩ := hholds
    exact .inr ⟨i, hp, (hs.proper.content?_of_place hplace).trans hfile⟩
  · refine .inl (ht.content?_eq hs.proper hs.keeps hs.sparesFiles hway fun key hplace => ?_)
    exact (hs.file?_place hnames hplace).resolve_right fun h => hholds ⟨key, hplace, h⟩

theorem Sound.read_cases (hs : Sound target calls t₀ s) (hnames : DraftNames target calls)
    (htarget : target ≠ standardStream) (input : Bytes) :
    (∃ fault, read s.tree input target = .error (.file (.fault fault)))
      ∨ (∃ key data, s.tree.place target = .ok key ∧ t₀.file? key = some data
        ∧ read s.tree input target = ofBytes data)
      ∨ ∃ i, s.progress i = .finished ∧ read s.tree input target = ofBytes (calls i).text := by
  cases hcontent : s.tree.contentOf target with
  | error fault =>
    refine .inl ⟨fault, ?_⟩
    rw [read, if_neg htarget, hcontent]
    rfl
  | ok data =>
    have hread : read s.tree input target = ofBytes data := by
      rw [read, if_neg htarget, hcontent]
      rfl
    obtain ⟨key, hplace, hdata⟩ := hs.proper.contentOf_eq_ok_iff_place.1 hcontent
    have hfile : s.tree.file? key = some data := Tree.file?_eq_some_iff.2 hdata
    rcases hs.file?_place hnames hplace with hsame | ⟨i, hp, htext⟩
    · exact .inr (.inl ⟨key, data, hplace, hsame ▸ hfile, hread⟩)
    · refine .inr (.inr ⟨i, hp, ?_⟩)
      rw [hread, Option.some.inj (hfile.symm.trans htext)]

/-- **Indexes are written atomically**, whatever the tree at the start, however the moves of the
calls follow each other and whichever of their steps fail. -/
theorem atomic_of_reaches (ht : t₀.Proper) (hnames : DraftNames target calls)
    (h : Reaches target calls (start t₀ calls) s) : Atomic t₀ target calls s := by
  have hs : Sound target calls t₀ s := .of_reaches ht hnames h
  refine ⟨fun key => hs.file?_place hnames, hs.content?_cases ht hnames, ?_, ?_, ?_, ?_⟩
  · intro i s' hacts
    have hmoved := hs.moved hnames hacts
    have hkeep : s'.progress i ≠ .finished → ∀ key, s'.tree.place target = .ok key →
        s'.tree.file? key = s.tree.file? key := fun hp key => hs.file?_step hnames hacts hp
    exact ⟨hacts.move.not_finished, fun hp => ⟨hkeep hp, fun hway =>
      hs.proper.content?_eq hmoved.proper hmoved.keeps hmoved.sparesFiles hway (hkeep hp)⟩⟩
  · intro key
    exact (hs.file?_cases key).imp_right (Or.imp_left And.left)
  · intro i hp key
    refine hs.file?_draft hnames ?_
    rcases hp with hp | hp <;> rw [hp] <;> rfl
  · intro htarget input
    refine (hs.read_cases hnames htarget input).imp_right (Or.imp_right ?_)
    rintro ⟨i, hp, hread⟩
    refine ⟨i, hp, hread, fun hentries hcomment => ?_⟩
    rw [hread, (calls i).ofBytes_text hentries hcomment]

/-! ### One call alone -/

section Alone

variable [DecidableEq ι]

/-- The session after a move of one call. -/
def set (s : Session ι) (i : ι) (t : Tree) (p : Progress) : Session ι :=
  ⟨t, Function.update s.progress i p⟩

@[simp]
theorem set_tree (s : Session ι) (i : ι) (t : Tree) (p : Progress) : (s.set i t p).tree = t :=
  rfl

@[simp]
theorem set_progress_self (s : Session ι) (i : ι) (t : Tree) (p : Progress) :
    (s.set i t p).progress i = p := by
  simp [set]

theorem set_progress_of_ne {j : ι} (hj : j ≠ i) (s : Session ι) (t : Tree) (p : Progress) :
    (s.set i t p).progress j = s.progress j := by
  simp [set, hj]

@[simp]
theorem set_set (s : Session ι) (i : ι) (t t' : Tree) (p p' : Progress) :
    (s.set i t p).set i t' p' = s.set i t' p' := by
  rw [set, set, Function.update_idem]
  rfl

theorem set_self {p : Progress} (h : s.progress i = p) : s.set i s.tree p = s := by
  rw [set, ← h, Function.update_eq_self]

theorem acts_set {p p' : Progress} {t' : Tree} (h : s.progress i = p)
    (hmove : (calls i).Moves target s.tree p t' p') : Acts target calls i s (s.set i t' p') := by
  refine ⟨?_, fun j hj => set_progress_of_ne hj s t' p'⟩
  rw [h, set_progress_self]
  exact hmove

/-- How far a call is that was run to its end. -/
def ended : Except FileFault Unit → Progress
  | .ok () => .finished
  | .error _ => .failed

/-- **A call that runs alone** goes one of the ways in which a session may go on. -/
theorem reaches_run {rest : List Step} (h : s.progress i = .todo rest) :
    Reaches target calls s (s.set i (((calls i).job target).run s.tree rest).1
      (ended (((calls i).job target).run s.tree rest).2)) := by
  induction rest generalizing s with
  | nil =>
    show Reaches target calls s (s.set i s.tree .finished)
    rw [set_self h]
    exact .refl
  | cons step rest ih =>
    cases hperform : ((calls i).job target).perform s.tree step with
    | ok t' =>
      have hrun : ((calls i).job target).run s.tree (step :: rest)
          = ((calls i).job target).run t' rest := by
        rw [Job.run, hperform]
      have hacts : Acts target calls i s (s.set i t' (.todo rest)) := acts_set h (.step hperform)
      have hrest := ih (set_progress_self s i t' (.todo rest))
      rw [set_set] at hrest
      rw [hrun]
      exact .head ⟨i, hacts⟩ hrest
    | error fault =>
      have hrun : ((calls i).job target).run s.tree (step :: rest)
          = (if step.hasDraft then ((calls i).job target).abandon s.tree else s.tree,
            .error fault) := by
        rw [Job.run, hperform]
      have hacts : Acts target calls i s
          (s.set i s.tree (if step.hasDraft then .cleaning else .failed)) :=
        acts_set h (.fail (.nothing step))
      rw [hrun]
      by_cases hstep : step.hasDraft = true
      · rw [if_pos hstep] at hacts ⊢
        dsimp only
        have hclean : Acts target calls i (s.set i s.tree .cleaning)
            ((s.set i s.tree .cleaning).set i (((calls i).job target).abandon s.tree) .failed) :=
          acts_set (set_progress_self s i s.tree .cleaning) .clean
        rw [set_set] at hclean
        exact .head ⟨i, hacts⟩ (.single ⟨i, hclean⟩)
      · rw [if_neg hstep] at hacts ⊢
        exact .single ⟨i, hacts⟩

/-- **A write that fails leaves every file as it was.** -/
theorem file?_of_write_error {t t' : Tree} (ht : t.Proper) {index : Index} {comment : String}
    {fault : FileFault} (hapart : Path.lastStep? target ≠ some (freshName t (t.nodes.length + 1)))
    (h : write t target index comment = (t', .error fault)) (key : List String) :
    t'.file? key = t.file? key := by
  let calls : Unit → Call := fun _ => ⟨freshName t (t.nodes.length + 1), index, comment⟩
  have hnames : DraftNames target calls :=
    ⟨fun _ => isName_freshName t _, fun _ => rfl, fun _ => hapart⟩
  have hrun : ((calls ()).job target).run t (calls ()).steps = (t', .error fault) := h
  have hreach : Reaches target calls (start t calls) ((start t calls).set () t' .failed) := by
    have hreach : Reaches target calls (start t calls) _ := reaches_run (i := ()) rfl
    change Reaches target calls (start t calls)
      ((start t calls).set () (((calls ()).job target).run t (calls ()).steps).1
        (ended (((calls ()).job target).run t (calls ()).steps).2)) at hreach
    rw [hrun] at hreach
    exact hreach
  rcases (Sound.of_reaches ht hnames hreach).file?_cases key with h | ⟨-, i, hp, -⟩ | ⟨i, hp, -⟩
  · exact h
  · cases hp
  · cases hp

end Alone

/-! ### Two calls -/

/-- A directory with an index in it. -/
def oldIndex : Tree where
  nodes := [(["index"], .file (.ofString "# v4 old
"))]

/-- Two calls that write an index without entries. -/
def twoCalls : Bool → Call
  | true => ⟨".a", .empty, "one"⟩
  | false => ⟨".b", .empty, "two"⟩

theorem draftNames_twoCalls (h : Path.lastStep? target = some "index") :
    DraftNames target twoCalls where
  isName := by decide
  distinct {i j} h := by
    revert i j h
    decide
  apart := by
    rw [h]
    decide

/-- The first call fails in the middle of its text, the second writes all of its own, and only then
the first removes its draft. -/
theorem atomic_of_reaches_twoCalls :
    ∃ s, Reaches "index" twoCalls (start oldIndex twoCalls) s
      ∧ s.progress true = .failed ∧ s.progress false = .finished
      ∧ s.tree.content? "index" = some (twoCalls false).text
      ∧ Atomic oldIndex "index" twoCalls s := by
  let drafted := oldIndex.put [".a"] (.file [])
  let broken := drafted.put [".a"] (.file ([] ++ (Bytes.ofString "# v4 one\n").take 3))
  let written := ((twoCalls false).job "index").run broken (twoCalls false).steps
  let s₁ := (start oldIndex twoCalls).set true oldIndex (.todo (twoCalls true).steps.tail)
  let s₂ := s₁.set true drafted (.todo (twoCalls true).steps.tail.tail)
  let s₃ := s₂.set true broken .cleaning
  let s₄ := s₃.set false written.1 (ended written.2)
  let removed := ((twoCalls true).job "index").abandon s₄.tree
  let s₅ := s₄.set true removed .failed
  have hreach : Reaches "index" twoCalls (start oldIndex twoCalls) s₅ := by
    refine .head ⟨true, acts_set rfl (.step ?_)⟩ (.head ⟨true, acts_set rfl (.step ?_)⟩
      (.head ⟨true, acts_set rfl (.fail (.text (List.take_prefix 3 _) ?_ ?_))⟩
        (.tail (reaches_run rfl) ⟨true, acts_set rfl .clean⟩)))
    · show ((twoCalls true).job "index").perform oldIndex .makeDirectory = .ok oldIndex
      decide +kernel
    · show ((twoCalls true).job "index").perform oldIndex .startDraft = .ok drafted
      decide +kernel
    · show ((twoCalls true).job "index").draftKey drafted = .ok [".a"]
      decide +kernel
    · show drafted.node? [".a"] = some (.file [])
      decide +kernel
  refine ⟨s₅, hreach, set_progress_self s₄ true removed .failed, ?_, ?_,
    atomic_of_reaches (by decide +kernel) (draftNames_twoCalls (by decide +kernel)) hreach⟩
  · rw [set_progress_of_ne (by decide), set_progress_self]
    decide +kernel
  · rw [set_tree]
    decide +kernel

/-- A path that goes up from something that is missing. -/
def throughMissing : String := "missing/../index"

/-- A directory with another one in the place of the index. -/
def indexDirectory : Tree where
  nodes := [(["index"], .dir)]

/-- **A path that goes up from something missing** is not left as it was by calls that fail. It
leads nowhere until one of them makes a directory there, and then to the index that was there all
the time, though no call is finished. If a directory is in the place of the index, the write fails
for this reason, and the path leads to that directory. -/
theorem not_atomic_of_reaches :
    (oldIndex.Proper ∧ DraftNames throughMissing twoCalls
      ∧ ∃ s, Reaches throughMissing twoCalls (start oldIndex twoCalls) s
        ∧ s.progress true = .failed ∧ (∀ i, s.progress i ≠ .finished)
        ∧ oldIndex.content? throughMissing = none
        ∧ s.tree.content? throughMissing = some (.ofString "# v4 old\n"))
    ∧ (indexDirectory.Proper
      ∧ ∃ t', write indexDirectory throughMissing .empty "one" = (t', .error .isADirectory)
        ∧ read indexDirectory [] throughMissing = .error (.file (.fault .notFound))
        ∧ read t' [] throughMissing = .error (.file (.fault .isADirectory))) := by
  let made := oldIndex.put ["missing"] .dir
  let s₁ := (start oldIndex twoCalls).set true made (.todo (twoCalls true).steps.tail)
  let s₂ := s₁.set true made .failed
  have hreach : Reaches throughMissing twoCalls (start oldIndex twoCalls) s₂ := by
    refine .head ⟨true, acts_set rfl (.step ?_)⟩
      (.single ⟨true, acts_set rfl (.fail (.nothing .startDraft))⟩)
    show ((twoCalls true).job throughMissing).perform oldIndex .makeDirectory = .ok made
    decide +kernel
  have hfinished : ∀ i, s₂.progress i ≠ .finished := by
    rintro (_ | _)
    · show Progress.todo (twoCalls false).steps ≠ .finished
      nofun
    · nofun
  refine ⟨⟨by decide +kernel, draftNames_twoCalls (by decide +kernel), s₂, hreach, rfl, hfinished,
    by decide +kernel, ?_⟩, by decide +kernel, indexDirectory.put ["missing"] .dir, ?_, ?_, ?_⟩
  · rw [set_tree]
    decide +kernel
  · decide +kernel
  · with_unfolding_all rfl
  · with_unfolding_all rfl

end Session

end CrossTag.Store
