import CrossTag.Proofs.Write

/-!
# Trees that keep their directories

Writers make directories, put files next to each other and take them away again, but none of them
takes a directory away. `KeepsDirs` says so of two trees, and that is all that paths depend on:

    a directory   a path that leads to a directory leads there as long as directories are kept
                  (`KeepsDirs.leadsTo`)
    a file        a path has one place for a file, in the directory that the steps before the last
                  lead to, and keeps it (`KeepsDirs.place`); the file is found there, and nowhere
                  else (`contentOf_eq_ok_iff_place`)
    a file that   a path finds the file that it found before, or none if it found none, as long as
    stays         the file at its place is the same and the path does not go up from something
                  that was missing (`content?_eq`)

Making directories adds directories where nothing stood and changes nothing else (`MoreDirs`), and
the path that they are made for then leads to one (`makeDirs_spec`).
-/

namespace CrossTag

open Outcome

namespace Path

/-- The last step of a written path. -/
def lastStep? (written : String) : Option String :=
  ((pieces written).filter (· != "")).getLast?

theorem no_separator_of_mem_pieces {written piece : String} (h : piece ∈ pieces written) :
    separator ∉ piece.toList := by
  obtain ⟨part, hpart, rfl⟩ := List.mem_map.1 h
  rw [String.toList_ofList]
  exact fun hmem => (mem_of_mem_components hpart hmem).2 rfl

theorem intercalate_pieces (written : String) : "/".intercalate (pieces written) = written := by
  rw [← String.toList_inj, String.toList_intercalate, ← components_toList]
  exact List.intercalate_splitOn separator

/-- Behind its last separator, a path that does not end in one has a step. -/
theorem last_ne_empty {written : String} {front : List String} {last : String}
    (h : pieces written = front ++ [last]) (hwritten : written ≠ "")
    (hdir : Glob.isDirectory written.toList = false) : last ≠ "" := by
  rintro rfl
  have hends : ∀ {names : List String}, names ≠ [] →
      ∃ start, "/".intercalate (names ++ [""]) = start ++ "/" := by
    intro names hnames
    induction names with
    | nil => exact absurd rfl hnames
    | cons name names ih =>
      rw [List.cons_append, String.intercalate_cons_of_ne_nil (by simp)]
      by_cases hne : names = []
      · refine ⟨name, ?_⟩
        rw [hne, List.nil_append, String.intercalate_singleton, String.append_empty]
      · obtain ⟨start, hstart⟩ := ih hne
        exact ⟨name ++ "/" ++ start, by rw [hstart, ← String.append_assoc]⟩
  have hjoin := intercalate_pieces written
  rw [h] at hjoin
  by_cases hfront : front = []
  · rw [hfront] at hjoin
    exact hwritten hjoin.symm
  · obtain ⟨start, hstart⟩ := hends hfront
    rw [← hjoin, hstart] at hdir
    simp [Glob.isDirectory, separator] at hdir

theorem directory_ne_empty (written : String) : directory written ≠ "" := by
  unfold directory
  extract_lets p dir
  by_cases hempty : dir.render.isEmpty
  · rw [if_pos hempty]
    decide
  · rw [if_neg hempty]
    simpa using hempty
end Path

namespace Tree

variable {t t' t'' : Tree}

/-! ### Directories that are kept -/

/-- Every directory of one tree is a directory of the other, and relative paths start at the same
place. -/
structure KeepsDirs (t t' : Tree) : Prop where
  current : t'.current = t.current
  dirs : ∀ {k : List String}, t.isDirAt k = true → t'.isDirAt k = true

/-- A written path leads to a directory. -/
def LeadsTo (t : Tree) (written : String) (dir : List String) : Prop :=
  t.resolve written = .ok dir ∧ t.isDirAt dir = true

theorem LeadsTo.unique {written : String} {dir dir' : List String} (h : t.LeadsTo written dir)
    (h' : t.LeadsTo written dir') : dir' = dir :=
  Except.ok.inj (h'.1.symm.trans h.1)

/-- A path that leads to a directory starts at one. -/
theorem isDirAt_of_follow {place pieces dir : List String} (h : t.follow place pieces = .ok dir)
    (hdir : t.isDirAt dir = true) : t.isDirAt place = true := by
  cases pieces with
  | nil =>
    cases h
    exact hdir
  | cons piece rest =>
    rw [follow] at h
    split at h
    · assumption
    · cases h

namespace KeepsDirs

theorem refl (t : Tree) : KeepsDirs t t := ⟨rfl, id⟩

theorem trans (h : KeepsDirs t t') (h' : KeepsDirs t' t'') : KeepsDirs t t'' :=
  ⟨h'.current.trans h.current, fun hk => h'.dirs (h.dirs hk)⟩

theorem put {key : List String} (hold : t.isDirAt key = false) (node : Node) :
    KeepsDirs t (t.put key node) :=
  ⟨rfl, isDirAt_put hold⟩

theorem start (h : KeepsDirs t t') (written : String) : t'.start written = t.start written := by
  rw [Tree.start, Tree.start, h.current]

/-- Steps that lead to a directory pass through directories only, and these are kept. -/
theorem follow (h : KeepsDirs t t') {place pieces dir : List String}
    (hfollow : t.follow place pieces = .ok dir) (hdir : t.isDirAt dir = true) :
    t'.follow place pieces = .ok dir := by
  fun_induction t.follow place pieces with
  | case1 place => exact hfollow
  | case2 place piece rest hplace hhere ih =>
    rw [Tree.follow, if_pos (h.dirs hplace), if_pos hhere]
    exact ih hfollow
  | case3 place rest hplace hhere ih =>
    rw [Tree.follow, if_pos (h.dirs hplace), if_neg hhere, if_pos rfl]
    exact ih hfollow
  | case4 place piece rest hplace hhere hparent node hnode ih =>
    have hnext := h.dirs (isDirAt_of_follow hfollow hdir)
    rw [Tree.follow, if_pos (h.dirs hplace), if_neg hhere, if_neg hparent, beq_iff_eq.1 hnext]
    exact ih hfollow
  | case5 => cases hfollow
  | case6 => cases hfollow

theorem leadsTo (h : KeepsDirs t t') {written : String} {dir : List String}
    (hleads : t.LeadsTo written dir) : t'.LeadsTo written dir := by
  obtain ⟨hresolve, hdir⟩ := hleads
  refine ⟨?_, h.dirs hdir⟩
  rw [resolve] at hresolve ⊢
  split at hresolve
  · cases hresolve
  · rename_i hempty
    rw [if_neg hempty, h.start]
    exact h.follow hresolve hdir

end KeepsDirs

/-! ### Places for files -/

theorem place_of_lastStep {written name : String} (h : Path.lastStep? written = some name) :
    t.place written
      = if written.isEmpty then .error .notFound
        else t.follow (t.start written) ((Path.pieces written).filter (· != "")).dropLast
          >>= fun dir =>
            if !t.isDirAt dir then .error .notADirectory
            else if name = Path.here ∨ name = Path.parent then .error .busy
            else if Glob.isDirectory written.toList then .error .notADirectory
            else .ok (dir ++ [name]) := by
  rw [Path.lastStep?] at h
  simp only [place, h]
  rfl

/-- The place for a file has a last step. -/
theorem lastStep_of_place {written : String} {key : List String}
    (h : t.place written = .ok key) : ∃ name, Path.lastStep? written = some name := by
  cases hname : Path.lastStep? written with
  | some name => exact ⟨name, rfl⟩
  | none =>
    rw [Path.lastStep?] at hname
    simp only [place, hname] at h
    split at h
    · cases h
    · obtain ⟨dir, -, h⟩ := bind_eq_ok_iff.1 h
      split at h <;> cases h

/-- The place for a file is a name in the directory that the steps before the last lead to. -/
theorem place_eq_ok_iff {written : String} {key : List String} :
    t.place written = .ok key ↔
      ∃ dir name, key = dir ++ [name] ∧ written ≠ ""
        ∧ t.follow (t.start written) ((Path.pieces written).filter (· != "")).dropLast = .ok dir
        ∧ t.isDirAt dir = true ∧ Path.lastStep? written = some name
        ∧ name ≠ Path.here ∧ name ≠ Path.parent
        ∧ Glob.isDirectory written.toList = false := by
  constructor
  · intro h
    obtain ⟨name, hname⟩ := lastStep_of_place h
    rw [place_of_lastStep hname] at h
    split at h
    · cases h
    · rename_i hwritten
      obtain ⟨dir, hfollow, h⟩ := bind_eq_ok_iff.1 h
      split at h
      · cases h
      · rename_i hdir
        split at h
        · cases h
        · rename_i hplain
          split at h
          · cases h
          · rename_i hfile
            cases h
            exact ⟨dir, name, rfl, by simpa using hwritten, hfollow, by simpa using hdir, hname,
              fun hhere => hplain (.inl hhere), fun hparent => hplain (.inr hparent),
              by simpa using hfile⟩
  · rintro ⟨dir, name, rfl, hwritten, hfollow, hdir, hname, hhere, hparent, hfile⟩
    rw [place_of_lastStep hname, if_neg (by simpa using hwritten)]
    refine bind_eq_ok_iff.2 ⟨dir, hfollow, ?_⟩
    simp [hdir, hhere, hparent, hfile]

/-- What a path has as its last step is the last name of its place. -/
theorem getLast?_of_place {written : String} {key : List String}
    (h : t.place written = .ok key) : key.getLast? = Path.lastStep? written := by
  obtain ⟨dir, name, rfl, -, -, -, hname, -⟩ := place_eq_ok_iff.1 h
  rw [List.getLast?_concat, hname]

theorem exists_of_place {written : String} {key : List String} (h : t.place written = .ok key) :
    ∃ dir name, key = dir ++ [name] ∧ t.isDirAt dir = true ∧ Path.IsName name := by
  obtain ⟨dir, name, hkey, -, -, hdir, hname, hhere, hparent, -⟩ := place_eq_ok_iff.1 h
  have hmem := List.mem_of_getLast? hname
  obtain ⟨hmem, hne⟩ := List.mem_filter.1 hmem
  exact ⟨dir, name, hkey, hdir, by simpa using hne, hhere, hparent,
    Path.no_separator_of_mem_pieces hmem⟩

theorem KeepsDirs.place (h : KeepsDirs t t') {written : String} {key : List String}
    (hplace : t.place written = .ok key) : t'.place written = .ok key := by
  obtain ⟨dir, name, hkey, hwritten, hfollow, hdir, hlast⟩ := place_eq_ok_iff.1 hplace
  refine place_eq_ok_iff.2 ⟨dir, name, hkey, hwritten, ?_, h.dirs hdir, hlast⟩
  rw [h.start]
  exact h.follow hfollow hdir

/-- Empty steps lead nowhere else. -/
theorem follow_filter_eq_ok_iff {place pieces dir : List String} (hdir : t.isDirAt dir = true) :
    t.follow place (pieces.filter (· != "")) = .ok dir ↔ t.follow place pieces = .ok dir := by
  induction pieces generalizing place with
  | nil => rfl
  | cons piece rest ih =>
    by_cases hpiece : piece = ""
    · rw [List.filter_cons_of_neg (by simpa using hpiece), ih, follow]
      -- An empty step asks for a directory to start from, as any other step does.
      by_cases hplace : t.isDirAt place = true
      · rw [if_pos hplace, if_pos (.inl hpiece)]
      · rw [if_neg hplace]
        constructor
        · intro h
          exact absurd (isDirAt_of_follow h hdir) hplace
        · intro h
          cases h
    · rw [List.filter_cons_of_pos (by simpa using hpiece), follow, follow]
      split
      · split
        · exact ih
        · split
          · exact ih
          · split
            · exact ih
            · rfl
      · rfl

theorem Proper.isDirAt_ancestor (ht : t.Proper) {place dir : List String}
    (hdir : t.isDirAt dir = true) (h : place <+: dir) : t.isDirAt place = true := by
  obtain ⟨names, rfl⟩ := h
  cases names with
  | nil =>
    rw [List.append_nil] at hdir
    exact hdir
  | cons name names =>
    exact ht.isDirAt_above (by rw [beq_iff_eq.1 hdir]; rfl)

/-- A path leads to a file exactly if the file stands in its place. -/
theorem Proper.resolve_eq_ok_iff_place (ht : t.Proper) {written : String} {key : List String}
    {data : Bytes} (hnode : t.node? key = some (.file data)) :
    t.resolve written = .ok key ↔ t.place written = .ok key := by
  obtain ⟨front, last, hpieces⟩ : ∃ front last, Path.pieces written = front ++ [last] :=
    ⟨_, _, (List.dropLast_append_getLast (Path.pieces_ne_nil written)).symm⟩
  have hsteps : last ≠ "" →
      (Path.pieces written).filter (· != "") = front.filter (· != "") ++ [last] := by
    intro hlast
    rw [hpieces, List.filter_append, List.filter_cons_of_pos (by simpa using hlast)]
    rfl
  have hfile : t.isDirAt key = false := isDirAt_of_file hnode
  constructor
  · intro hresolve
    have hwritten : written ≠ "" := ne_empty_of_resolve hresolve
    rw [resolve, if_neg (by simpa using hwritten), hpieces, follow_append] at hresolve
    obtain ⟨dir, hfront, hlast⟩ := bind_eq_ok_iff.1 hresolve
    rw [follow] at hlast
    split at hlast
    · rename_i hdir
      split at hlast
      · -- A last step that stays in place leads to a directory, and so does one to the parent.
        cases hlast
        rw [hfile] at hdir
        cases hdir
      · rename_i hplain
        split at hlast
        · cases hlast
          rw [ht.isDirAt_ancestor hdir (List.dropLast_prefix dir)] at hfile
          cases hfile
        · rename_i hparent
          split at hlast
          · cases hlast
            have hne : last ≠ "" := fun h => hplain (.inl h)
            refine place_eq_ok_iff.2 ⟨dir, last, rfl, hwritten, ?_, hdir, ?_,
              fun h => hplain (.inr h), hparent, Path.isDirectory_eq_false hpieces hne⟩
            · rw [hsteps hne, List.dropLast_concat]
              exact (follow_filter_eq_ok_iff hdir).2 hfront
            · rw [Path.lastStep?, hsteps hne, List.getLast?_concat]
          · cases hlast
    · cases hlast
  · intro hplace
    obtain ⟨dir, name, rfl, hwritten, hfollow, hdir, hname, hhere, hparent, hend⟩ :=
      place_eq_ok_iff.1 hplace
    have hne : last ≠ "" := Path.last_ne_empty hpieces hwritten hend
    rw [Path.lastStep?, hsteps hne, List.getLast?_concat] at hname
    cases hname
    rw [hsteps hne, List.dropLast_concat] at hfollow
    rw [resolve, if_neg (by simpa using hwritten), hpieces, follow_append]
    refine bind_eq_ok_iff.2 ⟨dir, (follow_filter_eq_ok_iff hdir).1 hfollow, ?_⟩
    rw [follow, if_pos hdir, if_neg (by simp [hne, hhere]), if_neg hparent, hnode]
    rfl

/-- **A file is found at its place, and nowhere else.** -/
theorem Proper.contentOf_eq_ok_iff_place (ht : t.Proper) {written : String} {data : Bytes} :
    t.contentOf written = .ok data ↔
      ∃ key, t.place written = .ok key ∧ t.node? key = some (.file data) := by
  rw [contentOf_eq_ok_iff]
  exact exists_congr fun key => and_congr_left fun hnode => ht.resolve_eq_ok_iff_place hnode

/-! ### Going up -/

/-- A written path goes up from something that is missing. -/
def GoesUpFromMissing (t : Tree) (written : String) : Prop :=
  ∃ front back, Path.pieces written = front ++ Path.parent :: back
    ∧ t.follow (t.start written) front = .error .notFound

/-- No file of one tree is a directory of the other. -/
def SparesFiles (t t' : Tree) : Prop :=
  ∀ key data, t.node? key = some (.file data) → t'.isDirAt key = false

theorem prefix_of_follow {place pieces dir : List String} (h : t.follow place pieces = .ok dir)
    (hdown : Path.parent ∉ pieces) : place <+: dir := by
  fun_induction t.follow place pieces with
  | case1 place =>
    cases h
    exact List.prefix_rfl
  | case2 place piece rest hdir hhere ih => exact ih h (List.not_mem_of_not_mem_cons hdown)
  | case3 place rest hdir hhere ih => exact absurd List.mem_cons_self hdown
  | case4 place piece rest hdir hhere hparent node hnode ih =>
    exact (List.prefix_append _ _).trans (ih h (List.not_mem_of_not_mem_cons hdown))
  | case5 => cases h
  | case6 => cases h

namespace Proper

theorem isDirAt_start (ht : t.Proper) (written : String) :
    t.isDirAt (t.start written) = true := by
  rw [start]
  split
  · rfl
  · exact ht.current

/-- Above something that two proper trees have in common, both have directories. -/
theorem node?_eq_of_prefix (ht : t.Proper) (ht' : t'.Proper) {place key : List String}
    (hsome : (t.node? key).isSome) (hsame : t'.node? key = t.node? key) (h : place <+: key) :
    t'.node? place = t.node? place := by
  obtain ⟨names, rfl⟩ := h
  cases names with
  | nil =>
    rw [List.append_nil] at hsame
    exact hsame
  | cons name names =>
    have hdir := ht.isDirAt_above hsome
    have hdir' := ht'.isDirAt_above (hsame ▸ hsome)
    rw [beq_iff_eq.1 hdir, beq_iff_eq.1 hdir']

/-- Steps that do not go up lead to the same place in every proper tree that has the same there. -/
theorem follow_of_follow (ht : t.Proper) (ht' : t'.Proper) {place pieces key : List String}
    (h : t'.follow place pieces = .ok key) (hdown : Path.parent ∉ pieces)
    (hsome : (t.node? key).isSome) (hsame : t'.node? key = t.node? key) :
    t.follow place pieces = .ok key := by
  fun_induction t'.follow place pieces with
  | case1 place => exact h
  | case2 place piece rest hplace hhere ih =>
    have hrest := List.not_mem_of_not_mem_cons hdown
    have hnode := ht.node?_eq_of_prefix ht' hsome hsame (prefix_of_follow h hrest)
    rw [isDirAt, hnode, ← isDirAt] at hplace
    rw [follow, if_pos hplace, if_pos hhere]
    exact ih h hrest
  | case3 place rest hplace hhere ih => exact absurd List.mem_cons_self hdown
  | case4 place piece rest hplace hhere hparent node hnext ih =>
    have hrest := List.not_mem_of_not_mem_cons hdown
    have hprefix := prefix_of_follow h hrest
    have hnode := ht.node?_eq_of_prefix ht' hsome hsame ((List.prefix_append _ _).trans hprefix)
    rw [isDirAt, hnode, ← isDirAt] at hplace
    rw [ht.node?_eq_of_prefix ht' hsome hsame hprefix] at hnext
    rw [follow, if_pos hplace, if_neg hhere, if_neg hparent, hnext]
    exact ih h hrest
  | case5 => cases h
  | case6 => cases h

/-- Steps that lead to a directory in one tree lead to the same one in another if nothing on their
way is missing there. -/
theorem follow_of_found (ht : t.Proper) (hspares : t.SparesFiles t')
    {place pieces dir : List String} (hplace : t.isDirAt place = true)
    (h : t'.follow place pieces = .ok dir) (hdir : t'.isDirAt dir = true)
    (hfound : t.follow place pieces ≠ .error .notFound) :
    t.follow place pieces = .ok dir ∧ t.isDirAt dir = true := by
  fun_induction t'.follow place pieces with
  | case1 place =>
    cases h
    exact ⟨rfl, hplace⟩
  | case2 place piece rest _ hhere ih =>
    rw [follow, if_pos hplace, if_pos hhere] at hfound ⊢
    exact ih hplace h hfound
  | case3 place rest _ hhere ih =>
    rw [follow, if_pos hplace, if_neg hhere, if_pos rfl] at hfound ⊢
    exact ih (ht.isDirAt_ancestor hplace (List.dropLast_prefix place)) h hfound
  | case4 place piece rest _ hhere hparent _ _ ih =>
    rw [follow, if_pos hplace, if_neg hhere, if_neg hparent] at hfound ⊢
    have hnext : t'.isDirAt (place ++ [piece]) = true := isDirAt_of_follow h hdir
    cases hnode : t.node? (place ++ [piece]) with
    | none =>
      rw [hnode] at hfound
      exact absurd rfl hfound
    | some node =>
      cases node with
      | file data =>
        rw [hspares _ data hnode] at hnext
        cases hnext
      | dir =>
        rw [hnode] at hfound
        exact ih (by rw [isDirAt, hnode]; rfl) h hfound
  | case5 => cases h
  | case6 => cases h

/-- A path leads to the same place in two trees that have the same there, unless it goes up from
something that is missing. -/
theorem resolve_of_resolve (ht : t.Proper) (ht' : t'.Proper) (hcurrent : t'.current = t.current)
    (hspares : t.SparesFiles t') {written : String} {key : List String}
    (hway : ¬ t.GoesUpFromMissing written) (h : t'.resolve written = .ok key)
    (hsome : (t.node? key).isSome) (hsame : t'.node? key = t.node? key) :
    t.resolve written = .ok key := by
  have hstart : t'.start written = t.start written := by rw [start, start, hcurrent]
  have hwritten : ¬ written.isEmpty := by simpa using ne_empty_of_resolve h
  rw [resolve, if_neg hwritten, hstart] at h
  rw [resolve, if_neg hwritten]
  by_cases hup : Path.parent ∈ Path.pieces written
  · -- Up to the last step to a parent nothing is missing, and the steps behind it do not go up.
    obtain ⟨back, front, hpieces, hdown⟩ := List.eq_append_cons_of_mem (List.mem_reverse.2 hup)
    replace hpieces : Path.pieces written = front.reverse ++ Path.parent :: back.reverse := by
      rw [← List.reverse_inj, hpieces]
      simp
    rw [hpieces, follow_append] at h ⊢
    obtain ⟨dir, hfront, hback⟩ := bind_eq_ok_iff.1 h
    rw [follow] at hback
    split at hback
    · rename_i hdir
      rw [if_neg (by decide), if_pos rfl] at hback
      obtain ⟨hfront', hdir'⟩ := ht.follow_of_found hspares (ht.isDirAt_start written) hfront hdir
        fun hmissing => hway ⟨_, _, hpieces, hmissing⟩
      refine bind_eq_ok_iff.2 ⟨dir, hfront', ?_⟩
      rw [follow, if_pos hdir', if_neg (by decide), if_pos rfl]
      exact ht.follow_of_follow ht' hback (by simpa using hdown) hsome hsame
    · cases hback
  · exact ht.follow_of_follow ht' h hup hsome hsame

end Proper

/-! ### Making directories -/

/-- Two trees that differ only in directories that one of them has where nothing stands in the
other. -/
structure MoreDirs (t t' : Tree) : Prop where
  current : t'.current = t.current
  nodes : ∀ k, t'.node? k = t.node? k ∨ t.node? k = none ∧ t'.node? k = some .dir

namespace MoreDirs

theorem refl (t : Tree) : MoreDirs t t := ⟨rfl, fun _ => .inl rfl⟩

theorem trans (h : MoreDirs t t') (h' : MoreDirs t' t'') : MoreDirs t t'' := by
  refine ⟨h'.current.trans h.current, fun k => ?_⟩
  rcases h'.nodes k with hk' | ⟨hfree, hk'⟩
  · rw [hk']
    exact h.nodes k
  · rcases h.nodes k with hk | ⟨-, hk⟩
    · exact .inr ⟨hk ▸ hfree, hk'⟩
    · rw [hk] at hfree
      cases hfree

theorem put {key : List String} (hfree : t.node? key = none) : MoreDirs t (t.put key .dir) := by
  refine ⟨rfl, fun k => ?_⟩
  rw [node?_put (ne_nil_of_isDirAt (isDirAt_of_none hfree))]
  split
  · rename_i hk
    exact .inr ⟨hk ▸ hfree, rfl⟩
  · exact .inl rfl

theorem keepsDirs (h : MoreDirs t t') : KeepsDirs t t' := by
  refine ⟨h.current, fun {k} hk => ?_⟩
  rcases h.nodes k with hsame | ⟨-, hdir⟩
  · rw [isDirAt, hsame]
    exact hk
  · rw [isDirAt, hdir]
    rfl

end MoreDirs

/-- **Making directories makes directories only, and then the steps lead to one.** -/
theorem Proper.makeDirs (ht : t.Proper) {place pieces : List String}
    (hpieces : ∀ piece ∈ pieces, separator ∉ piece.toList)
    (h : t.makeDirs place pieces = .ok t') :
    t'.Proper ∧ MoreDirs t t'
      ∧ ∃ dir, t'.follow place pieces = .ok dir ∧ t'.isDirAt dir = true := by
  fun_induction t.makeDirs place pieces with
  | case1 t place hplace =>
    cases h
    exact ⟨ht, .refl _, place, rfl, hplace⟩
  | case2 => cases h
  | case3 t place piece rest hplace hhere ih =>
    have hrest := List.forall_mem_of_forall_mem_cons hpieces
    obtain ⟨hproper, hmore, dir, hfollow, hdir⟩ := ih ht hrest h
    refine ⟨hproper, hmore, dir, ?_, hdir⟩
    rw [follow, if_pos (hmore.keepsDirs.dirs hplace), if_pos hhere]
    exact hfollow
  | case4 t place rest hplace hhere ih =>
    have hrest := List.forall_mem_of_forall_mem_cons hpieces
    obtain ⟨hproper, hmore, dir, hfollow, hdir⟩ := ih ht hrest h
    refine ⟨hproper, hmore, dir, ?_, hdir⟩
    rw [follow, if_pos (hmore.keepsDirs.dirs hplace), if_neg hhere, if_pos rfl]
    exact hfollow
  | case5 t place piece rest hplace hhere hparent node hnode ih =>
    have hrest := List.forall_mem_of_forall_mem_cons hpieces
    obtain ⟨hproper, hmore, dir, hfollow, hdir⟩ := ih ht hrest h
    refine ⟨hproper, hmore, dir, ?_, hdir⟩
    have hnext := isDirAt_of_follow hfollow hdir
    rw [follow, if_pos (hmore.keepsDirs.dirs hplace), if_neg hhere, if_neg hparent,
      beq_iff_eq.1 hnext]
    exact hfollow
  | case6 t place piece rest hplace hhere hparent hnode ih =>
    have hname : Path.IsName piece :=
      ⟨fun h => hhere (.inl h), fun h => hhere (.inr h), hparent, hpieces piece List.mem_cons_self⟩
    -- The only case in which something is made, under a name and where nothing stood.
    have hput := ht.put hplace hname (isDirAt_of_none hnode) .dir
    have hrest := List.forall_mem_of_forall_mem_cons hpieces
    obtain ⟨hproper, hmore, dir, hfollow, hdir⟩ := ih hput hrest h
    have hmore := (MoreDirs.put hnode).trans hmore
    refine ⟨hproper, hmore, dir, ?_, hdir⟩
    have hnext := isDirAt_of_follow hfollow hdir
    rw [follow, if_pos (hmore.keepsDirs.dirs hplace), if_neg hhere, if_neg hparent,
      beq_iff_eq.1 hnext]
    exact hfollow
  | case7 => cases h

theorem Proper.createDirs (ht : t.Proper) {written : String} (hwritten : written ≠ "")
    (h : t.createDirs written = .ok t') :
    t'.Proper ∧ MoreDirs t t' ∧ ∃ dir, t'.LeadsTo written dir := by
  obtain ⟨hproper, hmore, dir, hfollow, hdir⟩ :=
    ht.makeDirs (fun _ => Path.no_separator_of_mem_pieces) h
  refine ⟨hproper, hmore, dir, ?_, hdir⟩
  rw [resolve, if_neg (by simpa using hwritten), hmore.keepsDirs.start]
  exact hfollow

/-! ### Taking files away -/

namespace Proper

/-- Nothing stands below a file, so erasing one erases nothing else. -/
theorem node?_erase_file (ht : t.Proper) {key : List String} {data : Bytes}
    (hfile : t.node? key = some (.file data)) (k : List String) :
    (t.erase key).node? k = if k = key then none else t.node? k := by
  by_cases hbelow : key <+: k
  · have hkey : key ≠ [] := ne_nil_of_isDirAt (isDirAt_of_file hfile)
    have hk : k ≠ [] := fun h => hkey (List.prefix_nil.1 (h ▸ hbelow))
    have hgone : (t.erase key).node? k = none := by
      rw [node?, if_neg hk, Tree.erase, Pairs.lookup_filter (fun k => !key.isPrefixOf k),
        if_neg (by simpa using hbelow)]
    rw [hgone]
    split
    · rfl
    · rename_i hne
      obtain ⟨names, rfl⟩ := hbelow
      cases names with
      | nil => exact absurd (List.append_nil key) hne
      | cons name names =>
        -- Had anything stood below the file, the file would be a directory.
        cases hnode : t.node? (key ++ name :: names) with
        | none => rfl
        | some node =>
          have hdir := ht.isDirAt_above (by rw [hnode]; rfl)
          rw [isDirAt_of_file hfile] at hdir
          cases hdir
  · have hne : k ≠ key := by
      rintro rfl
      exact hbelow List.prefix_rfl
    rw [if_neg hne, node?_erase hbelow]

theorem keepsDirs_erase (ht : t.Proper) {key : List String} {data : Bytes}
    (hfile : t.node? key = some (.file data)) : KeepsDirs t (t.erase key) := by
  refine ⟨rfl, fun {k} hk => ?_⟩
  have hne : k ≠ key := by
    rintro rfl
    rw [isDirAt_of_file hfile] at hk
    cases hk
  rw [isDirAt, ht.node?_erase_file hfile, if_neg hne]
  exact hk

/-- **A file that takes the place of another leaves its own**, and nothing else changes. -/
theorem rename (ht : t.Proper) {source : List String} {written : String} {data : Bytes}
    (hfile : t.node? source = some (.file data)) (h : t.rename source written = .ok t') :
    ∃ key, t.place written = .ok key ∧ t.isDirAt key = false ∧ t'.Proper ∧ KeepsDirs t t'
      ∧ ∀ k, t'.node? k
        = if k = key then some (.file data) else if k = source then none else t.node? k := by
  have hrename : t.rename source written
      = t.place written >>= fun key =>
          if t.isDirAt key then .error .isADirectory
          else .ok ((t.erase source).put key (.file data)) := by
    rw [Tree.rename, hfile]
    rfl
  rw [hrename] at h
  obtain ⟨key, hplace, h⟩ := bind_eq_ok_iff.1 h
  refine ⟨key, hplace, ?_⟩
  split at h
  · cases h
  · rename_i hkey
    cases h
    rw [Bool.not_eq_true] at hkey
    have herase := ht.keepsDirs_erase hfile
    have hfree : (t.erase source).isDirAt key = false := by
      cases hnew : (t.erase source).isDirAt key with
      | false => rfl
      | true => exact absurd (isDirAt_of_erase hnew) (by simp [hkey])
    refine ⟨hkey, ?_, herase.trans (.put hfree _), fun k => ?_⟩
    · obtain ⟨dir, name, rfl, hdir, hname⟩ := exists_of_place hplace
      exact (ht.erase (isDirAt_of_file hfile)).put (herase.dirs hdir) hname hfree _
    · rw [node?_put (ne_nil_of_isDirAt hkey), ht.node?_erase_file hfile]

end Proper

/-! ### Contents -/

/-- The content of the file under an absolute path. -/
def file? (t : Tree) (key : List String) : Option Bytes :=
  match t.node? key with
  | some (.file data) => some data
  | _ => none

/-- The content of the file that a written path leads to, if it leads to one. -/
def content? (t : Tree) (written : String) : Option Bytes :=
  (t.contentOf written).toOption

theorem file?_eq_some_iff {key : List String} {data : Bytes} :
    t.file? key = some data ↔ t.node? key = some (.file data) := by
  unfold file?
  split
  · rename_i hnode
    simp [hnode]
  · rename_i hnode
    simpa using hnode data

theorem content?_eq_some_iff {written : String} {data : Bytes} :
    t.content? written = some data ↔ t.contentOf written = .ok data := by
  rw [content?]
  cases t.contentOf written with
  | error fault => simp [Except.toOption]
  | ok found => simp [Except.toOption]

namespace Proper

theorem content?_eq_some_iff_place (ht : t.Proper) {written : String} {data : Bytes} :
    t.content? written = some data ↔
      ∃ key, t.place written = .ok key ∧ t.file? key = some data := by
  simp only [content?_eq_some_iff, ht.contentOf_eq_ok_iff_place, file?_eq_some_iff]

theorem content?_of_place (ht : t.Proper) {written : String} {key : List String}
    (h : t.place written = .ok key) : t.content? written = t.file? key := by
  ext data
  rw [ht.content?_eq_some_iff_place, h]
  constructor
  · rintro ⟨_, ⟨⟩, hdata⟩
    exact hdata
  · intro hdata
    exact ⟨key, rfl, hdata⟩

/-- **A path finds what it found before** if the file at its place is the same, unless it goes up
from something that was missing. -/
theorem content?_eq (ht : t.Proper) (ht' : t'.Proper) (hkeeps : KeepsDirs t t')
    (hspares : t.SparesFiles t') {written : String} (hway : ¬ t.GoesUpFromMissing written)
    (hfile : ∀ key, t'.place written = .ok key → t'.file? key = t.file? key) :
    t'.content? written = t.content? written := by
  ext data
  rw [content?_eq_some_iff, content?_eq_some_iff]
  constructor
  · intro h
    obtain ⟨key, hresolve, hnode'⟩ := contentOf_eq_ok_iff.1 h
    have hplace := (ht'.resolve_eq_ok_iff_place hnode').1 hresolve
    have hnode : t.node? key = some (.file data) := by
      rw [← file?_eq_some_iff, ← hfile key hplace, file?_eq_some_iff]
      exact hnode'
    refine contentOf_eq_ok_iff.2 ⟨key, ?_, hnode⟩
    exact ht.resolve_of_resolve ht' hkeeps.current hspares hway hresolve (by rw [hnode]; rfl)
      (hnode'.trans hnode.symm)
  · intro h
    obtain ⟨key, hplace, hnode⟩ := ht.contentOf_eq_ok_iff_place.1 h
    have hplace' := hkeeps.place hplace
    refine ht'.contentOf_eq_ok_iff_place.2 ⟨key, hplace', ?_⟩
    rw [← file?_eq_some_iff, hfile key hplace', file?_eq_some_iff]
    exact hnode

end Proper

end Tree

end CrossTag
