import CrossTag.Files.Walk
import CrossTag.Proofs.Outcome
import CrossTag.Proofs.Pairs
import CrossTag.Proofs.Path

/-!
# What a walk lists

A proper tree is one that a file system can hold: whatever stands in it has a name and stands in a
directory, and nothing stands twice under one path. In a proper tree a path leads to what stands
under its names (`follow_eq`), so names put behind a path lead from where the path leads
(`resolve_join`).

A walk is taken apart once (`exists_of_mem_walk`): a file that is listed is the root itself, or
stands below it, under names none of which were passed over on the way. Without ignore files this
means that no name on the way is hidden and that no glob selects any stage of the way
(`skips_eq_false_iff`).
-/

namespace CrossTag

open Outcome

namespace Tree

variable {t : Tree}

/-! ### Following steps -/

theorem follow_append (place front back : List String) :
    t.follow place (front ++ back) = t.follow place front >>= (t.follow · back) := by
  induction front generalizing place with
  | nil => rfl
  | cons piece front ih =>
    rw [List.cons_append, follow, follow]
    split
    · split
      · exact ih place
      · split
        · exact ih _
        · split
          · exact ih _
          · rfl
    · rfl

/-- An empty step leads nowhere else. -/
theorem follow_of_append_empty {place front result : List String}
    (h : t.follow place (front ++ [""]) = .ok result) : t.follow place front = .ok result := by
  rw [follow_append] at h
  obtain ⟨next, hfront, hlast⟩ := bind_eq_ok_iff.1 h
  rw [follow] at hlast
  split at hlast
  · rw [if_pos (.inl rfl)] at hlast
    cases hlast
    exact hfront
  · cases hlast

theorem ne_empty_of_resolve {written : String} {key : List String}
    (h : t.resolve written = .ok key) : written ≠ "" := by
  rintro rfl
  cases h

/-- What stands below a directory is what stands under its path and more names. -/
theorem mem_below_iff {dir names : List String} {node : Node} :
    (names, node) ∈ t.below dir ↔ names ≠ [] ∧ (dir ++ names, node) ∈ t.nodes := by
  rw [below, List.mem_filterMap]
  constructor
  · rintro ⟨⟨key, node'⟩, hmem, h⟩
    simp only at h
    split at h
    · rename_i hbelow
      cases h
      rw [Bool.and_eq_true, List.isPrefixOf_iff_prefix, decide_eq_true_eq] at hbelow
      obtain ⟨⟨names, rfl⟩, hlength⟩ := hbelow
      rw [List.drop_left]
      refine ⟨?_, hmem⟩
      rintro rfl
      simp at hlength
    · cases h
  · rintro ⟨hne, hmem⟩
    have hlength := List.length_pos_iff.2 hne
    refine ⟨_, hmem, ?_⟩
    simp [hlength]

/-! ### Proper trees -/

/-- A tree as a file system holds it. -/
structure Proper (t : Tree) : Prop where
  names : ∀ p ∈ t.nodes, ∀ name ∈ p.1, Path.IsName name
  parents : ∀ p ∈ t.nodes, t.isDirAt p.1.dropLast = true
  distinct : (t.nodes.map (·.1)).Nodup
  current : t.isDirAt t.current = true

instance (t : Tree) : Decidable t.Proper :=
  decidable_of_iff ((∀ p ∈ t.nodes, ∀ name ∈ p.1, Path.IsName name)
      ∧ (∀ p ∈ t.nodes, t.isDirAt p.1.dropLast = true) ∧ (t.nodes.map (·.1)).Nodup
      ∧ t.isDirAt t.current = true)
    ⟨fun ⟨h₁, h₂, h₃, h₄⟩ => ⟨h₁, h₂, h₃, h₄⟩, fun ⟨h₁, h₂, h₃, h₄⟩ => ⟨h₁, h₂, h₃, h₄⟩⟩

theorem mem_of_node? {key : List String} (hkey : key ≠ []) {node : Node}
    (h : t.node? key = some node) : (key, node) ∈ t.nodes := by
  rw [node?, if_neg hkey] at h
  exact Pairs.mem_of_lookup h

theorem isDirAt_of_file {key : List String} {data : Bytes} (h : t.node? key = some (.file data)) :
    t.isDirAt key = false := by
  rw [isDirAt, h]
  rfl

theorem isDirAt_of_none {key : List String} (h : t.node? key = none) : t.isDirAt key = false := by
  rw [isDirAt, h]
  rfl

theorem contentOf_eq_ok_iff {written : String} {data : Bytes} :
    t.contentOf written = .ok data ↔
      ∃ key, t.resolve written = .ok key ∧ t.node? key = some (.file data) := by
  rw [contentOf, bind_eq_ok_iff]
  refine exists_congr fun key => and_congr_right fun _ => ?_
  constructor
  · intro h
    split at h
    · rename_i hnode
      cases h
      exact hnode
    · cases h
  · intro hnode
    rw [hnode]
    rfl

namespace Proper

theorem node?_of_mem (ht : t.Proper) {key : List String} (hkey : key ≠ []) {node : Node}
    (h : (key, node) ∈ t.nodes) : t.node? key = some node := by
  rw [node?, if_neg hkey]
  exact Pairs.lookup_of_mem ht.distinct h

theorem name_of_node? (ht : t.Proper) {key : List String} {node : Node}
    (h : t.node? key = some node) {name : String} (hname : name ∈ key) : Path.IsName name :=
  ht.names _ (mem_of_node? (List.ne_nil_of_mem hname) h) name hname

/-- Everything above something is a directory. -/
theorem isDirAt_above (ht : t.Proper) {place : List String} {name : String} {names : List String}
    (h : (t.node? (place ++ name :: names)).isSome) : t.isDirAt place = true := by
  -- Upwards from the last name: the directory that it stands in is itself in the tree.
  induction hn : names.length generalizing names with
  | zero =>
    obtain rfl := List.length_eq_zero_iff.1 hn
    obtain ⟨node, hnode⟩ := Option.isSome_iff_exists.1 h
    have hparent := ht.parents _ (mem_of_node? (by simp) hnode)
    rw [List.dropLast_concat] at hparent
    exact hparent
  | succ n ih =>
    have hne : names ≠ [] := by
      rintro rfl
      cases hn
    obtain ⟨node, hnode⟩ := Option.isSome_iff_exists.1 h
    have hparent := ht.parents _ (mem_of_node? (by simp) hnode)
    rw [List.dropLast_append_of_ne_nil (List.cons_ne_nil _ _), List.dropLast_cons_of_ne_nil hne,
      isDirAt, beq_iff_eq] at hparent
    exact ih (by rw [hparent]; rfl) (by rw [List.length_dropLast, hn]; rfl)

/-- A path leads to what stands under its names. -/
theorem follow_eq (ht : t.Proper) {place names : List String}
    (h : (t.node? (place ++ names)).isSome) : t.follow place names = .ok (place ++ names) := by
  induction names generalizing place with
  | nil => rw [follow, List.append_nil]
  | cons name names ih =>
    obtain ⟨node, hnode⟩ := Option.isSome_iff_exists.1 h
    have hname : Path.IsName name := ht.name_of_node? hnode (by simp)
    have hsplit : place ++ name :: names = place ++ [name] ++ names := by simp
    have hnext : (t.node? (place ++ [name])).isSome := by
      cases names with
      | nil => exact h
      | cons next names =>
        rw [hsplit] at h
        have hdir := ht.isDirAt_above h
        rw [isDirAt, beq_iff_eq] at hdir
        rw [hdir]
        rfl
    obtain ⟨next, hnext⟩ := Option.isSome_iff_exists.1 hnext
    have hplain : ¬ (name = "" ∨ name = Path.here) := by
      rintro (hempty | hhere)
      · exact hname.ne_empty hempty
      · exact hname.ne_here hhere
    rw [follow, if_pos (ht.isDirAt_above h), if_neg hplain, if_neg hname.ne_parent, hnext]
    rw [hsplit] at h ⊢
    exact ih h

/-- What a path leads to is in the tree. -/
theorem isSome_of_resolve (ht : t.Proper) {written : String} {key : List String}
    (h : t.resolve written = .ok key) : (t.node? key).isSome := by
  have hfollow : ∀ {place pieces : List String}, (t.node? place).isSome →
      t.follow place pieces = .ok key → (t.node? key).isSome := by
    intro place pieces hplace hkey
    fun_induction t.follow place pieces with
    | case1 place =>
      cases hkey
      exact hplace
    | case2 place piece rest hdir hhere ih => exact ih hplace hkey
    | case3 place rest hdir hhere ih =>
      refine ih ?_ hkey
      -- The parent of a directory is a directory, or there is none above it.
      by_cases hroot : place = []
      · rw [hroot]
        rfl
      · rw [isDirAt, beq_iff_eq] at hdir
        have hparent := ht.parents _ (mem_of_node? hroot hdir)
        rw [isDirAt, beq_iff_eq] at hparent
        rw [hparent]
        rfl
    | case4 place piece rest hdir hhere hparent node hnode ih =>
      exact ih (by rw [hnode]; rfl) hkey
    | case5 => cases hkey
    | case6 => cases hkey
  have hcurrent := ht.current
  rw [isDirAt, beq_iff_eq] at hcurrent
  rw [resolve] at h
  split at h
  · cases h
  · refine hfollow ?_ h
    rw [start]
    split
    · rfl
    · rw [hcurrent]
      rfl

/-- Names behind a path lead on from where the path leads. -/
theorem resolve_join (ht : t.Proper) {root : String} {base names : List String}
    (hroot : t.resolve root = .ok base) (hnames : names ≠ [])
    (h : (t.node? (base ++ names)).isSome) :
    t.resolve (Path.join root names) = .ok (base ++ names) := by
  obtain ⟨node, hnode⟩ := Option.isSome_iff_exists.1 h
  have hslash : ∀ name ∈ names, separator ∉ name.toList := fun name hname =>
    (ht.name_of_node? hnode (List.mem_append_right _ hname)).no_separator
  have hne : root ≠ "" := ne_empty_of_resolve hroot
  obtain ⟨front, hfront, hpieces, hjoin⟩ := Path.exists_pieces_join hne hnames
  rw [Path.pieces_intercalate hnames hslash] at hjoin
  have hbase : t.follow (t.start root) front = .ok base := by
    rw [resolve, if_neg (by simpa using hne)] at hroot
    rcases hpieces with hpieces | hpieces
    · rw [← hpieces]
      exact hroot
    · rw [hpieces] at hroot
      exact follow_of_append_empty hroot
  have hjoined := Path.join_ne_empty hne names
  rw [resolve, if_neg (by simpa using hjoined), start, Path.isRooted_join hne, hjoin,
    follow_append]
  show (t.follow (t.start root) front >>= _) = _
  rw [hbase]
  exact ht.follow_eq h

/-- The absolute path of something leads there. -/
theorem resolve_absolute (ht : t.Proper) {key : List String} (hkey : key ≠ [])
    (h : (t.node? key).isSome) : t.resolve (Path.absolute key).render = .ok key := by
  obtain ⟨node, hnode⟩ := Option.isSome_iff_exists.1 h
  have hslash : ∀ name ∈ key, separator ∉ name.toList := fun name hname =>
    (ht.name_of_node? hnode hname).no_separator
  have hrender : (Path.absolute key).render = "" ++ "/" ++ "/".intercalate key := by
    simp [Path.absolute, Path.render]
  have hpieces : Path.pieces (Path.absolute key).render = "" :: key := by
    rw [hrender, Path.pieces_append_separator, Path.pieces_intercalate hkey hslash]
    rfl
  have hrooted : Path.isRooted (Path.absolute key).render = true := by
    rw [hrender]
    simp [Path.isRooted, separator]
  have hne : (Path.absolute key).render.isEmpty = false := by
    rw [hrender]
    simp
  have hroot : t.isDirAt [] = true := rfl
  rw [resolve, if_neg (by simp [hne]), start, if_pos hrooted, hpieces, follow, if_pos hroot,
    if_pos (.inl rfl)]
  exact ht.follow_eq h

end Proper

end Tree

/-! ### Ignore files -/

namespace Ignore

/-- The names of ignore files in their directories. -/
def fileNames : List (List String) :=
  [[".ignore"], [".gitignore"], [".git", "info", "exclude"]]

variable {t : Tree}

/-- Without rules nothing is decided. -/
theorem judgeIn_eq_none {name : List String} (h : ∀ dir, rulesIn t dir name = [])
    (key : List String) (isDir : Bool) (dirs : List (List String)) :
    judgeIn t name key isDir dirs = none := by
  rw [judgeIn, List.findSome?_eq_none_iff]
  intro dir _
  rw [h dir]
  rfl

end Ignore

/-- A tree without ignore files. -/
def Tree.Plain (t : Tree) : Prop :=
  ∀ p ∈ t.nodes, ∀ name ∈ Ignore.fileNames, ¬ name <:+ p.1

instance (t : Tree) : Decidable t.Plain :=
  inferInstanceAs (Decidable (∀ p ∈ t.nodes, ∀ name ∈ Ignore.fileNames, ¬ name <:+ p.1))

theorem Tree.Plain.rulesIn_eq_nil {t : Tree} (ht : t.Plain) {name : List String}
    (hname : name ∈ Ignore.fileNames) (dir : List String) : Ignore.rulesIn t dir name = [] := by
  have hne : dir ++ name ≠ [] := by
    rintro hnil
    obtain rfl := (List.append_eq_nil_iff.1 hnil).2
    exact absurd hname (by decide)
  rw [Ignore.rulesIn]
  split
  · rename_i data hnode
    exact absurd (List.suffix_append dir name) (ht _ (Tree.mem_of_node? hne hnode) name hname)
  · rfl

theorem Tree.Plain.verdict_eq_none {t : Tree} (ht : t.Plain) (key : List String) (isDir : Bool) :
    Ignore.verdict t key isDir = none := by
  have hnone : ∀ name ∈ Ignore.fileNames, ∀ dirs, Ignore.judgeIn t name key isDir dirs = none :=
    fun name hname => Ignore.judgeIn_eq_none (ht.rulesIn_eq_nil hname) key isDir
  rw [Ignore.verdict, hnone _ (by decide), hnone _ (by decide), hnone _ (by decide)]
  rfl

/-! ### Files that are listed -/

namespace Walker

variable {w : Walker} {t : Tree} {root : String} {base names : List String}

/-- Without ignore files, what is passed over is what a glob selects and what is hidden. -/
theorem skips_eq_false_iff (ht : t.Plain) :
    w.skips t root base names = false ↔
      w.isIgnored (Path.join root names) (t.isDirAt (base ++ names)) = false
        ∧ ∀ name ∈ names.getLast?, isHidden name = false := by
  rw [skips, ht.verdict_eq_none, Bool.or_eq_false_iff]
  refine and_congr Iff.rfl ?_
  cases names.getLast? with
  | none => simp
  | some name => simp

theorem mem_stages_iff {stage : List String} :
    stage ∈ stages names ↔ stage ≠ [] ∧ stage <+: names := by
  rw [stages, List.mem_map]
  constructor
  · rintro ⟨i, hi, rfl⟩
    rw [List.mem_range] at hi
    refine ⟨?_, List.take_prefix _ _⟩
    intro hnil
    have := congrArg List.length hnil
    rw [List.length_take, List.length_nil] at this
    omega
  · rintro ⟨hne, hprefix⟩
    have hpos := List.length_pos_iff.2 hne
    refine ⟨stage.length - 1, List.mem_range.2 (by have := hprefix.length_le; omega), ?_⟩
    rw [Nat.sub_add_cancel hpos]
    exact (List.prefix_iff_eq_take.1 hprefix).symm

/-- A file that a walk from `root` finds under `names` below `base`, where no stage of the way to
it is passed over. -/
structure Finds (w : Walker) (t : Tree) (root : String) (base names : List String) : Prop where
  names_ne : names ≠ []
  file : ∃ data, (base ++ names, Node.file data) ∈ t.nodes
  kept : ∀ stage, stage ≠ [] → stage <+: names → w.skips t root base stage = false

theorem mem_filesBelow_iff {f : SourceFile} :
    f ∈ w.filesBelow t root base ↔
      ∃ names, w.Finds t root base names ∧ f = .ofPath (Path.join root names) := by
  rw [filesBelow, List.mem_filterMap]
  constructor
  · rintro ⟨⟨names, node⟩, hmem, h⟩
    obtain ⟨hne, hmem⟩ := Tree.mem_below_iff.1 hmem
    simp only at h
    split at h
    · rename_i hkept
      cases h
      rw [Bool.and_eq_true, bne_iff_ne, Bool.not_eq_true', List.any_eq_false] at hkept
      refine ⟨names, ⟨hne, ?_, ?_⟩, rfl⟩
      · cases node with
        | file data => exact ⟨data, hmem⟩
        | dir => exact absurd rfl hkept.1
      · intro stage hstage hprefix
        simpa using hkept.2 stage (mem_stages_iff.2 ⟨hstage, hprefix⟩)
    · cases h
  · rintro ⟨names, ⟨hne, ⟨data, hmem⟩, hkept⟩, rfl⟩
    refine ⟨(names, .file data), Tree.mem_below_iff.2 ⟨hne, hmem⟩, ?_⟩
    have hstages : (stages names).any (w.skips t root base) = false := by
      rw [List.any_eq_false]
      intro stage hstage
      obtain ⟨hstage, hprefix⟩ := mem_stages_iff.1 hstage
      simp [hkept stage hstage hprefix]
    simp [hstages]

/-- **What a walk lists:** a root that is a file, or the files found below a root that is a
directory. -/
theorem exists_of_mem_walk {files : List SourceFile} (h : w.walk t root = .ok files)
    {f : SourceFile} (hf : f ∈ files) :
    ∃ base names, t.resolve root = .ok base ∧ f = .ofPath (Path.join root names)
      ∧ (names = [] ∧ t.isDirAt base = false ∨ w.Finds t root base names) := by
  rw [walk] at h
  split at h
  · cases h
  · rename_i base hbase
    split at h
    · cases h
      rw [List.mem_mergeSort, mem_filesBelow_iff] at hf
      obtain ⟨names, hfinds, rfl⟩ := hf
      exact ⟨base, names, hbase, rfl, .inr hfinds⟩
    · rename_i hdir
      cases h
      obtain rfl := List.mem_singleton.1 hf
      exact ⟨base, [], hbase, rfl, .inl ⟨rfl, by simpa using hdir⟩⟩

/-- A file that is listed is in the tree, and its path leads to it. -/
theorem resolve_listed (ht : t.Proper) (hbase : t.resolve root = .ok base)
    (h : names = [] ∧ t.isDirAt base = false ∨ w.Finds t root base names) :
    t.resolve (Path.join root names) = .ok (base ++ names)
      ∧ ∃ data, t.node? (base ++ names) = some (.file data) := by
  rcases h with ⟨rfl, hdir⟩ | ⟨hne, ⟨data, hmem⟩, -⟩
  · rw [List.append_nil]
    refine ⟨hbase, ?_⟩
    obtain ⟨node, hnode⟩ := Option.isSome_iff_exists.1 (ht.isSome_of_resolve hbase)
    cases node with
    | file data => exact ⟨data, hnode⟩
    | dir =>
      rw [Tree.isDirAt, hnode] at hdir
      cases hdir
  · have hnode := ht.node?_of_mem (by simp [hne]) hmem
    exact ⟨ht.resolve_join hbase hne (by rw [hnode]; rfl), data, hnode⟩

/-- Without ignore files, no name of a file that is found is hidden, and no glob selects it. -/
theorem Finds.not_skipped (ht : t.Plain) (h : w.Finds t root base names) :
    (∀ name ∈ names, isHidden name = false)
      ∧ w.isIgnored (Path.join root names) (t.isDirAt (base ++ names)) = false := by
  constructor
  · intro name hname
    obtain ⟨front, back, rfl⟩ := List.append_of_mem hname
    have hstage : front ++ [name] <+: front ++ name :: back := ⟨back, by simp⟩
    have hkept := (skips_eq_false_iff ht).1 (h.kept (front ++ [name]) (by simp) hstage)
    exact hkept.2 name (by simp)
  · exact ((skips_eq_false_iff ht).1 (h.kept names h.names_ne List.prefix_rfl)).1

end Walker

end CrossTag
