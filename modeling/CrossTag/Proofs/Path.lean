import CrossTag.Files.Path

/-!
# Paths and their pieces

A written path is read as the pieces between its separators. Putting names behind a path puts them
behind its pieces (`exists_pieces_join`), except that a separator at the end of the path, behind
which there is an empty piece, is not written twice.

Showing a path takes `./` off the front, and nothing else (`exists_dots`), that is, pieces that stay
in place (`components_dropDots`). So of the parts of a path, showing it can change only whether it starts
with such a step: two paths that are shown alike are the same path if both of them start with one,
or neither does (`ofString_eq_of_display_eq`).
-/

namespace CrossTag

/-- What a file or a directory may be called. -/
structure Path.IsName (name : String) : Prop where
  ne_empty : name ≠ ""
  ne_here : name ≠ here
  ne_parent : name ≠ parent
  no_separator : separator ∉ name.toList

instance (name : String) : Decidable (Path.IsName name) :=
  decidable_of_iff (name ≠ "" ∧ name ≠ Path.here ∧ name ≠ Path.parent ∧ separator ∉ name.toList)
    ⟨fun ⟨h₁, h₂, h₃, h₄⟩ => ⟨h₁, h₂, h₃, h₄⟩, fun ⟨h₁, h₂, h₃, h₄⟩ => ⟨h₁, h₂, h₃, h₄⟩⟩

namespace Path

/-! ### Pieces -/

/-- A component has no other characters than the path, and no separator. -/
theorem mem_of_mem_components {cs part : List Char} (h : part ∈ components cs) {a : Char}
    (ha : a ∈ part) : a ∈ cs ∧ a ≠ separator := by
  induction cs generalizing part with
  | nil =>
    cases List.mem_singleton.1 h
    cases ha
  | cons c cs ih =>
    -- What holds of a component behind `c` holds of it in the whole path.
    have behind : ∀ {part : List Char}, part ∈ components cs → a ∈ part →
        a ∈ c :: cs ∧ a ≠ separator := by
      intro part hpart ha
      exact ⟨List.mem_cons_of_mem _ (ih hpart ha).1, (ih hpart ha).2⟩
    rw [components, List.splitOn_cons_eq_if_modifyHead, ← components] at h
    split at h
    · rcases List.mem_cons.1 h with rfl | h
      · cases ha
      · exact behind h ha
    · rename_i hc
      obtain ⟨first, parts, hparts⟩ : ∃ first parts, components cs = first :: parts :=
        List.exists_cons_of_ne_nil (List.splitOn_ne_nil _ _)
      rw [hparts] at behind
      rw [hparts, List.modifyHead_cons, List.mem_cons] at h
      rcases h with rfl | h
      · rcases List.mem_cons.1 ha with rfl | ha
        · exact ⟨List.mem_cons_self, by simpa using hc⟩
        · exact behind List.mem_cons_self ha
      · exact behind (List.mem_cons_of_mem _ h) ha

theorem pieces_ne_nil (written : String) : pieces written ≠ [] := by
  intro h
  rw [pieces, List.map_eq_nil_iff] at h
  exact List.splitOn_ne_nil _ _ h

theorem pieces_append_separator (a b : String) :
    pieces (a ++ "/" ++ b) = pieces a ++ pieces b := by
  have hlist : (a ++ "/" ++ b).toList = a.toList ++ separator :: b.toList := by
    simp [separator]
  rw [pieces, components, hlist, List.splitOn_append_cons_self, List.map_append]
  rfl

/-- Names without separators are the pieces of the path that is made up of them. -/
theorem pieces_intercalate {names : List String} (hne : names ≠ [])
    (h : ∀ name ∈ names, separator ∉ name.toList) : pieces ("/".intercalate names) = names := by
  have hsplit : (List.intercalate [separator] (names.map String.toList)).splitOn separator
      = names.map String.toList := by
    refine List.splitOn_intercalate separator ?_ ?_
    · intro cs hcs
      obtain ⟨name, hname, rfl⟩ := List.mem_map.1 hcs
      exact h name hname
    · simpa using hne
  have hlist : ("/".intercalate names).toList
      = List.intercalate [separator] (names.map String.toList) := String.toList_intercalate
  rw [pieces, components, hlist, hsplit, List.map_map]
  simp [Function.comp_def]

/-- A path that ends in a separator, without it. -/
theorem exists_of_isDirectory {written : String} (h : Glob.isDirectory written.toList = true) :
    ∃ front, written = front ++ "/" := by
  rw [Glob.isDirectory, beq_iff_eq] at h
  obtain ⟨front, hfront⟩ := List.getLast?_eq_some_iff.1 h
  refine ⟨String.ofList front, ?_⟩
  rw [← String.toList_inj, hfront]
  simp [separator]

/-- The pieces of a path with names behind it: those of the path, without the empty piece behind
a separator at its end, and then those of the names. -/
theorem exists_pieces_join {written : String} (hwritten : written ≠ "") {names : List String}
    (hnames : names ≠ []) :
    ∃ front, front ≠ [] ∧ (pieces written = front ∨ pieces written = front ++ [""])
      ∧ pieces (join written names) = front ++ pieces ("/".intercalate names) := by
  have hempty : written.isEmpty = false := by simpa using hwritten
  cases hdir : Glob.isDirectory written.toList with
  | false =>
    refine ⟨pieces written, pieces_ne_nil written, .inl rfl, ?_⟩
    rw [← pieces_append_separator]
    simp [join, hnames, hempty, hdir]
  | true =>
    obtain ⟨front, rfl⟩ := exists_of_isDirectory hdir
    refine ⟨pieces front, pieces_ne_nil front, .inr ?_, ?_⟩
    · have h := pieces_append_separator front ""
      rw [String.append_empty] at h
      rw [h]
      rfl
    · rw [← pieces_append_separator, join, if_neg (by simpa using hnames),
        if_pos (by rw [hdir, Bool.or_true])]

theorem join_ne_empty {written : String} (hwritten : written ≠ "") (names : List String) :
    join written names ≠ "" := by
  unfold join
  split
  · exact hwritten
  · split <;> simp [hwritten]

theorem isRooted_join {written : String} (hwritten : written ≠ "") (names : List String) :
    isRooted (join written names) = isRooted written := by
  have hne : written.toList ≠ [] := by simpa using hwritten
  obtain ⟨c, cs, hcs⟩ := List.exists_cons_of_ne_nil hne
  have hhead : ∀ more : String, (written ++ more).toList.head? = written.toList.head? := by
    intro more
    rw [String.toList_append, hcs]
    rfl
  have hhead' : ∀ more more' : String,
      (written ++ more ++ more').toList.head? = written.toList.head? := by
    intro more more'
    rw [String.append_assoc, hhead]
  unfold isRooted join
  split
  · rfl
  · split
    · rw [hhead]
    · rw [hhead']

theorem components_toList (written : String) :
    components written.toList = (pieces written).map String.toList := by
  rw [pieces, List.map_map]
  simp [Function.comp_def]

/-- A path whose last piece is not empty does not end in a separator. -/
theorem isDirectory_eq_false {written : String} {front : List String} {last : String}
    (h : pieces written = front ++ [last]) (hlast : last ≠ "") :
    Glob.isDirectory written.toList = false := by
  cases hdir : Glob.isDirectory written.toList with
  | false => rfl
  | true =>
    obtain ⟨start, rfl⟩ := exists_of_isDirectory hdir
    have hpieces := pieces_append_separator start ""
    have hempty : pieces "" = [""] := rfl
    rw [String.append_empty, h, hempty] at hpieces
    exact absurd (List.append_inj_right' hpieces rfl) (by simpa using hlast)

/-! ### Shown paths -/

theorem components_here (rest : List Char) :
    components ('.' :: '/' :: rest) = ['.'] :: components rest := by
  have hdot : separator ∉ ['.'] := by decide
  exact List.splitOn_append_cons_self_of_not_mem hdot rest

/-- The text of `n` steps that stay in place. -/
def dots (n : Nat) : List Char :=
  (List.replicate n ['.', '/']).flatten

theorem dots_succ (n : Nat) (cs : List Char) :
    dots (n + 1) ++ cs = '.' :: '/' :: (dots n ++ cs) := by
  rw [dots, List.replicate_succ, List.flatten_cons]
  rfl

theorem getLast?_dots (n : Nat) : (dots (n + 1)).getLast? = some separator := by
  rw [dots, List.replicate_succ', List.flatten_append, List.getLast?_append]
  rfl

theorem components_dots (n : Nat) (cs : List Char) :
    components (dots n ++ cs) = List.replicate n ['.'] ++ components cs := by
  induction n with
  | zero => rfl
  | succ n ih => rw [dots_succ, components_here, ih, List.replicate_succ, List.cons_append]

theorem dropDots_dots (n : Nat) (cs : List Char) : dropDots (dots n ++ cs) = dropDots cs := by
  induction n with
  | zero => rfl
  | succ n ih => rw [dots_succ, dropDots, ih]

/-- Only steps that stay in place are taken off. -/
theorem exists_dots (cs : List Char) : ∃ n, cs = dots n ++ dropDots cs := by
  fun_induction dropDots cs with
  | case1 rest ih =>
    obtain ⟨n, hn⟩ := ih
    refine ⟨n + 1, ?_⟩
    rw [dots_succ, ← hn]
  | case2 cs _ => exact ⟨0, rfl⟩

/-- What is shown does not start with a step that stays in place, unless nothing follows it. -/
theorem dropDots_ne (cs rest : List Char) : dropDots cs ≠ '.' :: '/' :: rest := by
  fun_induction dropDots cs with
  | case1 rest' ih => exact ih
  | case2 cs hcs => exact hcs rest

/-- Showing a path takes off pieces that stay in place, and never the last piece. -/
theorem components_dropDots (cs : List Char) :
    ∃ n, components cs = List.replicate n ['.'] ++ components (dropDots cs) := by
  obtain ⟨n, hn⟩ := exists_dots cs
  refine ⟨n, ?_⟩
  rw [← components_dots, ← hn]

theorem exists_pieces_display (written : String) :
    ∃ n, pieces written = List.replicate n here ++ pieces (display written) := by
  obtain ⟨n, hn⟩ := components_dropDots written.toList
  refine ⟨n, ?_⟩
  rw [pieces, hn, List.map_append, List.map_replicate, pieces, display, String.toList_ofList]
  rfl

theorem parts_display (written : String) :
    (ofString (display written)).parts = (ofString written).parts := by
  obtain ⟨n, hn⟩ := exists_pieces_display written
  simp only [ofString, hn, List.filter_append, List.filter_replicate]
  simp

/-- A path that does not start in place is shown as it is. -/
theorem display_of_not_dotted {written : String} (h : (ofString written).dotted = false) :
    display written = written := by
  have hkeep : dropDots written.toList = written.toList := by
    generalize hcs : written.toList = cs
    fun_cases dropDots cs with
    | case1 rest =>
      rw [ofString, pieces, hcs, components_here] at h
      cases h
    | case2 hne => rfl
  rw [display, hkeep, String.ofList_toList]

/-- Names put behind a path are the last pieces of the path as it is shown. -/
theorem exists_pieces_display_join {written : String} (hwritten : written ≠ "")
    {names : List String} (hne : names ≠ []) (hnames : ∀ name ∈ names, IsName name) :
    ∃ front, pieces (display (join written names)) = front ++ names := by
  obtain ⟨front, -, -, hjoin⟩ := exists_pieces_join hwritten hne
  rw [pieces_intercalate hne fun name hname => (hnames name hname).no_separator] at hjoin
  obtain ⟨n, hdots⟩ := exists_pieces_display (join written names)
  rw [hjoin] at hdots
  rcases List.append_eq_append_iff.1 hdots with ⟨mid, hmid, hrest⟩ | ⟨mid, -, hrest⟩
  · -- What is taken off stays in place, and no name does.
    cases mid with
    | nil =>
      refine ⟨[], ?_⟩
      rw [List.nil_append] at hrest ⊢
      exact hrest.symm
    | cons step mid =>
      have hstep : step ∈ List.replicate n here := by
        rw [hmid]
        exact List.mem_append_right _ List.mem_cons_self
      have hname : step ∈ names := by
        rw [hrest]
        exact List.mem_append_left _ List.mem_cons_self
      exact absurd (List.eq_of_mem_replicate hstep) (hnames step hname).ne_here
  · exact ⟨mid, hrest⟩

/-- Names are shown as they are. -/
theorem display_intercalate {names : List String} (hnames : ∀ name ∈ names, IsName name) :
    display ("/".intercalate names) = "/".intercalate names := by
  cases names with
  | nil => rfl
  | cons name names =>
    refine display_of_not_dotted ?_
    have hpieces : pieces ("/".intercalate (name :: names)) = name :: names :=
      pieces_intercalate (List.cons_ne_nil _ _) fun name hname => (hnames name hname).no_separator
    have hne := (hnames name List.mem_cons_self).ne_here
    rw [ofString, hpieces]
    simpa using hne

theorem dropDots_append_of_nil {cs : List Char} (h : dropDots cs = []) (ds : List Char) :
    dropDots (cs ++ ds) = dropDots ds := by
  obtain ⟨n, hn⟩ := exists_dots cs
  rw [h, List.append_nil] at hn
  rw [hn, dropDots_dots]

theorem dropDots_append_of_here {cs : List Char} (h : dropDots cs = ['.']) (ds : List Char) :
    dropDots (cs ++ '/' :: ds) = dropDots ds := by
  obtain ⟨n, hn⟩ := exists_dots cs
  rw [h] at hn
  rw [hn, List.append_assoc, dropDots_dots]
  rfl

/-- A separator stops the search for steps to take off, unless such a step stands before it. -/
theorem dropDots_append_of_ne_here {cs : List Char} (h : dropDots cs ≠ ['.']) (ds : List Char) :
    dropDots (cs ++ '/' :: ds) = dropDots cs ++ '/' :: ds := by
  fun_induction dropDots cs with
  | case1 rest ih => exact ih h
  | case2 cs hcs =>
    rcases cs with _ | ⟨c, _ | ⟨c', cs⟩⟩
    · rfl
    · have hc : c ≠ '.' := fun hc => h (by rw [hc])
      simp [dropDots, hc]
    · rw [List.cons_append, List.cons_append, dropDots]
      rintro rest heq
      obtain ⟨rfl, hrest⟩ := List.cons.inj heq
      obtain ⟨rfl, -⟩ := List.cons.inj hrest
      exact hcs cs rfl

theorem isDirectory_of_dropDots_nil {cs : List Char} (hcs : cs ≠ []) (h : dropDots cs = []) :
    Glob.isDirectory cs = true := by
  obtain ⟨n, hn⟩ := exists_dots cs
  rw [h, List.append_nil] at hn
  cases n with
  | zero => exact absurd hn hcs
  | succ n =>
    rw [hn, Glob.isDirectory, getLast?_dots]
    rfl

theorem not_isDirectory_of_dropDots_here {cs : List Char} (h : dropDots cs = ['.']) :
    Glob.isDirectory cs = false := by
  obtain ⟨n, hn⟩ := exists_dots cs
  rw [h] at hn
  rw [hn, Glob.isDirectory, List.getLast?_concat]
  rfl

/-- What is written behind a path is shown behind it. -/
theorem display_below {written : String} (h : display written ≠ here) (more : String) :
    display (written ++ "/" ++ more) = display written ++ "/" ++ more := by
  have hdots : dropDots written.toList ≠ ['.'] := by
    intro hdots
    apply h
    rw [display, hdots]
    rfl
  rw [← String.toList_inj, display, display]
  simp [dropDots_append_of_ne_here hdots]

/-- What is written behind a step that stays in place is shown alone. -/
theorem display_below_here {written : String} (h : display written = here) (more : String) :
    display (written ++ "/" ++ more) = display more := by
  have hdots : dropDots written.toList = ['.'] := by
    rw [display, ← String.toList_inj, String.toList_ofList] at h
    exact h
  rw [display, display]
  simp [dropDots_append_of_here hdots]

/-- A path that stays in place. -/
def IsHere (written : String) : Prop :=
  written ≠ "" ∧ (display written = "" ∨ display written = here)

/-- Behind a path that stays in place, names are shown alone. -/
theorem IsHere.display_join {written : String} (h : IsHere written) {names : List String}
    (hne : names ≠ []) (hnames : ∀ name ∈ names, IsName name) :
    display (join written names) = "/".intercalate names := by
  have hlist : written.toList ≠ [] := by simpa using h.1
  have hshown := display_intercalate hnames
  rw [display, ← String.toList_inj, String.toList_ofList] at hshown
  rw [display, ← String.toList_inj, String.toList_ofList]
  rcases h.2 with hdisplay | hdisplay
  · rw [display, ← String.toList_inj, String.toList_ofList] at hdisplay
    have hdir := isDirectory_of_dropDots_nil hlist hdisplay
    rw [join, if_neg (by simpa using hne), if_pos (by rw [hdir, Bool.or_true]),
      String.toList_append, dropDots_append_of_nil hdisplay, hshown]
  · rw [display, ← String.toList_inj, String.toList_ofList] at hdisplay
    have hdir := not_isDirectory_of_dropDots_here hdisplay
    have hslash : "/".toList = ['/'] := rfl
    rw [join, if_neg (by simpa using hne), if_neg (by simp [hdir, h.1]),
      String.toList_append, String.toList_append, List.append_assoc, hslash, List.singleton_append,
      dropDots_append_of_here hdisplay, hshown]

/-- A path that starts in place does not start at the root. -/
theorem not_rooted_of_dotted {written : String} (h : (ofString written).dotted = true) :
    (ofString written).rooted = false := by
  cases hcs : written.toList with
  | nil => simp [ofString, isRooted, hcs]
  | cons c cs =>
    by_cases hc : c = separator
    · -- A separator at the front has an empty piece before it.
      have hempty : separator ∉ ([] : List Char) := List.not_mem_nil
      have hpieces : components (separator :: cs) = [] :: components cs :=
        List.splitOn_append_cons_self_of_not_mem hempty cs
      rw [ofString, pieces, hcs, hc, hpieces] at h
      cases h
    · simpa [ofString, isRooted, hcs] using hc

/-- **Two paths that are shown alike are the same path, if both start in place or neither
does.** -/
theorem ofString_eq_of_display_eq {a b : String} (h : display a = display b)
    (hdotted : (ofString a).dotted = (ofString b).dotted) : ofString a = ofString b := by
  cases ha : (ofString a).dotted with
  | false =>
    rw [ha] at hdotted
    rw [display_of_not_dotted ha, display_of_not_dotted hdotted.symm] at h
    rw [h]
  | true =>
    have hb : (ofString b).dotted = true := by rw [← hdotted, ha]
    have hparts : (ofString a).parts = (ofString b).parts := by
      rw [← parts_display a, h, parts_display b]
    show Path.mk (ofString a).rooted (ofString a).dotted (ofString a).parts
      = Path.mk (ofString b).rooted (ofString b).dotted (ofString b).parts
    rw [hdotted, hparts, not_rooted_of_dotted ha, not_rooted_of_dotted hb]

/-- Names behind a path do not change where it starts. -/
theorem dotted_join {written : String} (hwritten : written ≠ "") (names : List String) :
    (ofString (join written names)).dotted = (ofString written).dotted := by
  by_cases hnames : names = []
  · rw [hnames]
    rfl
  · obtain ⟨front, hfront, hpieces, hjoin⟩ := exists_pieces_join hwritten hnames
    obtain ⟨piece, front, rfl⟩ := List.exists_cons_of_ne_nil hfront
    rcases hpieces with hpieces | hpieces
    · rw [ofString, ofString, hjoin, hpieces]
      rfl
    · rw [ofString, ofString, hjoin, hpieces]
      rfl

end Path

end CrossTag
