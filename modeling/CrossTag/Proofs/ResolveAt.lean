import CrossTag.Command.Search
import CrossTag.Proofs.Index
import CrossTag.Proofs.Resolve

/-!
# The tag at a cursor

The text of a tag is read from the file at a cursor, or it is given together with the cursor. The
two ways differ in where the tag then stands:

    read    the columns from one delimiter to the other
    given   the cursor itself

Reading a tag depends on its place through the path alone (`Tag.parse_moveTo`), and so does what it
refers to (`Index.referents_moveTo`), so the two ways find the same entries. Only navigation asks
for the exact place, because it starts there (`Project.resolveElement_of_navigating`). A cursor of
one column is no place at which a bracketed tag stands, so in an index of such tags a tag whose text
is given does not find itself, and navigation from it runs off the end at once.
-/

namespace CrossTag

open Outcome

/-! ### Moving a tag within its file -/

/-- The same entry at another location. -/
def Entry.moveTo (e : Entry) (loc : Location) : Entry :=
  { e with loc := loc }

@[simp] theorem Entry.moveTo_loc (e : Entry) (loc : Location) : (e.moveTo loc).loc = loc := rfl

namespace Tag

/-- The name and the attributes of a tag in a file. -/
def readIn (path text : String) : Except TagError (String × Attrs) := do
  let tokens ← (tokenize text.toList).mapError .invalidQuoting
  if tokens.isEmpty then throw .emptyElement
  readLeading path Attrs.empty tokens

theorem parse_eq_readIn (text : String) (loc : Location) :
    parse text loc = (readIn loc.path text).map fun p => ⟨p.1, p.2, loc⟩ := by
  unfold parse readIn
  cases (tokenize text.toList).mapError TagError.invalidQuoting with
  | error e => rfl
  | ok tokens =>
    cases tokens with
    | nil => rfl
    | cons token tokens =>
      show (readLeading loc.path Attrs.empty (token :: tokens) >>= _)
        = (readLeading loc.path Attrs.empty (token :: tokens)).map _
      cases readLeading loc.path Attrs.empty (token :: tokens) with
      | error e => rfl
      | ok p => rfl

/-- Reading a tag depends on its location through the path alone. -/
theorem parse_moveTo {a b : Location} (hpath : a.path = b.path) (text : String) :
    parse text b = (parse text a).map (·.moveTo b) := by
  rw [parse_eq_readIn, parse_eq_readIn, hpath]
  cases readIn b.path text with
  | error e => rfl
  | ok p => rfl

theorem loc_eq_of_parse {text : String} {loc : Location} {e : Entry}
    (h : parse text loc = .ok e) : e.loc = loc :=
  (parse_eq_ok_iff_readLeading.1 h).1

end Tag

namespace Index

variable {index : Index} {what : Entry} {loc : Location}

/-- What a tag refers to depends on its location through the path alone. -/
theorem referents_moveTo (hpath : loc.path = what.loc.path) :
    index.referents (what.moveTo loc) = index.referents what := by
  have hsees : ∀ e : Entry, e.isReferredBy (what.moveTo loc) = e.isReferredBy what := by
    intro e
    simp only [Entry.isReferredBy, Entry.moveTo_loc, hpath]
    rfl
  simp only [referents, hsees]
  rfl

/-- Unless it navigates, what a tag is resolved to depends on its location through the path
alone. -/
theorem resolve_moveTo (hpath : loc.path = what.loc.path) {options : ResolveOptions}
    (h : ∀ mode, options.mode = .ok mode → mode = .all ∨ what.isSearch = true) :
    index.resolve (what.moveTo loc) options = index.resolve what options := by
  cases hmode : options.mode with
  | error error =>
    simp only [resolve, hmode]
    rfl
  | ok mode =>
    cases hwhat : what.isSearch with
    | true =>
      have hmoved : (what.moveTo loc).isSearch = true := hwhat
      rw [resolve_of_query hwhat hmode, resolve_of_query hmoved hmode]
      rfl
    | false =>
      have hmoved : (what.moveTo loc).isSearch = false := hwhat
      have hall : mode = .all := (h mode hmode).resolve_right (by simp [hwhat])
      subst hall
      rw [resolve_of_concrete hwhat hmode, resolve_of_concrete hmoved hmode,
        referents_moveTo hpath]
      rfl

end Index

/-! ### Cursors -/

/-- A location as the program sees it, with its path as locations show it. -/
def Location.shown (l : Location) : Location :=
  { l with path := Path.display l.path }

theorem Location.path_eq_of_contains {outer inner : Location} (h : outer.contains inner = true) :
    outer.path = inner.path := by
  simp only [contains, Bool.and_eq_true, beq_iff_eq] at h
  exact h.1.1.1

/-- An element that is found at a cursor contains it. -/
theorem contains_of_elementAt {t : Tree} {b : Bracket} {loc : Location} {el : Element}
    (h : elementAt t b loc = .ok el) : el.loc.contains loc = true := by
  obtain ⟨elements, -, h⟩ := bind_eq_ok_iff.1 h
  split at h
  · cases h
  · rename_i found hfilter
    cases h
    have hmem : el ∈ elements.filter (·.loc.contains loc) := by
      rw [hfilter]
      exact List.mem_cons_self
    exact (List.mem_filter.1 hmem).2
  · cases h

namespace Project

variable {p : Project} {indexPath : Option String} {options : ResolveOptions}

/-- What an element refers to. -/
def resolveElement (p : Project) (indexPath : Option String) (options : ResolveOptions)
    (el : Element) : Except Failure Resolution := do
  let what ← (Tag.parse el.text el.loc).mapError .tag
  let index ← p.loadIndex indexPath
  (index.resolve what options).mapError .resolve

section Cursor

variable {loc : String} {cursor : Location}

/-- Conflicting flags are reported before anything is looked at. -/
theorem resolveAt_of_conflict {error : ResolveError} (hmode : options.mode = .error error)
    (content : Option String) :
    p.resolveAt indexPath loc content options = .error (.resolve error) := by
  simp only [resolveAt, hmode]
  rfl

/-- A text that is given stands at the cursor. -/
theorem resolveAt_some {mode : Mode} (hmode : options.mode = .ok mode)
    (hloc : Location.parse loc = .ok cursor) (text : String) :
    p.resolveAt indexPath loc (some text) options
      = p.resolveElement indexPath options ⟨text, cursor.shown⟩ := by
  simp only [resolveAt, hmode, hloc]
  rfl

/-- A text that is read stands where it was found. -/
theorem resolveAt_none {mode : Mode} (hmode : options.mode = .ok mode)
    (hloc : Location.parse loc = .ok cursor) {el : Element}
    (hel : elementAt p.tree p.config.scanner.bracket cursor.shown = .ok el) :
    p.resolveAt indexPath loc none options = p.resolveElement indexPath options el :=
  calc p.resolveAt indexPath loc none options
      = elementAt p.tree p.config.scanner.bracket cursor.shown
          >>= p.resolveElement indexPath options := by
        simp only [resolveAt, hmode, hloc]
        rfl
    _ = p.resolveElement indexPath options el := by
        rw [hel]
        rfl

end Cursor

/-- Resolving an element is navigation: it is a tag other than a query, there is an index to
resolve it against, and one of the two directions is asked for. -/
structure Navigating (p : Project) (indexPath : Option String) (options : ResolveOptions)
    (el : Element) (what : Entry) (index : Index) (mode : Mode) : Prop where
  parses : Tag.parse el.text el.loc = .ok what
  concrete : what.isSearch = false
  loads : p.loadIndex indexPath = .ok index
  mode_eq : options.mode = .ok mode
  mode_ne : mode ≠ .all

section Element

variable {el : Element} {loc : Location}

/-- Unless it is navigation, it does not matter where in its file an element stands. -/
theorem resolveElement_moveTo (hpath : el.loc.path = loc.path)
    (h : ¬ ∃ what index mode, p.Navigating indexPath options el what index mode) :
    p.resolveElement indexPath options ⟨el.text, loc⟩ = p.resolveElement indexPath options el := by
  simp only [resolveElement, Tag.parse_moveTo hpath]
  cases hparse : Tag.parse el.text el.loc with
  | error e => rfl
  | ok what =>
    cases hload : p.loadIndex indexPath with
    | error e => rfl
    | ok index =>
      have hwhat : what.loc.path = loc.path := Tag.loc_eq_of_parse hparse ▸ hpath
      have hidle : ∀ mode, options.mode = .ok mode → mode = .all ∨ what.isSearch = true := by
        intro mode hmode
        cases hsearch : what.isSearch with
        | true => exact .inr rfl
        | false =>
          refine .inl (Decidable.byContradiction fun hne => h ⟨what, index, mode, ?_⟩)
          exact ⟨hparse, hsearch, hload, hmode, hne⟩
      exact congrArg (Except.mapError Failure.resolve) (Index.resolve_moveTo hwhat.symm hidle)

/-- Navigation starts where the element is said to stand. -/
theorem resolveElement_of_navigating {what : Entry} {index : Index} {mode : Mode}
    (h : p.Navigating indexPath options el what index mode) (hpath : el.loc.path = loc.path) :
    p.resolveElement indexPath options ⟨el.text, loc⟩
      = ((navigate (index.referents what) loc mode options.cyclic).map
          fun entries => (⟨entries, []⟩ : Resolution)).mapError .resolve := by
  have hwhat : what.loc.path = loc.path := Tag.loc_eq_of_parse h.parses ▸ hpath
  have hmoved : (what.moveTo loc).isSearch = false := h.concrete
  have hresolve : index.resolve (what.moveTo loc) options
      = (navigate (index.referents what) loc mode options.cyclic).map (⟨·, []⟩) := by
    rw [Index.resolve_of_concrete hmoved h.mode_eq, Index.referents_moveTo hwhat.symm]
    rfl
  simp only [resolveElement, Tag.parse_moveTo hpath, h.parses, h.loads]
  exact congrArg (Except.mapError Failure.resolve) hresolve

end Element

section Start

variable {loc : String} {cursor : Location} {el : Element} {what : Entry} {index : Index}
  {mode : Mode}

/-- A tag whose text is given goes on from the cursor. -/
theorem resolveAt_some_of_navigating (h : p.Navigating indexPath options el what index mode)
    (hloc : Location.parse loc = .ok cursor)
    (hel : elementAt p.tree p.config.scanner.bracket cursor.shown = .ok el) :
    p.resolveAt indexPath loc (some el.text) options
      = ((navigate (index.referents what) cursor.shown mode options.cyclic).map
          fun entries => (⟨entries, []⟩ : Resolution)).mapError .resolve := by
  rw [resolveAt_some h.mode_eq hloc]
  exact resolveElement_of_navigating h (Location.path_eq_of_contains (contains_of_elementAt hel))

/-- A tag that is read goes on from its own place. -/
theorem resolveAt_none_of_navigating (h : p.Navigating indexPath options el what index mode)
    (hloc : Location.parse loc = .ok cursor)
    (hel : elementAt p.tree p.config.scanner.bracket cursor.shown = .ok el) :
    p.resolveAt indexPath loc none options
      = ((navigate (index.referents what) el.loc mode options.cyclic).map
          fun entries => (⟨entries, []⟩ : Resolution)).mapError .resolve := by
  rw [resolveAt_none h.mode_eq hloc hel]
  exact resolveElement_of_navigating h rfl

end Start

/-- **Giving the text of a tag instead of reading it from the file.** Unless the tag navigates, the
two agree, failures included. They also agree if the location given with the text is that of the
whole tag. A tag that navigates starts from the cursor if its text is given, and from its own place
if it is read. If nothing that it refers to stands at the cursor, then navigation from there runs
off the end, which is the right answer exactly if the tag is not in the index, or is alone at its
place with nothing ahead of it. -/
theorem resolveAt_given {loc : String} {cursor : Location} {el : Element}
    (hloc : Location.parse loc = .ok cursor)
    (hel : elementAt p.tree p.config.scanner.bracket cursor.shown = .ok el) :
    let given := p.resolveAt indexPath loc (some el.text) options
    let read := p.resolveAt indexPath loc none options
    ((¬ ∃ what index mode, p.Navigating indexPath options el what index mode) → given = read)
      ∧ (∀ whole place, Location.parse whole = .ok place → place.shown = el.loc →
          p.resolveAt indexPath whole (some el.text) options = read)
      ∧ ∀ what index mode, p.Navigating indexPath options el what index mode →
          let found := index.referents what
          (given = read ↔ navigate found cursor.shown mode options.cyclic
              = navigate found el.loc mode options.cyclic)
            ∧ (countAt cursor.shown found = 0 →
                given = .ok ⟨offEnd found mode options.cyclic, []⟩
                  ∧ (given = read ↔ countAt el.loc found = 0
                      ∨ countAt el.loc found = 1 ∧ nearest? found el.loc mode = none)) := by
  refine ⟨?_, ?_, ?_⟩
  · intro hidle
    have hpath := Location.path_eq_of_contains (contains_of_elementAt hel)
    cases hmode : options.mode with
    | error error => rw [resolveAt_of_conflict hmode, resolveAt_of_conflict hmode]
    | ok mode =>
      rw [resolveAt_some hmode hloc, resolveAt_none hmode hloc hel]
      exact resolveElement_moveTo hpath hidle
  · intro whole place hwhole hplace
    cases hmode : options.mode with
    | error error => rw [resolveAt_of_conflict hmode, resolveAt_of_conflict hmode]
    | ok mode => rw [resolveAt_some hmode hwhole, resolveAt_none hmode hloc hel, hplace]
  · intro what index mode hnav
    have hsorted := Index.referents_inOrder index what
    have hgiven := resolveAt_some_of_navigating hnav hloc hel
    have hread := resolveAt_none_of_navigating hnav hloc hel
    have hiff : p.resolveAt indexPath loc (some el.text) options
          = p.resolveAt indexPath loc none options
        ↔ navigate (index.referents what) cursor.shown mode options.cyclic
          = navigate (index.referents what) el.loc mode options.cyclic := by
      rw [hgiven, hread]
      exact map_mapError_inj (fun h => congrArg Resolution.entries h) Failure.resolve.inj
    refine ⟨hiff, ?_⟩
    intro hnone
    have hoff := navigate_of_none hnav.mode_ne options.cyclic hnone
    refine ⟨?_, ?_⟩
    · rw [hgiven, hoff]
      rfl
    · rw [hiff, hoff, eq_comm]
      exact navigate_eq_offEnd_iff hsorted hnav.mode_ne options.cyclic

open Index (meowAt)

/-- A project with one tag in its file and two in the index that comes in. -/
def openFile : Project where
  tree := ⟨[(["a.rs"], .file (.ofString "[# meow #]\n"))], []⟩
  input := .ofString "# v4\nmeow a.rs:1.1-10\nmeow b.rs:1.1-10\n"

def openTag : Element :=
  ⟨"meow", ⟨"a.rs", 1, 1, 10⟩⟩

def twoMeows : Index where
  entries := [meowAt "a.rs" 1, meowAt "b.rs" 1]
  sorted := by decide

/-- A cursor within the tag, and what the tag asks for when it goes on from there. -/
theorem openFile_navigating :
    Location.parse "a.rs:1.4" = .ok ⟨"a.rs", 1, 4, 5⟩
      ∧ elementAt openFile.tree openFile.config.scanner.bracket
          (Location.shown ⟨"a.rs", 1, 4, 5⟩) = .ok openTag
      ∧ openFile.Navigating (some Store.standardStream) { next := true } openTag
          (meowAt "a.rs" 1) twoMeows .next := by
  have hreading : Index.readBytes openFile.input = ⟨twoMeows.entries, none⟩ := by decide +kernel
  have hload : openFile.loadIndex (some Store.standardStream) = .ok twoMeows := by
    show ((Index.readBytes openFile.input).toIndex).mapError Failure.ofIndexFault = .ok twoMeows
    rw [hreading]
    exact congrArg Except.ok (Index.ofList_entries twoMeows)
  refine ⟨by with_unfolding_all rfl, by with_unfolding_all rfl, ?_⟩
  exact ⟨by with_unfolding_all rfl, rfl, hload, rfl, by decide⟩

theorem resolveAt_given_openFile :
    Location.parse "a.rs:1.4" = .ok ⟨"a.rs", 1, 4, 5⟩
      ∧ elementAt openFile.tree openFile.config.scanner.bracket
          (Location.shown ⟨"a.rs", 1, 4, 5⟩) = .ok openTag
      ∧ openFile.Navigating (some Store.standardStream) { next := true } openTag
          (meowAt "a.rs" 1) twoMeows .next
      ∧ openFile.resolveAt (some Store.standardStream) "a.rs:1.4" (some "meow") { next := true }
          = .ok ⟨[], []⟩
      ∧ openFile.resolveAt (some Store.standardStream) "a.rs:1.4" (some "meow") { next := true }
          ≠ openFile.resolveAt (some Store.standardStream) "a.rs:1.4" none { next := true } := by
  obtain ⟨hloc, hel, hnav⟩ := openFile_navigating
  obtain ⟨-, -, hgoesOn⟩ := resolveAt_given hloc hel
  obtain ⟨hoff, hagree⟩ := (hgoesOn _ _ _ hnav).2 (by decide)
  refine ⟨hloc, hel, hnav, hoff, ?_⟩
  intro hsame
  exact absurd (hagree.1 hsame) (by decide)

/-- At a cursor of one column within a tag, the next entry is found if the tag is read, and none is
found if its text is given. -/
theorem resolveAt_given_ne_read :
    openFile.resolveAt (some Store.standardStream) "a.rs:1.4" (some "meow") { next := true }
        = .ok ⟨[], []⟩
      ∧ openFile.resolveAt (some Store.standardStream) "a.rs:1.4" none { next := true }
        = .ok ⟨[meowAt "b.rs" 1], []⟩
      ∧ ¬ ∀ (p : Project) (indexPath : Option String) (loc : String) (cursor : Location)
          (el : Element) (options : ResolveOptions),
          Location.parse loc = .ok cursor → cursor.endColumn = cursor.startColumn + 1 →
          elementAt p.tree p.config.scanner.bracket cursor.shown = .ok el →
          p.resolveAt indexPath loc (some el.text) options
            = p.resolveAt indexPath loc none options := by
  obtain ⟨hloc, hel, hnav⟩ := openFile_navigating
  have hgiven := resolveAt_some_of_navigating hnav hloc hel
  have hread := resolveAt_none_of_navigating hnav hloc hel
  have hcursor : navigate (twoMeows.referents (meowAt "a.rs" 1))
      (Location.shown ⟨"a.rs", 1, 4, 5⟩) .next false = .ok [] := rfl
  have hplace : navigate (twoMeows.referents (meowAt "a.rs" 1)) openTag.loc .next false
      = .ok [meowAt "b.rs" 1] := rfl
  rw [hcursor] at hgiven
  rw [hplace] at hread
  refine ⟨hgiven, hread, ?_⟩
  intro h
  have hsame := h openFile (some Store.standardStream) "a.rs:1.4" _ openTag { next := true } hloc
    rfl hel
  rw [hgiven, hread] at hsame
  cases hsame

end Project

end CrossTag
