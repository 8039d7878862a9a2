import CrossTag.Tag.Element
import CrossTag.Proofs.Attrs
import CrossTag.Proofs.Outcome
import CrossTag.Proofs.Text

/-!
# The grammar of tags

The reader of tags works through its tokens and sets attributes as it meets them. Here its
language is described apart from it, in two parts.

* A `Sentence` is the syntax: items before the name, the name, and attributes behind it.
  `Sentence.tokens` writes it down.
* `Sentence.Means` is the semantics: the attributes are set one by one from left to right
  (`Sets`), each under a key that is well formed and not taken yet, with the value that the
  rules of `Stores` give it; and the name is restricted unless a query for patterns was asked
  for in front of it.

The scope in front of a name stands among the assignments at the place of the name, so a scope
set before it and a scope set after it both collide with it.

The rules are tied to the reader one attribute at a time (`sets_cons_iff`). From there on, what
a list of assignments leads to is a matter of the rules alone: which keys there are, that no
value is ever replaced, and which kind of query was asked for.
-/

namespace CrossTag.Tag

open Outcome

/-! ### Syntax -/

/-- An attribute: a key, and a value if an equals sign and one more token follow. -/
structure Attribute where
  key : List Char
  value : Option Token

/-- What can stand before the name: the kind of a query, or an attribute. -/
inductive Leading
  | query (kind : List Char)
  | marked (a : Attribute)

/-- The name: quoted, or a word that is no item of another kind. A word may have a scope in
front, which is its file for `.` and its directory for `./`. -/
inductive Name
  | plain (text : List Char) (unmarked : ∀ c ∈ text.head?, c ≠ '?' ∧ c ≠ '@' ∧ c ≠ '.')
  | inFile (text : List Char) (unslashed : text.head? ≠ some '/')
  | inDirectory (text : List Char)
  | quoted (text : List Char)

/-- A tag. Behind the last attribute, one more key may be left with an equals sign that ends
the text. -/
structure Sentence where
  leading : List Leading
  name : Name
  trailing : List Attribute
  dangling : Option (List Char)

/-- An attribute as it is written; `mark` is what its key starts with. -/
def Attribute.tokens (mark : List Char) (a : Attribute) : List Token :=
  .word (mark ++ a.key) :: match a.value with
    | none => []
    | some value => [.equals, value]

def Leading.tokens : Leading → List Token
  | query kind => [.word ('?' :: kind)]
  | marked a => a.tokens ['@']

def Name.token : Name → Token
  | plain text _ => .word text
  | inFile text _ => .word ('.' :: text)
  | inDirectory text => .word ('.' :: '/' :: text)
  | quoted text => .quoted text

/-- What follows the name. -/
def trailingTokens (trailing : List Attribute) (dangling : Option (List Char)) : List Token :=
  trailing.flatMap (Attribute.tokens []) ++ match dangling with
    | none => []
    | some key => [.word key, .equals]

def Sentence.tokens (s : Sentence) : List Token :=
  s.leading.flatMap Leading.tokens ++ s.name.token :: trailingTokens s.trailing s.dangling

/-! ### Assignments -/

/-- The key and the value of an attribute; without a value it is empty. -/
def Attribute.assignment (a : Attribute) : String × String :=
  (String.ofList a.key, (a.value.map Token.asValue).getD "")

def Leading.assignment : Leading → String × String
  | query kind => (Entry.searchKey, String.ofList kind)
  | marked a => a.assignment

/-- The assignment that the scope in front of a name stands for. -/
def Name.scope : Name → List (String × String)
  | plain _ _ => []
  | inFile _ _ => [(Entry.scopeKey, ".")]
  | inDirectory _ => [(Entry.scopeKey, "./")]
  | quoted _ => []

/-- The name without a scope in front of it. -/
def Name.bare : Name → List Char
  | plain text _ | inFile text _ | inDirectory text | quoted text => text

def trailingAssignments (trailing : List Attribute) (dangling : Option (List Char)) :
    List (String × String) :=
  trailing.map Attribute.assignment ++ match dangling with
    | none => []
    | some key => [(String.ofList key, "")]

/-- Everything that a sentence sets, from left to right. -/
def Sentence.assignments (s : Sentence) : List (String × String) :=
  s.leading.map Leading.assignment ++ s.name.scope ++ trailingAssignments s.trailing s.dangling

/-! ### Meaning -/

/-- The words for the kinds of queries. -/
def spellings : PatternKind → List String
  | .exact => ["", "exact"]
  | .glob => ["g", "gl"]
  | .regexp => ["e", "re"]

/-- A path up to and including its last separator. -/
def IsDirectoryOf (dir path : String) : Prop :=
  ∃ front base : List Char, separator ∉ base ∧ dir.toList = front ++ [separator]
    ∧ path.toList = dir.toList ++ base

/-- The value that is stored when `key` is set to `value` in a file at `path`, or `none` if
there is nothing to store. -/
inductive Stores (path : String) : (key value : String) → Option String → Prop
  | file : Stores path Entry.scopeKey "." (some path)
  | directory {dir : String} : IsDirectoryOf dir path → Stores path Entry.scopeKey "./" (some dir)
  | top : separator ∉ path.toList → Stores path Entry.scopeKey "./" none
  | scope {value : String} : value ≠ "." → value ≠ "./" →
      Stores path Entry.scopeKey value (some value)
  | search {kind : PatternKind} {value : String} : value ∈ spellings kind →
      Stores path Entry.searchKey value (some kind.name)
  | other {key value : String} : key ≠ Entry.scopeKey → key ≠ Entry.searchKey →
      Stores path key value (some value)

/-- `Sets path attrs assignments final`: setting the assignments one by one, in a file at
`path`, leads from `attrs` to `final`. Every key is well formed and not taken. -/
inductive Sets (path : String) : Attrs → List (String × String) → Attrs → Prop
  | done (attrs : Attrs) : Sets path attrs [] attrs
  | leave {attrs final : Attrs} {key value : String} {rest : List (String × String)} :
      isKey key.toList = true → attrs.get? key = none → Stores path key value none →
      Sets path attrs rest final → Sets path attrs ((key, value) :: rest) final
  | set {attrs final : Attrs} {key value stored : String} {rest : List (String × String)} :
      isKey key.toList = true → attrs.get? key = none → Stores path key value (some stored) →
      Sets path (attrs.insert key stored) rest final →
      Sets path attrs ((key, value) :: rest) final

/-- A sentence asks for patterns if an item before its name sets `search` to a glob or a
regular expression. -/
def Sentence.AsksForPatterns (s : Sentence) : Prop :=
  ∃ value ∈ spellings .glob ++ spellings .regexp,
    (Entry.searchKey, value) ∈ s.leading.map Leading.assignment

/-- The entry that a sentence stands for at a location. -/
structure Sentence.Means (s : Sentence) (loc : Location) (e : Entry) : Prop where
  loc_eq : e.loc = loc
  name_eq : e.name = String.ofList s.name.bare
  sets : Sets loc.path Attrs.empty s.assignments e.attrs
  named : s.AsksForPatterns ∨ isName s.name.bare = true

/-! ### Setting attributes -/

theorem containingDir?_eq_some_iff {path dir : String} :
    containingDir? path = some dir ↔ IsDirectoryOf dir path := by
  simp only [containingDir?, Option.map_eq_some_iff, Prod.exists, IsDirectoryOf]
  constructor
  · rintro ⟨front, base, hsplit, rfl⟩
    obtain ⟨hpath, hbase⟩ := Text.splitLast?_eq_some_iff.1 hsplit
    exact ⟨front, base, hbase, by simp, by simp [hpath]⟩
  · rintro ⟨front, base, hbase, hdir, hpath⟩
    refine ⟨front, base, Text.splitLast?_eq_some_iff.2 ⟨?_, hbase⟩, ?_⟩
    · rw [hpath, hdir]
      simp
    · rw [← hdir]
      simp

theorem containingDir?_eq_none_iff {path : String} :
    containingDir? path = none ↔ separator ∉ path.toList := by
  rw [containingDir?, Option.map_eq_none_iff, Text.splitLast?_eq_none_iff]

theorem searchKind?_eq_some_iff {value : String} {kind : PatternKind} :
    searchKind? value = some kind ↔ value ∈ spellings kind := by
  unfold searchKind?
  split
  · rename_i h
    rcases h with rfl | rfl <;> cases kind <;> decide
  · split
    · rename_i h
      rcases h with rfl | rfl <;> cases kind <;> decide
    · split
      · rename_i h
        rcases h with rfl | rfl <;> cases kind <;> decide
      · rename_i hexact hglob hregexp
        cases kind <;> simp_all [spellings]

/-- The stored value follows the rules. -/
theorem storedValue_eq_ok_iff {path key value : String} {stored : Option String} :
    storedValue path key value = .ok stored ↔ Stores path key value stored := by
  constructor
  · intro h
    unfold storedValue at h
    split at h
    · rename_i hscope
      subst hscope
      split at h
      · rename_i hfile
        subst hfile
        cases h
        exact .file
      · split at h
        · rename_i hdir
          subst hdir
          cases h
          cases hd : containingDir? path with
          | none => exact .top (containingDir?_eq_none_iff.1 hd)
          | some dir => exact .directory (containingDir?_eq_some_iff.1 hd)
        · rename_i hfile hdir
          cases h
          exact .scope hfile hdir
    · split at h
      · rename_i hsearch
        subst hsearch
        split at h
        · rename_i kind hkind
          cases h
          exact .search (searchKind?_eq_some_iff.1 hkind)
        · cases h
      · rename_i hscope hsearch
        cases h
        exact .other hscope hsearch
  · intro h
    cases h with
    | file => rfl
    | directory hdir => simp [storedValue, containingDir?_eq_some_iff.2 hdir]
    | top htop => simp [storedValue, containingDir?_eq_none_iff.2 htop]
    | scope hfile hdir => simp [storedValue, hfile, hdir]
    | search hkind =>
      have hne : Entry.searchKey ≠ Entry.scopeKey := by decide
      simp [storedValue, hne, searchKind?_eq_some_iff.2 hkind]
    | other hscope hsearch => simp [storedValue, hscope, hsearch]

theorem Stores.search_inv {path value : String} {stored : Option String}
    (h : Stores path Entry.searchKey value stored) :
    ∃ kind, value ∈ spellings kind ∧ stored = some kind.name := by
  have hvalue := storedValue_eq_ok_iff.2 h
  rw [storedValue, if_neg (by decide), if_pos rfl] at hvalue
  split at hvalue
  · rename_i kind hkind
    cases hvalue
    exact ⟨kind, searchKind?_eq_some_iff.1 hkind, rfl⟩
  · cases hvalue

/-- Setting assignments is setting the first and then the others. -/
theorem sets_cons_iff {path key value : String} {attrs final : Attrs}
    {rest : List (String × String)} :
    Sets path attrs ((key, value) :: rest) final ↔
      ∃ next, setAttr path attrs key value = .ok next ∧ Sets path next rest final := by
  constructor
  · intro h
    cases h with
    | leave hkey hfree hstored hrest =>
      exact ⟨attrs, by simp [setAttr, hkey, hfree, storedValue_eq_ok_iff.2 hstored], hrest⟩
    | @set _ _ _ _ stored _ hkey hfree hstored hrest =>
      exact ⟨attrs.insert key stored,
        by simp [setAttr, hkey, hfree, storedValue_eq_ok_iff.2 hstored], hrest⟩
  · rintro ⟨next, hset, hrest⟩
    unfold setAttr at hset
    split at hset
    · rename_i hkey
      split at hset
      · cases hset
      · rename_i hfree
        split at hset
        · cases hset
        · rename_i hstored
          cases hset
          exact .leave hkey hfree (storedValue_eq_ok_iff.1 hstored) hrest
        · rename_i stored hstored
          cases hset
          exact .set hkey hfree (storedValue_eq_ok_iff.1 hstored) hrest
    · cases hset

theorem sets_nil_iff {path : String} {attrs final : Attrs} :
    Sets path attrs [] final ↔ final = attrs := by
  constructor
  · intro h
    cases h
    rfl
  · rintro rfl
    exact .done _

theorem sets_append_iff {path : String} {attrs final : Attrs} {xs ys : List (String × String)} :
    Sets path attrs (xs ++ ys) final ↔
      ∃ mid, Sets path attrs xs mid ∧ Sets path mid ys final := by
  induction xs generalizing attrs with
  | nil => simp [sets_nil_iff]
  | cons x xs ih =>
    obtain ⟨key, value⟩ := x
    simp only [List.cons_append, sets_cons_iff, ih]
    constructor
    · rintro ⟨next, hset, mid, hxs, hys⟩
      exact ⟨mid, ⟨next, hset, hxs⟩, hys⟩
    · rintro ⟨mid, ⟨next, hset, hxs⟩, hys⟩
      exact ⟨next, hset, mid, hxs, hys⟩

/-! ### Keys and queries -/

/-- Every key of the outcome was there or is well formed. -/
theorem Sets.keys {path : String} {attrs final : Attrs} {assignments : List (String × String)}
    (h : Sets path attrs assignments final) {key : String} (hkey : key ∈ final.keys) :
    key ∈ attrs.keys ∨ isKey key.toList = true := by
  induction h with
  | done => exact .inl hkey
  | leave _ _ _ _ ih => exact ih hkey
  | @set attrs final k _ stored _ hk _ _ _ ih =>
    rcases ih hkey with hold | hgood
    · obtain ⟨v, hv⟩ := Attrs.mem_keys_iff.1 hold
      rw [Attrs.get?_insert] at hv
      split at hv
      · rename_i heq
        exact .inr (heq ▸ hk)
      · exact .inl (Attrs.mem_keys_iff.2 ⟨v, hv⟩)
    · exact .inr hgood

/-- A value that is there stays: nothing is set twice. -/
theorem Sets.get?_of_some {path : String} {attrs final : Attrs}
    {assignments : List (String × String)} (h : Sets path attrs assignments final)
    {key value : String} (hkey : attrs.get? key = some value) : final.get? key = some value := by
  induction h with
  | done => exact hkey
  | leave _ _ _ _ ih => exact ih hkey
  | @set attrs _ k _ _ _ _ hfree _ _ ih =>
    have hne : key ≠ k := by
      rintro rfl
      rw [hkey] at hfree
      cases hfree
    exact ih (by rw [Attrs.get?_insert, if_neg hne, hkey])

/-- A key that is still to be set is free. -/
theorem Sets.get?_of_mem {path : String} {attrs final : Attrs}
    {assignments : List (String × String)} (h : Sets path attrs assignments final)
    {key value : String} (hmem : (key, value) ∈ assignments) : attrs.get? key = none := by
  induction h with
  | done => cases hmem
  | leave _ hfree _ _ ih =>
    rcases List.mem_cons.1 hmem with heq | hmem
    · cases heq
      exact hfree
    · exact ih hmem
  | set _ hfree _ _ ih =>
    rcases List.mem_cons.1 hmem with heq | hmem
    · cases heq
      exact hfree
    · have hnone := ih hmem
      rw [Attrs.get?_insert] at hnone
      split at hnone
      · cases hnone
      · exact hnone

/-- Whatever comes to stand under a key was stored there by an assignment. -/
theorem Sets.exists_stores {path : String} {attrs final : Attrs}
    {assignments : List (String × String)} (h : Sets path attrs assignments final)
    {key stored : String} (hnone : attrs.get? key = none) (hstored : final.get? key = some stored) :
    ∃ value, (key, value) ∈ assignments ∧ Stores path key value (some stored) := by
  induction h with
  | done =>
    rw [hnone] at hstored
    cases hstored
  | leave _ _ _ _ ih =>
    obtain ⟨value, hmem, hstores⟩ := ih hnone hstored
    exact ⟨value, List.mem_cons_of_mem _ hmem, hstores⟩
  | @set attrs final k v s rest _ _ hset hrest ih =>
    by_cases hk : key = k
    · subst hk
      -- What is stored under the key first stays there.
      have hkept := hrest.get?_of_some (show (attrs.insert key s).get? key = some s by simp)
      rw [hstored] at hkept
      cases hkept
      exact ⟨v, List.mem_cons_self, hset⟩
    · obtain ⟨value, hmem, hstores⟩ := ih (by simpa [hk] using hnone) hstored
      exact ⟨value, List.mem_cons_of_mem _ hmem, hstores⟩

theorem spellings_disjoint {kind kind' : PatternKind} {value : String}
    (h : value ∈ spellings kind) (h' : value ∈ spellings kind') : kind = kind' :=
  Option.some.inj ((searchKind?_eq_some_iff.2 h).symm.trans (searchKind?_eq_some_iff.2 h'))

theorem kindName_injective {kind kind' : PatternKind} (h : kind.name = kind'.name) :
    kind = kind' := by
  revert h
  cases kind <;> cases kind' <;> decide

/-- The kind of a query is the one that was asked for. -/
theorem Sets.get?_search_iff {path : String} {attrs final : Attrs}
    {assignments : List (String × String)} (h : Sets path attrs assignments final)
    (hnone : attrs.get? Entry.searchKey = none) (kind : PatternKind) :
    final.get? Entry.searchKey = some kind.name ↔
      ∃ value ∈ spellings kind, (Entry.searchKey, value) ∈ assignments := by
  induction h with
  | done => simp [hnone]
  | leave _ _ hstored _ ih =>
    -- Only a scope is left out.
    cases hstored
    simp [ih hnone, show Entry.searchKey ≠ Entry.scopeKey by decide]
  | @set attrs final key value stored rest _ _ hstored hrest ih =>
    by_cases hsearch : key = Entry.searchKey
    · subst hsearch
      have hfinal : final.get? Entry.searchKey = some stored :=
        hrest.get?_of_some (by rw [Attrs.get?_insert, if_pos rfl])
      -- The key is taken from here on, so no later assignment counts.
      have hlater : ∀ v, (Entry.searchKey, v) ∉ rest := by
        intro v hv
        have hfree := hrest.get?_of_mem hv
        rw [Attrs.get?_insert, if_pos rfl] at hfree
        cases hfree
      obtain ⟨kind', hspelled, hname⟩ := hstored.search_inv
      rw [hfinal, hname]
      constructor
      · intro heq
        rw [← kindName_injective (Option.some.inj heq)]
        exact ⟨value, hspelled, List.mem_cons_self⟩
      · rintro ⟨v, hv, hmem⟩
        rcases List.mem_cons.1 hmem with heq | hmem
        · cases heq
          rw [spellings_disjoint hspelled hv]
        · exact absurd hmem (hlater v)
    · have hfree : (attrs.insert key stored).get? Entry.searchKey = none := by
        rw [Attrs.get?_insert, if_neg (Ne.symm hsearch), hnone]
      simp [ih hfree, Ne.symm hsearch]

end CrossTag.Tag
