import CrossTag.Proofs.Resolve
import CrossTag.Proofs.Tag.Reader

/-!
# Entries of tags are well formed

Every entry that is read from a tag has well-formed keys, a kind of query that there is, and a
well-formed name unless that kind makes its name a pattern. Keys and kinds are checked where they
are set. The name is checked against the kind that is known when it is read, which is no loss:

    kind asked for before the name      known, and never replaced
    kind asked for after the name       not known, so the name was checked

So an entry whose final kind takes no patterns had its name checked, wherever in the tag the kind
stands. What follows for queries needs nothing else of the tag: a kind that there is can be
compiled for (`WellFormed.query_error`), and exact texts always compile (`query_of_exact`).
-/

namespace CrossTag

open Outcome

/-! ### Identifiers -/

/-- A letter, a digit or an underscore: `[A-Za-z0-9_]`. -/
def IsWordChar (c : Char) : Prop :=
  'A' ≤ c ∧ c ≤ 'Z' ∨ 'a' ≤ c ∧ c ≤ 'z' ∨ '0' ≤ c ∧ c ≤ '9' ∨ c = '_'

/-- A text that starts with a word character and goes on with such characters and some others. -/
def IsIdentifier (others : List Char) (text : String) : Prop :=
  ∃ c cs, text.toList = c :: cs ∧ IsWordChar c ∧ ∀ d ∈ cs, IsWordChar d ∨ d ∈ others

namespace Tag

theorem isNameStart_iff {c : Char} : isNameStart c = true ↔ IsWordChar c := by
  have hupper : c.isUpper = decide ('A' ≤ c ∧ c ≤ 'Z') := rfl
  have hlower : c.isLower = (decide ('a' ≤ c) && decide (c ≤ 'z')) := rfl
  have hdigit : c.isDigit = (decide ('0' ≤ c) && decide (c ≤ '9')) := rfl
  show (((c.isUpper || c.isLower) || c.isDigit) || c == '_') = true ↔ IsWordChar c
  simp only [hupper, hlower, hdigit, Bool.or_eq_true, Bool.and_eq_true, decide_eq_true_eq,
    beq_iff_eq, or_assoc, IsWordChar]

/-- What goes on like an identifier is one. -/
theorem startsAndGoesOn_iff {goesOn : Char → Bool} {others : List Char} {text : String}
    (h : ∀ c, goesOn c = true ↔ IsWordChar c ∨ c ∈ others) :
    startsAndGoesOn goesOn text.toList = true ↔ IsIdentifier others text := by
  cases htext : text.toList with
  | nil => simp [startsAndGoesOn, IsIdentifier, htext]
  | cons c cs =>
    simp only [startsAndGoesOn, Bool.and_eq_true, List.all_eq_true, isNameStart_iff, h]
    constructor
    · rintro ⟨hc, hcs⟩
      exact ⟨c, cs, htext, hc, hcs⟩
    · rintro ⟨c', cs', htext', hc, hcs⟩
      cases htext.symm.trans htext'
      exact ⟨hc, hcs⟩

theorem isKey_iff {key : String} :
    isKey key.toList = true ↔ IsIdentifier [':', '-'] key := by
  apply startsAndGoesOn_iff
  intro c
  simp [isKeyChar, isNameStart_iff, or_assoc]

theorem isName_iff {name : String} :
    isName name.toList = true ↔ IsIdentifier [':', '-', '.', '/'] name := by
  apply startsAndGoesOn_iff
  intro c
  simp [isNameChar, isKeyChar, isNameStart_iff, or_assoc]

end Tag

/-! ### Well-formed entries -/

namespace Entry

variable {e : Entry}

/-- What every entry of a tag satisfies. -/
structure WellFormed (e : Entry) : Prop where
  keys : ∀ key ∈ e.attrs.keys, IsIdentifier [':', '-'] key
  search : ∀ kind, e.search? = some kind → kind = "exact" ∨ kind = "glob" ∨ kind = "regexp"
  name : IsIdentifier [':', '-', '.', '/'] e.name
    ∨ e.search? = some "glob" ∨ e.search? = some "regexp"

end Entry

namespace Tag

variable {text : String} {loc : Location} {e : Entry}

/-- The kind of a query is one that there is. -/
theorem search_of_means {s : Sentence} (h : s.Means loc e) {kind : String}
    (hkind : e.search? = some kind) : kind = "exact" ∨ kind = "glob" ∨ kind = "regexp" := by
  obtain ⟨value, -, hstores⟩ := h.sets.exists_stores rfl hkind
  obtain ⟨kind', -, heq⟩ := hstores.search_inv
  cases heq
  cases kind' with
  | exact => exact .inl rfl
  | glob => exact .inr (.inl rfl)
  | regexp => exact .inr (.inr rfl)

/-- A kind that is asked for in front of the name is the kind of the entry. -/
theorem search_of_asks {s : Sentence} (h : s.Means loc e) (hasks : s.AsksForPatterns) :
    e.search? = some "glob" ∨ e.search? = some "regexp" := by
  obtain ⟨value, hvalue, hleading⟩ := hasks
  have hmem : (Entry.searchKey, value) ∈ s.assignments := by
    rw [Sentence.assignments, List.append_assoc]
    exact List.mem_append_left _ hleading
  rcases List.mem_append.1 hvalue with hglob | hregexp
  · exact .inl ((h.sets.get?_search_iff rfl .glob).2 ⟨value, hglob, hmem⟩)
  · exact .inr ((h.sets.get?_search_iff rfl .regexp).2 ⟨value, hregexp, hmem⟩)

theorem wellFormed_of_means {s : Sentence} (h : s.Means loc e) : e.WellFormed where
  keys := by
    intro key hkey
    rcases h.sets.keys hkey with hnone | hgood
    · cases hnone
    · exact isKey_iff.1 hgood
  search := fun kind hkind => search_of_means h hkind
  name := by
    rcases h.named with hasks | hname
    · exact .inr (search_of_asks h hasks)
    · have hchecked : isName e.name.toList = true := by
        rw [h.name_eq, String.toList_ofList]
        exact hname
      exact .inl (isName_iff.1 hchecked)

end Tag

/-! ### Queries -/

/-- A pattern that cannot be compiled is reported as such. -/
theorem Pattern.compile_error {kind : PatternKind} {text : String} {error : PatternError}
    (h : compile kind text = .error error) : ∃ fault, error = .invalid text fault := by
  cases kind with
  | exact => cases h
  | glob =>
    obtain ⟨fault, -, rfl⟩ := mapError_eq_error_iff.1 h
    exact ⟨.wildcard fault, rfl⟩
  | regexp =>
    obtain ⟨fault, -, rfl⟩ := mapError_eq_error_iff.1 h
    exact ⟨.regex fault, rfl⟩

namespace Entry

variable {e : Entry}

/-- Compiles the values of a query. -/
def compileValues (e : Entry) (kind : PatternKind) :
    Except PatternError (List (String × Pattern)) :=
  (e.attrs.pairs.filter (·.1 != searchKey)).mapM fun (key, value) => do
    return (key, ← Pattern.compile kind value)

/-- Compiling a query once its kind is known. -/
theorem query_of_kind {kind : PatternKind} (h : PatternKind.parse (e.search?.getD "") = .ok kind) :
    e.query = (if e.name.isEmpty then pure none else some <$> Pattern.compile kind e.name) >>=
      fun name => e.compileValues kind >>= fun values => .ok ⟨name, values⟩ := by
  simp only [query, h]
  split
  · rfl
  · rfl

/-- If a query of a known kind cannot be compiled, one of its texts cannot. -/
theorem exists_compile_error {kind : PatternKind}
    (h : PatternKind.parse (e.search?.getD "") = .ok kind) {error : PatternError}
    (herror : e.query = .error error) : ∃ text, Pattern.compile kind text = .error error := by
  rw [query_of_kind h] at herror
  rcases bind_eq_error_iff.1 herror with hname | ⟨name, -, hvalues⟩
  · -- the name
    split at hname
    · cases hname
    · rw [map_eq_pure_bind] at hname
      rcases bind_eq_error_iff.1 hname with hname | ⟨pattern, -, hnever⟩
      · exact ⟨e.name, hname⟩
      · cases hnever
  · -- the values
    rcases bind_eq_error_iff.1 hvalues with hvalues | ⟨values, -, hnever⟩
    · obtain ⟨⟨key, value⟩, -, hvalue⟩ := error_of_mapM hvalues
      rcases bind_eq_error_iff.1 hvalue with hvalue | ⟨pattern, -, hnever⟩
      · exact ⟨value, hvalue⟩
      · cases hnever
    · cases hnever

/-- A query whose kind there is fails on a pattern only. -/
theorem WellFormed.query_error (h : e.WellFormed) (hsearch : e.isSearch = true)
    {error : PatternError} (herror : e.query = .error error) :
    ∃ text fault, error = .invalid text fault := by
  obtain ⟨kind, hkind⟩ := Option.isSome_iff_exists.1 hsearch
  have hparse : ∃ kind', PatternKind.parse (e.search?.getD "") = .ok kind' := by
    rcases h.search kind hkind with rfl | rfl | rfl
    · exact ⟨.exact, by rw [hkind]; rfl⟩
    · exact ⟨.glob, by rw [hkind]; rfl⟩
    · exact ⟨.regexp, by rw [hkind]; rfl⟩
  obtain ⟨kind', hkind'⟩ := hparse
  obtain ⟨text, htext⟩ := exists_compile_error hkind' herror
  exact ⟨text, Pattern.compile_error htext⟩

/-- An exact query is compiled as it is written. -/
theorem query_of_exact (h : e.search? = some "exact") :
    e.query = .ok ⟨if e.name.isEmpty then none else some (.exact e.name),
      (e.attrs.pairs.filter (·.1 != searchKey)).map fun (key, value) => (key, .exact value)⟩ := by
  have hkind : PatternKind.parse (e.search?.getD "") = .ok .exact := by
    rw [h]
    rfl
  have hvalues : e.compileValues .exact
      = .ok ((e.attrs.pairs.filter (·.1 != searchKey)).map
          fun (key, value) => (key, .exact value)) :=
    List.mapM_pure
  rw [query_of_kind hkind, hvalues]
  split
  · rfl
  · rfl

end Entry

/-! ### Resolving -/

/-- Asked for all entries, a tag that is no query or an exact one is always answered. -/
theorem Index.exists_resolution (index : Index) {what : Entry} (cyclic : Bool)
    (h : what.isSearch = false ∨ what.search? = some "exact") :
    ∃ resolution, index.resolve what { cyclic := cyclic } = .ok resolution := by
  have hmode : ResolveOptions.mode { cyclic := cyclic } = .ok .all := rfl
  rcases h with hconcrete | hexact
  · exact ⟨⟨index.referents what, []⟩, resolve_of_concrete hconcrete hmode⟩
  · have hsearch : what.isSearch = true := by simp [Entry.isSearch, hexact]
    rw [resolve_of_query hsearch hmode, Entry.query_of_exact hexact]
    exact ⟨_, rfl⟩

/-- **Every entry that is read from a tag is well formed** and stands where the tag does. If it is
a query, its kind can be compiled for; if it is an exact one, it can be compiled; and a tag that is
no query or an exact one can be resolved against every index. -/
theorem Tag.parse_wellFormed {text : String} {loc : Location} {e : Entry}
    (h : parse text loc = .ok e) :
    e.loc = loc ∧ e.WellFormed
      ∧ (e.isSearch = true → ∀ name, e.query ≠ .error (.unknownKind name))
      ∧ (e.search? = some "exact" → ∃ query, e.query = .ok query)
      ∧ ∀ (index : Index) (cyclic : Bool), e.isSearch = false ∨ e.search? = some "exact" →
          ∃ resolution, index.resolve e { cyclic := cyclic } = .ok resolution := by
  obtain ⟨s, -, hmeans⟩ := exists_sentence_of_parse h
  have hwell := wellFormed_of_means hmeans
  refine ⟨hmeans.loc_eq, hwell, ?_, ?_, ?_⟩
  · intro hsearch name herror
    obtain ⟨text, fault, heq⟩ := hwell.query_error hsearch herror
    cases heq
  · intro hexact
    exact ⟨_, Entry.query_of_exact hexact⟩
  · intro index cyclic hkind
    exact index.exists_resolution cyclic hkind

/-- A query that asks for its kind behind its name, with a value that is no regular expression. -/
def lateQuery : Entry :=
  ⟨"a/b", (Attrs.empty.insert "k" "(").insert Entry.searchKey "exact", ⟨"f.rs", 1, 1, 24⟩⟩

theorem Tag.parse_wellFormed_lateQuery :
    parse "a/b k=\"(\" search=exact" lateQuery.loc = .ok lateQuery
      ∧ lateQuery.WellFormed ∧ (∃ query, lateQuery.query = .ok query)
      ∧ ∀ (index : Index) (cyclic : Bool),
          ∃ resolution, index.resolve lateQuery { cyclic := cyclic } = .ok resolution := by
  have hparse : parse "a/b k=\"(\" search=exact" lateQuery.loc = .ok lateQuery := by
    with_unfolding_all rfl
  have hexact : lateQuery.search? = some "exact" := by decide
  obtain ⟨-, hwell, -, hquery, hresolve⟩ := parse_wellFormed hparse
  exact ⟨hparse, hwell, hquery hexact, fun index cyclic => hresolve index cyclic (.inr hexact)⟩

end CrossTag
