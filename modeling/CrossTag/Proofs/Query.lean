import CrossTag.Index.Filter
import CrossTag.Proofs.Record
import CrossTag.Proofs.Tag.WellFormed

/-!
# Queries and filters

There are two ways to ask for entries by patterns, and they look at attributes differently:

    query     key by key: the value under a key has to fit the pattern that the query has there
    filter    as a whole: some attribute, shown as `key` or `key=value`, has to fit each pattern

What a query asks for is said by `Entry.accepted_iff`, for patterns of any kind. For exact patterns
the two ways come to the same (`Entry.exactQuery_agrees`), because a shown attribute can be divided
again: its key holds no equals sign, so the first one stands behind the key, and if there is none
the value is empty (`Attrs.showPair_inj`). The location takes part in both under the key `loc`, in
place of an attribute that has this key.
-/

namespace CrossTag

open Outcome

/-! ### Patterns -/

namespace PatternKind

/-- A text fits a pattern of a kind if the pattern can be compiled and matches the text. -/
def Fits (kind : PatternKind) (pattern text : String) : Prop :=
  ∃ p, Pattern.compile kind pattern = .ok p ∧ p.isMatch text = true

theorem fits_iff_of_compile {kind : PatternKind} {pattern text : String} {p : Pattern}
    (h : Pattern.compile kind pattern = .ok p) :
    kind.Fits pattern text ↔ p.isMatch text = true := by
  constructor
  · rintro ⟨p', hp', hmatch⟩
    cases h.symm.trans hp'
    exact hmatch
  · intro hmatch
    exact ⟨p, h, hmatch⟩

@[simp] theorem exact_fits_iff {pattern text : String} :
    exact.Fits pattern text ↔ pattern = text :=
  (fits_iff_of_compile rfl).trans beq_iff_eq

theorem parse_name (kind : PatternKind) : parse kind.name = .ok kind := by
  cases kind <;> rfl

end PatternKind

/-! ### Queries -/

namespace Entry

variable {e o : Entry} {kind : PatternKind}

/-- Compiling a query is compiling its name, unless it is empty, and its values. -/
theorem query_eq_ok_iff (hkind : e.search? = some kind.name) {q : Query} :
    e.query = .ok q ↔ (e.name = "" ∧ q.name = none
        ∨ e.name ≠ "" ∧ ∃ p, Pattern.compile kind e.name = .ok p ∧ q.name = some p)
      ∧ e.compileValues kind = .ok q.attrs := by
  have hparse : PatternKind.parse (e.search?.getD "") = .ok kind := by
    rw [hkind]
    exact kind.parse_name
  have hname : ∀ name : Option Pattern,
      (if e.name.isEmpty then pure none else some <$> Pattern.compile kind e.name) = .ok name
        ↔ e.name = "" ∧ name = none
          ∨ e.name ≠ "" ∧ ∃ p, Pattern.compile kind e.name = .ok p ∧ name = some p := by
    intro name
    by_cases h : e.name = ""
    · simp [h, pure, Except.pure, @eq_comm _ name]
    · have hmap : some <$> Pattern.compile kind e.name
          = (Pattern.compile kind e.name).map some := rfl
      simp [h, hmap, map_eq_ok_iff, @eq_comm _ name]
  rw [query_of_kind hparse, bind_eq_ok_iff]
  simp only [hname, bind_eq_ok_iff]
  constructor
  · rintro ⟨name, hn, values, hvalues, heq⟩
    cases heq
    exact ⟨hn, hvalues⟩
  · rintro ⟨hn, hvalues⟩
    exact ⟨q.name, hn, q.attrs, hvalues, rfl⟩

/-- The values of a query can be compiled to patterns of some kind exactly if each of them can. -/
theorem exists_compileValues_iff {good : String → Pattern → Bool} :
    (∃ patterns, e.compileValues kind = .ok patterns
        ∧ (patterns.all fun (key, p) => good key p) = true)
      ↔ ∀ key value, e.attrs.get? key = some value → key ≠ searchKey →
          ∃ p, Pattern.compile kind value = .ok p ∧ good key p = true := by
  rw [compileValues, exists_mapM_all_iff]
  constructor
  · intro h key value hget hkey
    have hmem : (key, value) ∈ e.attrs.pairs.filter (·.1 != searchKey) :=
      List.mem_filter.2 ⟨Attrs.mem_pairs_iff.2 hget, bne_iff_ne.2 hkey⟩
    obtain ⟨y, hy, hgood⟩ := h _ hmem
    obtain ⟨p, hp, heq⟩ := bind_eq_ok_iff.1 hy
    cases heq
    exact ⟨p, hp, hgood⟩
  · rintro h ⟨key, value⟩ hmem
    obtain ⟨hmem, hkey⟩ := List.mem_filter.1 hmem
    obtain ⟨p, hp, hgood⟩ := h key value (Attrs.mem_pairs_iff.1 hmem) (bne_iff_ne.1 hkey)
    refine ⟨(key, p), ?_, hgood⟩
    show (Pattern.compile kind value >>= fun p => pure (key, p)) = .ok (key, p)
    rw [hp]
    rfl

/-- A query can be compiled to patterns of some kind exactly if its name, unless it is empty, and
its values can. -/
theorem exists_query_all_iff (hkind : e.search? = some kind.name) (goodName : Pattern → Bool)
    (good : String → Pattern → Bool) :
    (∃ q, e.query = .ok q ∧ q.name.all goodName = true
        ∧ (q.attrs.all fun (key, p) => good key p) = true)
      ↔ (e.name = "" ∨ ∃ p, Pattern.compile kind e.name = .ok p ∧ goodName p = true)
        ∧ ∀ key value, e.attrs.get? key = some value → key ≠ searchKey →
            ∃ p, Pattern.compile kind value = .ok p ∧ good key p = true := by
  rw [← exists_compileValues_iff]
  simp only [query_eq_ok_iff hkind]
  constructor
  · rintro ⟨⟨name, patterns⟩, ⟨hname, hvalues⟩, hgood, hall⟩
    refine ⟨?_, patterns, hvalues, hall⟩
    rcases hname with ⟨hempty, -⟩ | ⟨-, p, hp, rfl⟩
    · exact .inl hempty
    · exact .inr ⟨p, hp, hgood⟩
  · rintro ⟨hname, patterns, hvalues, hall⟩
    by_cases hempty : e.name = ""
    · exact ⟨⟨none, patterns⟩, ⟨.inl ⟨hempty, rfl⟩, hvalues⟩, rfl, hall⟩
    · obtain ⟨p, hp, hgood⟩ := hname.resolve_left hempty
      exact ⟨⟨some p, patterns⟩, ⟨.inr ⟨hempty, p, hp, rfl⟩, hvalues⟩, hgood, hall⟩

theorem exists_query_iff (hkind : e.search? = some kind.name) :
    (∃ q, e.query = .ok q) ↔
      (e.name = "" ∨ ∃ p, Pattern.compile kind e.name = .ok p)
        ∧ ∀ key value, e.attrs.get? key = some value → key ≠ searchKey →
            ∃ p, Pattern.compile kind value = .ok p := by
  simpa using exists_query_all_iff hkind (fun _ => true) fun _ _ => true

/-- **What a query asks for**: that an entry is no query, that its name fits unless the query's is
empty, and that it has a fitting value under each key of the query but `search`. -/
theorem accepted_iff (hkind : e.search? = some kind.name) :
    (∃ q, e.query = .ok q ∧ q.accepts o = true) ↔
      o.isSearch = false ∧ (e.name = "" ∨ kind.Fits e.name o.name)
        ∧ ∀ key value, e.attrs.get? key = some value → key ≠ searchKey →
            ∃ v, o.lookup? key = some v ∧ kind.Fits value v := by
  have hfits : ∀ key value, (∃ v, o.lookup? key = some v ∧ kind.Fits value v) ↔
      ∃ p, Pattern.compile kind value = .ok p ∧ (o.lookup? key).any p.isMatch = true := by
    intro key value
    constructor
    · rintro ⟨v, hv, p, hp, hmatch⟩
      exact ⟨p, hp, (Option.any_eq_true _ _).2 ⟨v, hv, hmatch⟩⟩
    · rintro ⟨p, hp, hmatch⟩
      obtain ⟨v, hv, hmatch⟩ := (Option.any_eq_true _ _).1 hmatch
      exact ⟨v, hv, p, hp, hmatch⟩
  simp only [hfits]
  have hquery := exists_query_all_iff hkind (fun p => p.isMatch o.name)
    fun key p => (o.lookup? key).any p.isMatch
  simp only [Query.accepts, Bool.and_eq_true, Bool.not_eq_true']
  constructor
  · rintro ⟨q, hq, ⟨hsearch, hname⟩, hvalues⟩
    exact ⟨hsearch, hquery.1 ⟨q, hq, hname, hvalues⟩⟩
  · rintro ⟨hsearch, hasked⟩
    obtain ⟨q, hq, hname, hvalues⟩ := hquery.2 hasked
    exact ⟨q, hq, ⟨hsearch, hname⟩, hvalues⟩

end Entry

/-! ### Shown attributes -/

/-- A shown attribute whose key holds no equals sign can be divided again. -/
theorem Attrs.showPair_inj {key value key' value' : String} (hkey : '=' ∉ key.toList)
    (hkey' : '=' ∉ key'.toList) :
    showPair key value = showPair key' value' ↔ key = key' ∧ value = value' := by
  constructor
  · intro h
    have hfield : Record.attrField (key, value) = Record.attrField (key', value') :=
      congrArg String.toList h
    have hpair : (key, value) = (key', value') := by
      rw [← Record.splitAttr_attrField (p := (key, value)) hkey, hfield,
        Record.splitAttr_attrField (p := (key', value')) hkey']
    exact Prod.mk.inj hpair
  · rintro ⟨rfl, rfl⟩
    rfl

/-- The location stands among the attributes as it is looked up. -/
theorem Entry.get?_attrsWithLoc (o : Entry) (key : String) :
    o.attrsWithLoc.get? key = o.lookup? key :=
  Attrs.get?_insert o.attrs locKey o.loc.render key

/-- Without an equals sign in a key, an attribute is shown exactly if it is looked up. -/
theorem Filter.mem_shown_iff {o : Entry} (hkeys : ∀ key ∈ o.attrs.keys, '=' ∉ key.toList)
    {key value : String} (hkey : '=' ∉ key.toList) :
    Attrs.showPair key value ∈ shown o ↔ o.lookup? key = some value := by
  rw [← Entry.get?_attrsWithLoc, ← Attrs.mem_pairs_iff, shown, List.mem_map]
  constructor
  · rintro ⟨⟨key', value'⟩, hmem, hshow⟩
    have hkey' : '=' ∉ key'.toList := by
      have hget := Attrs.mem_pairs_iff.1 hmem
      rw [Entry.get?_attrsWithLoc, Entry.lookup?] at hget
      split at hget
      · rename_i hloc
        rw [hloc]
        decide
      · exact hkeys key' (Attrs.mem_keys_iff.2 ⟨value', hget⟩)
    obtain ⟨rfl, rfl⟩ := (Attrs.showPair_inj hkey' hkey).1 hshow
    exact hmem
  · intro hmem
    exact ⟨(key, value), hmem, rfl⟩

/-! ### Exact patterns -/

/-- A filter of exact patterns is compiled as it is written. -/
theorem Filter.compile_exact (names attrs : List String) :
    compile .exact names attrs = .ok ⟨names.map .exact, attrs.map .exact⟩ := by
  have hall : ∀ texts : List String,
      Pattern.compileAll .exact texts = .ok (texts.map .exact) := fun texts => List.mapM_pure
  rw [compile, hall, hall]
  rfl

/-- A filter of exact patterns looks for the texts themselves. -/
theorem Filter.accepts_exact_iff {names attrs : List String} {o : Entry} :
    Filter.accepts ⟨names.map .exact, attrs.map .exact⟩ o = true ↔
      (names = [] ∨ o.name ∈ names) ∧ ∀ text ∈ attrs, text ∈ shown o := by
  simp [accepts, Pattern.anyMatch, Pattern.isMatch]

namespace Entry

/-- The query for a name and values, all of them exact. -/
def exactQuery (name : String) (patterns : List (String × String)) (loc : Location) : Entry :=
  ⟨name, Attrs.ofList ((searchKey, PatternKind.exact.name) :: patterns), loc⟩

section exactQuery

variable {name : String} {patterns : List (String × String)} {loc : Location}

theorem get?_exactQuery (hnodup : (patterns.map (·.1)).Nodup)
    (hkeys : ∀ p ∈ patterns, p.1 ≠ searchKey) {key value : String} :
    (exactQuery name patterns loc).attrs.get? key = some value ↔
      key = searchKey ∧ value = PatternKind.exact.name ∨ (key, value) ∈ patterns := by
  have hout : searchKey ∉ patterns.map (·.1) := by
    intro hmem
    obtain ⟨p, hp, heq⟩ := List.mem_map.1 hmem
    exact hkeys p hp heq
  have hnodup' : (((searchKey, PatternKind.exact.name) :: patterns).map (·.1)).Nodup :=
    List.nodup_cons.2 ⟨hout, hnodup⟩
  rw [exactQuery, Attrs.get?_ofList_eq_some_iff hnodup', List.mem_cons, Prod.mk.injEq]

/-- What an exact query asks for, read off its patterns. -/
theorem exactQuery_accepted_iff (hnodup : (patterns.map (·.1)).Nodup)
    (hkeys : ∀ p ∈ patterns, p.1 ≠ searchKey) {o : Entry} :
    (∃ q, (exactQuery name patterns loc).query = .ok q ∧ q.accepts o = true) ↔
      o.isSearch = false ∧ (name = "" ∨ name = o.name)
        ∧ ∀ p ∈ patterns, o.lookup? p.1 = some p.2 := by
  have hkind : (exactQuery name patterns loc).search? = some PatternKind.exact.name :=
    (get?_exactQuery hnodup hkeys).2 (.inl ⟨rfl, rfl⟩)
  rw [accepted_iff hkind]
  simp only [get?_exactQuery hnodup hkeys, PatternKind.exact_fits_iff]
  refine and_congr_right' (and_congr_right' ⟨?_, ?_⟩)
  · rintro h ⟨key, value⟩ hmem
    obtain ⟨v, hv, rfl⟩ := h key value (.inr hmem) (hkeys _ hmem)
    exact hv
  · rintro h key value (⟨rfl, -⟩ | hmem) hne
    · exact absurd rfl hne
    · exact ⟨value, h _ hmem, rfl⟩

/-- **Exact queries and exact filters agree**: an exact query accepts the entries that are no
queries and that the filter for its name, if it has one, and its shown values accepts. Where `loc`
is asked for, both compare with the location, also if the entry has an attribute of this name. -/
theorem exactQuery_agrees (name : String) {patterns : List (String × String)} (loc : Location)
    (hnodup : (patterns.map (·.1)).Nodup)
    (hkeys : ∀ p ∈ patterns, p.1 ≠ searchKey ∧ '=' ∉ p.1.toList) :
    ∃ query filter, (exactQuery name patterns loc).query = .ok query
      ∧ Filter.compile .exact (if name = "" then [] else [name])
          (patterns.map fun (key, value) => Attrs.showPair key value) = .ok filter
      ∧ ∀ o : Entry, (∀ key ∈ o.attrs.keys, key ≠ "" ∧ '=' ∉ key.toList) →
          (query.accepts o = true ↔ o.isSearch = false ∧ filter.accepts o = true)
          ∧ ∀ value, (locKey, value) ∈ patterns →
              query.accepts o = true ∨ filter.accepts o = true → value = o.loc.render := by
  have hne : ∀ p ∈ patterns, p.1 ≠ searchKey := fun p hp => (hkeys p hp).1
  have hkind : (exactQuery name patterns loc).search? = some "exact" :=
    (get?_exactQuery hnodup hne).2 (.inl ⟨rfl, rfl⟩)
  refine ⟨_, _, query_of_exact hkind, Filter.compile_exact _ _, ?_⟩
  intro o ho
  -- Both sides come down to the name and to what is looked up under the keys of the patterns.
  have hquery := @exactQuery_accepted_iff name patterns loc hnodup hne o
  rw [query_of_exact hkind] at hquery
  simp only [Except.ok.injEq, exists_eq_left'] at hquery
  have hname : (if name = "" then [] else [name]) = [] ∨ o.name ∈ (if name = "" then [] else [name])
      ↔ name = "" ∨ name = o.name := by
    by_cases h : name = ""
    · simp [h]
    · simp [h, eq_comm]
  have hshown : (∀ text ∈ patterns.map (fun (key, value) => Attrs.showPair key value),
      text ∈ Filter.shown o) ↔ ∀ p ∈ patterns, o.lookup? p.1 = some p.2 := by
    rw [List.forall_mem_map]
    refine forall₂_congr fun p hp => ?_
    exact Filter.mem_shown_iff (fun key hkey => (ho key hkey).2) (hkeys p hp).2
  rw [hquery, Filter.accepts_exact_iff, hname, hshown]
  refine ⟨Iff.rfl, ?_⟩
  intro value hmem haccepted
  have hlookup : ∀ p ∈ patterns, o.lookup? p.1 = some p.2 := by
    rcases haccepted with h | h
    · exact h.2.2
    · exact h.2
  exact (Option.some.inj (hlookup _ hmem)).symm

/-- An entry whose attribute `loc` says something else than its location. -/
def mislocated : Entry :=
  ⟨"a", Attrs.ofList [("flag", ""), ("loc", "g:7.1"), ("url", "?q=1")], ⟨"f", 1, 2, 5⟩⟩

theorem exactQuery_agrees_mislocated :
    ∃ query filter,
      (exactQuery "a" [("url", "?q=1"), ("loc", "f:1.2-5"), ("flag", "")] default).query = .ok query
        ∧ Filter.compile .exact ["a"] ["url=?q=1", "loc=f:1.2-5", "flag"] = .ok filter
        ∧ query.accepts mislocated = true ∧ filter.accepts mislocated = true := by
  obtain ⟨query, filter, hquery, hfilter, h⟩ := @exactQuery_agrees "a"
    [("url", "?q=1"), ("loc", "f:1.2-5"), ("flag", "")] default (by decide) (by decide)
  have haccepts : filter.accepts mislocated = true := by
    cases (Filter.compile_exact _ _).symm.trans hfilter
    decide
  exact ⟨query, filter, hquery, hfilter, (h mislocated (by decide)).1.2 ⟨rfl, haccepts⟩, haccepts⟩

end exactQuery

end Entry

end CrossTag
