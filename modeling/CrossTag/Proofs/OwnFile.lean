import CrossTag.Proofs.Literal
import CrossTag.Proofs.Tag.Placement

/-!
# Queries within a file

A dot in front of the name of a tag scopes it to the file in which it stands. The dot is spelled out
when the tag is read: the path of the file is stored under `scope`, in a query as well as in a tag
that is no query. A query compares `scope` like any other value, so its own path becomes a pattern
there, and a tag of the same file has this path as the text to compare with:

    tag in a file        scope stored       the query takes it as
    `.meow`              the path           a text
    `?g .m*`             the path           a glob

So a query finds the tags of its file exactly if the path fits itself (`findsOwnFile_iff`),
which it does if it is compared as it is or has no mark of the kind of patterns that are asked for.
In a file with brackets in its name it does not (`not_findsOwnFile`).
-/

namespace CrossTag

namespace Tag

/-- An entry that was read from a tag whose name has the dot of its file in front. -/
def ReadInFile (e : Entry) : Prop :=
  ∃ text, parse text e.loc = .ok e
    ∧ ∃ s : Sentence, tokenize text.toList = .ok s.tokens ∧ ∃ name h, s.name = .inFile name h

/-- Whatever an assignment stores comes to stand under its key. -/
theorem Sets.get?_of_stores {path : String} {attrs final : Attrs}
    {assignments : List (String × String)} (h : Sets path attrs assignments final)
    {key value stored : String} (hmem : (key, value) ∈ assignments)
    (hstores : Stores path key value (some stored)) : final.get? key = some stored := by
  induction h with
  | done => cases hmem
  | leave _ _ hnone _ ih =>
    rcases List.mem_cons.1 hmem with heq | hmem
    · cases heq
      cases hstores.unique hnone
    · exact ih hmem
  | set _ _ hstored hrest ih =>
    rcases List.mem_cons.1 hmem with heq | hmem
    · cases heq
      cases hstores.unique hstored
      exact hrest.get?_of_some (by rw [Attrs.get?_insert, if_pos rfl])
    · exact ih hmem

namespace ReadInFile

variable {e s o : Entry} {kind : PatternKind}

/-- The dot is stored as the path of the file. -/
theorem scope_eq (h : ReadInFile e) : e.attrs.get? Entry.scopeKey = some e.loc.path := by
  obtain ⟨text, hparse, s, htokens, name, hname, hs⟩ := h
  obtain ⟨s', htokens', hmeans⟩ := exists_sentence_of_parse hparse
  have heq : s' = s := tokens_injective (Except.ok.inj (htokens'.symm.trans htokens))
  have hmem : (Entry.scopeKey, ".") ∈ s.assignments := by
    simp [Sentence.assignments, hs, Name.scope]
  rw [heq] at hmeans
  exact hmeans.sets.get?_of_stores hmem .file

theorem lookup?_scope (h : ReadInFile e) : e.lookup? Entry.scopeKey = some e.loc.path := by
  have hne : Entry.scopeKey ≠ Entry.locKey := by decide
  rw [Entry.lookup?, if_neg hne, h.scope_eq]

/-- What holds of all values of a query holds of the path and of the other values. -/
theorem forall_values_iff (h : ReadInFile e) {holds : String → String → Prop} :
    (∀ key value, e.attrs.get? key = some value → key ≠ Entry.searchKey → holds key value) ↔
      holds Entry.scopeKey e.loc.path
        ∧ ∀ key value, e.attrs.get? key = some value → key ≠ Entry.searchKey →
            key ≠ Entry.scopeKey → holds key value := by
  constructor
  · intro hall
    refine ⟨hall _ _ h.scope_eq (by decide), ?_⟩
    intro key value hget hsearch _
    exact hall key value hget hsearch
  · rintro ⟨hscope, hother⟩ key value hget hsearch
    by_cases hkey : key = Entry.scopeKey
    · subst hkey
      cases h.scope_eq.symm.trans hget
      exact hscope
    · exact hother key value hget hsearch hkey

/-- **A query that is scoped to its file and the tags that are scoped to the same file.** Let the
name of such a tag fit. The query can be compiled exactly if the path can, as a pattern of the
kind that is asked for, and the other values can; and then it accepts the tag exactly if the path
fits itself and the other values fit too. A path always fits itself exactly, a plain path fits
itself as a glob unless a component is empty, and as a regular expression if it has none of their
marks. -/
theorem findsOwnFile_iff (hs : ReadInFile s) (ho : ReadInFile o) (hpath : s.loc.path = o.loc.path)
    (hkind : s.search? = some kind.name) (hconcrete : o.isSearch = false)
    (hname : s.name = "" ∨ kind.Fits s.name o.name) :
    ((∃ q, s.query = .ok q) ↔
      (∃ p, Pattern.compile kind s.loc.path = .ok p)
        ∧ ∀ key value, s.attrs.get? key = some value → key ≠ Entry.searchKey →
            key ≠ Entry.scopeKey → ∃ p, Pattern.compile kind value = .ok p)
    ∧ ((∃ q, s.query = .ok q ∧ q.accepts o = true) ↔
      kind.Fits s.loc.path s.loc.path
        ∧ ∀ key value, s.attrs.get? key = some value → key ≠ Entry.searchKey →
            key ≠ Entry.scopeKey → ∃ v, o.lookup? key = some v ∧ kind.Fits value v)
    ∧ (kind = .exact → kind.Fits s.loc.path s.loc.path)
    ∧ (kind = .glob → Glob.IsPlain s.loc.path.toList →
        (kind.Fits s.loc.path s.loc.path ↔ [] ∉ components s.loc.path.toList))
    ∧ (kind = .regexp → Regex.IsPlain s.loc.path.toList → kind.Fits s.loc.path s.loc.path) := by
  refine ⟨?_, ?_, ?_, ?_, ?_⟩
  · have hcompiled : s.name = "" ∨ ∃ p, Pattern.compile kind s.name = .ok p := by
      rcases hname with hempty | ⟨p, hp, -⟩
      · exact .inl hempty
      · exact .inr ⟨p, hp⟩
    rw [Entry.exists_query_iff hkind, hs.forall_values_iff]
    exact and_iff_right hcompiled
  · -- Under `scope` the path of the query meets the path of the tag, and they are the same.
    have hscope : (∃ v, o.lookup? Entry.scopeKey = some v ∧ kind.Fits s.loc.path v) ↔
        kind.Fits s.loc.path s.loc.path := by
      rw [ho.lookup?_scope, ← hpath]
      simp
    rw [Entry.accepted_iff hkind, hs.forall_values_iff, hscope]
    simp only [hconcrete, hname, true_and]
  · rintro rfl
    exact PatternKind.exact_fits_iff.2 rfl
  · rintro rfl hplain
    exact hplain.fits_iff
  · rintro rfl hplain
    exact hplain.fits

end ReadInFile

/-! ### A query for a glob and a tag that it asks for -/

/-- The query `?g .m*` in a file. -/
def globIn (path : String) : Entry :=
  ⟨"m*", (Attrs.empty.insert Entry.searchKey "glob").insert Entry.scopeKey path, ⟨path, 2, 1, 10⟩⟩

/-- The tag `.meow` in a file. -/
def meowIn (path : String) : Entry :=
  ⟨"meow", Attrs.empty.insert Entry.scopeKey path, ⟨path, 1, 1, 10⟩⟩

theorem readInFile_globIn (path : String) : ReadInFile (globIn path) := by
  have hparse : parse "?g .m*" (globIn path).loc = .ok (globIn path) := by with_unfolding_all rfl
  have htokens : tokenize "?g .m*".toList
      = .ok (Sentence.tokens ⟨[.query ['g']], .inFile ['m', '*'] (by decide), [], none⟩) := by
    with_unfolding_all rfl
  exact ⟨_, hparse, _, htokens, _, _, rfl⟩

theorem readInFile_meowIn (path : String) : ReadInFile (meowIn path) := by
  have hparse : parse ".meow" (meowIn path).loc = .ok (meowIn path) := by with_unfolding_all rfl
  have htokens : tokenize ".meow".toList
      = .ok (Sentence.tokens ⟨[], .inFile ['m', 'e', 'o', 'w'] (by decide), [], none⟩) := by
    with_unfolding_all rfl
  exact ⟨_, hparse, _, htokens, _, _, rfl⟩

theorem fits_meow : PatternKind.glob.Fits "m*" "meow" := by
  have hcompile : Pattern.compile .glob "m*"
      = .ok (.glob ⟨"m*", .anywhere ⟨[.literal 'm', .run]⟩, false⟩) := by with_unfolding_all rfl
  rw [PatternKind.fits_iff_of_compile hcompile]
  rfl

/-- What `globIn` asks for besides the path is the name only. -/
theorem keys_globIn (path key : String) (hsearch : key ≠ Entry.searchKey)
    (hscope : key ≠ Entry.scopeKey) : (globIn path).attrs.get? key = none := by
  simp [globIn, hsearch, hscope]

theorem ReadInFile.findsOwnFile_iff_src :
    ∃ q, (globIn "src/a.rs").query = .ok q ∧ q.accepts (meowIn "src/a.rs") = true := by
  have hplain : Glob.IsPlain "src/a.rs".toList :=
    ⟨by decide, by simp [Wildcard.IsLiteral], by decide, by simp [separator]⟩
  obtain ⟨-, haccepted, -, hglob, -⟩ := @findsOwnFile_iff _ _ .glob (readInFile_globIn "src/a.rs")
    (readInFile_meowIn "src/a.rs") rfl rfl rfl (.inr fits_meow)
  refine haccepted.2 ⟨(hglob rfl hplain).2 (by decide), ?_⟩
  intro key value hget hsearch hscope
  cases (keys_globIn _ key hsearch hscope).symm.trans hget

/-- In a file with brackets in its name, the query does not accept the tag, although the tag has all
that it asks for: the brackets of the glob stand for one of the characters between them. -/
theorem not_findsOwnFile :
    ¬ ∀ (s o : Entry) (kind : PatternKind), ReadInFile s → ReadInFile o →
        s.loc.path = o.loc.path → s.loc.path ≠ "" → s.search? = some kind.name →
        o.isSearch = false → s.name = "" ∨ kind.Fits s.name o.name →
        (∀ key ∈ s.attrs.keys, key = Entry.searchKey ∨ key = Entry.scopeKey) →
        ∃ q, s.query = .ok q ∧ q.accepts o = true := by
  intro h
  obtain ⟨q, hquery, haccepts⟩ := h (globIn "pages/[id].rs") (meowIn "pages/[id].rs") .glob
    (readInFile_globIn _) (readInFile_meowIn _) rfl (by decide) rfl rfl (.inr fits_meow) (by decide)
  have hcompile : Pattern.compile .glob "pages/[id].rs" = .ok (.glob ⟨"pages/[id].rs",
      .anchored [.one ⟨['p', 'a', 'g', 'e', 's'].map .literal⟩,
        .one ⟨.oneOf [.single 'i', .single 'd'] :: ['.', 'r', 's'].map .literal⟩], false⟩) := by
    with_unfolding_all rfl
  obtain ⟨-, -, hvalues⟩ := (@Entry.accepted_iff _ _ .glob rfl).1 ⟨q, hquery, haccepts⟩
  obtain ⟨v, hv, hfits⟩ : ∃ v, (meowIn "pages/[id].rs").lookup? Entry.scopeKey = some v
      ∧ PatternKind.glob.Fits "pages/[id].rs" v :=
    hvalues _ _ (readInFile_globIn _).scope_eq (by decide)
  cases (readInFile_meowIn _).lookup?_scope.symm.trans hv
  cases (PatternKind.fits_iff_of_compile hcompile).1 hfits

end Tag

end CrossTag
