import CrossTag.Proofs.Tag.Grammar

/-!
# The reader of tags accepts its grammar

Main statement: a text is read as an entry at a location if and only if its tokens are those of
a sentence that means the entry there.

One direction is by induction on the sentence and needs that no sentence goes on with an equals
sign where a value could follow. The other is by the recursion of the two readers, for what
stands behind the name and for what stands before it. In between stands `Sentence.Yields`,
which says the same as `Sentence.Means` but starts from attributes that are set already, as
both inductions need it.
-/

namespace CrossTag.Tag

open Outcome

/-! ### The name -/

theorem namesArePatterns_eq_true_iff {attrs : Attrs} :
    namesArePatterns attrs = true ↔
      attrs.get? Entry.searchKey = some PatternKind.glob.name
        ∨ attrs.get? Entry.searchKey = some PatternKind.regexp.name := by
  simp [namesArePatterns]

theorem checkName_eq_ok_iff {attrs : Attrs} {text : List Char} {name : String} :
    checkName attrs text = .ok name ↔
      name = String.ofList text ∧ (namesArePatterns attrs = true ∨ isName text = true) := by
  rw [← Bool.or_eq_true]
  unfold checkName
  split
  · rename_i h
    rw [h]
    constructor
    · intro heq
      cases heq
      exact ⟨rfl, rfl⟩
    · rintro ⟨rfl, -⟩
      rfl
  · rename_i h
    constructor
    · intro heq
      cases heq
    · rintro ⟨-, h'⟩
      exact absurd h' h

/-- An unquoted name loses its scope to the attributes. -/
theorem takeScope_eq_ok_iff {path : String} {attrs mid : Attrs} {n : Name} {text rest : List Char}
    (htoken : n.token = .word text) :
    takeScope path attrs text = .ok (mid, rest) ↔ Sets path attrs n.scope mid ∧ rest = n.bare := by
  have key : ∀ (value : String) (tail : List Char),
      (setAttr path attrs Entry.scopeKey value).map (fun attrs => (attrs, tail)) = .ok (mid, rest)
        ↔ Sets path attrs [(Entry.scopeKey, value)] mid ∧ rest = tail := by
    intro value tail
    rw [map_eq_ok_iff, sets_cons_iff]
    simp only [sets_nil_iff, Prod.mk.injEq]
    constructor
    · rintro ⟨next, hset, rfl, rfl⟩
      exact ⟨⟨_, hset, rfl⟩, rfl⟩
    · rintro ⟨⟨next, hset, rfl⟩, rfl⟩
      exact ⟨_, hset, rfl, rfl⟩
  cases n with
  | plain word unmarked =>
    cases htoken
    have hdot : takeScope path attrs text = .ok (attrs, text) := by
      cases text with
      | nil => rfl
      | cons c cs => simp [takeScope, (unmarked c rfl).2.2]
    rw [hdot]
    simp [Name.scope, Name.bare, sets_nil_iff, eq_comm]
  | inFile word unslashed =>
    cases htoken
    have hdot : takeScope path attrs ('.' :: word)
        = (setAttr path attrs Entry.scopeKey ".").map fun attrs => (attrs, word) := by
      cases word with
      | nil => rfl
      | cons c cs =>
        have hc : c ≠ '/' := fun h => unslashed (by rw [h]; rfl)
        simp [takeScope, hc]
    rw [hdot]
    exact key "." word
  | inDirectory word =>
    cases htoken
    exact key "./" word
  | quoted word => cases htoken

/-- A word without a mark is the name. -/
theorem readLeading_word {path : String} {attrs : Attrs} {text : List Char} {rest : List Token}
    (hunmarked : ∀ c ∈ text.head?, c ≠ '?' ∧ c ≠ '@') :
    readLeading path attrs (.word text :: rest) = (do
      let (attrs, text) ← takeScope path attrs text
      let name ← checkName attrs text
      let attrs ← readTrailing path attrs rest
      return (name, attrs)) := by
  cases text with
  | nil => rfl
  | cons c cs =>
    obtain ⟨hquery, hmark⟩ := hunmarked c rfl
    rw [readLeading]
    all_goals simp [hquery, hmark]

/-- Reading on from the name: its scope is set, then it is checked, then what follows is
read. -/
theorem readLeading_name {path : String} {attrs final : Attrs} (n : Name) {rest : List Token}
    {name : String} :
    readLeading path attrs (n.token :: rest) = .ok (name, final) ↔
      ∃ mid, Sets path attrs n.scope mid ∧ checkName mid n.bare = .ok name
        ∧ readTrailing path mid rest = .ok final := by
  cases htoken : n.token with
  | word text =>
    -- A word that is a name starts with no mark, whatever its scope is.
    have hunmarked : ∀ c ∈ text.head?, c ≠ '?' ∧ c ≠ '@' := by
      cases n with
      | plain word unmarked =>
        cases htoken
        exact fun c hc => ⟨(unmarked c hc).1, (unmarked c hc).2.1⟩
      | inFile word _ | inDirectory word =>
        cases htoken
        rintro c ⟨⟩
        decide
      | quoted word => cases htoken
    rw [readLeading_word hunmarked]
    simp only [bind_eq_ok_iff, Prod.exists, takeScope_eq_ok_iff htoken]
    constructor
    · rintro ⟨mid, bare, ⟨hscope, rfl⟩, name', hname, final', htrailing, heq⟩
      cases heq
      exact ⟨mid, hscope, hname, htrailing⟩
    · rintro ⟨mid, hscope, hname, htrailing⟩
      exact ⟨mid, _, ⟨hscope, rfl⟩, name, hname, final, htrailing, rfl⟩
  | quoted text =>
    cases n with
    | quoted word =>
      cases htoken
      rw [readLeading]
      simp only [bind_eq_ok_iff, Name.scope, Name.bare, sets_nil_iff]
      constructor
      · rintro ⟨name', hname, final', htrailing, heq⟩
        cases heq
        exact ⟨attrs, rfl, hname, htrailing⟩
      · rintro ⟨mid, rfl, hname, htrailing⟩
        exact ⟨name, hname, final, htrailing, rfl⟩
    | plain _ _ | inFile _ _ | inDirectory _ => cases htoken
  | equals => cases n <;> cases htoken

/-! ### Behind the name -/

/-- What stands behind the name never starts with an equals sign. -/
theorem head?_trailingTokens (trailing : List Attribute) (dangling : Option (List Char)) :
    (trailingTokens trailing dangling).head? ≠ some .equals := by
  cases trailing with
  | nil => cases dangling <;> simp [trailingTokens]
  | cons a trailing => simp [trailingTokens, Attribute.tokens]

/-- A key with no equals sign behind it has the empty value. -/
theorem readTrailing_key {path : String} {attrs : Attrs} {key : List Char} {rest : List Token}
    (hrest : rest.head? ≠ some .equals) :
    readTrailing path attrs (.word key :: rest) = (do
      let attrs ← setAttr path attrs (String.ofList key) ""
      readTrailing path attrs rest) := by
  rw [readTrailing]
  · rintro value rest' rfl
    exact hrest rfl
  · rintro rfl
    exact hrest rfl

/-- Attributes that can be set are read. -/
theorem readTrailing_tokens {path : String} {trailing : List Attribute}
    {dangling : Option (List Char)} {attrs final : Attrs}
    (h : Sets path attrs (trailingAssignments trailing dangling) final) :
    readTrailing path attrs (trailingTokens trailing dangling) = .ok final := by
  induction trailing generalizing attrs with
  | nil =>
    cases dangling with
    | none =>
      cases h
      rfl
    | some key =>
      obtain ⟨next, hset, hrest⟩ := sets_cons_iff.1 h
      cases hrest
      exact hset
  | cons a trailing ih =>
    obtain ⟨key, value⟩ := a
    obtain ⟨next, hset, hrest⟩ := sets_cons_iff.1 h
    have hread := ih hrest
    cases value with
    | none =>
      show readTrailing path attrs (.word key :: trailingTokens trailing dangling) = _
      rw [readTrailing_key (head?_trailingTokens trailing dangling)]
      exact bind_eq_ok_iff.2 ⟨next, hset, hread⟩
    | some value =>
      show readTrailing path attrs
        (.word key :: .equals :: value :: trailingTokens trailing dangling) = _
      rw [readTrailing]
      exact bind_eq_ok_iff.2 ⟨next, hset, hread⟩

/-- What is read behind the name are attributes that can be set. -/
theorem exists_trailing_of_read {path : String} {tokens : List Token} {attrs final : Attrs}
    (h : readTrailing path attrs tokens = .ok final) :
    ∃ trailing dangling, tokens = trailingTokens trailing dangling
      ∧ Sets path attrs (trailingAssignments trailing dangling) final := by
  fun_induction readTrailing path attrs tokens with
  | case1 attrs =>
    cases h
    exact ⟨[], none, rfl, .done _⟩
  | case2 attrs key value rest ih =>
    obtain ⟨next, hset, hread⟩ := bind_eq_ok_iff.1 h
    obtain ⟨trailing, dangling, rfl, hrest⟩ := ih next hread
    exact ⟨⟨key, some value⟩ :: trailing, dangling, rfl, sets_cons_iff.2 ⟨next, hset, hrest⟩⟩
  | case3 attrs key =>
    exact ⟨[], some key, rfl, sets_cons_iff.2 ⟨final, h, .done _⟩⟩
  | case4 attrs key rest _ _ ih =>
    obtain ⟨next, hset, hread⟩ := bind_eq_ok_iff.1 h
    obtain ⟨trailing, dangling, rfl, hrest⟩ := ih next hread
    exact ⟨⟨key, none⟩ :: trailing, dangling, rfl, sets_cons_iff.2 ⟨next, hset, hrest⟩⟩
  | case5 => cases h
  | case6 => cases h

/-! ### From the front -/

/-- Before and at the name, a sentence never goes on with an equals sign. -/
theorem head?_tokens (s : Sentence) : s.tokens.head? ≠ some .equals := by
  obtain ⟨leading, name, trailing, dangling⟩ := s
  cases leading with
  | nil => cases name <;> simp [Sentence.tokens, Name.token]
  | cons item leading =>
    cases item with
    | query kind => simp [Sentence.tokens, Leading.tokens]
    | marked a => simp [Sentence.tokens, Leading.tokens, Attribute.tokens]

theorem readLeading_key {path : String} {attrs : Attrs} {key : List Char} {rest : List Token}
    (hrest : rest.head? ≠ some .equals) :
    readLeading path attrs (.word ('@' :: key) :: rest) = (do
      let attrs ← setAttr path attrs (String.ofList key) ""
      readLeading path attrs rest) := by
  rw [readLeading]
  · rintro value rest' rfl
    exact hrest rfl
  · rintro rfl
    exact hrest rfl

/-- What reading a sentence does from `attrs` on: the items before the name are set, then its
scope; the name is checked against what is set by then; and the rest is set. -/
def Sentence.Yields (s : Sentence) (path : String) (attrs : Attrs) (name : String)
    (final : Attrs) : Prop :=
  ∃ front mid, Sets path attrs (s.leading.map Leading.assignment) front
    ∧ Sets path front s.name.scope mid ∧ checkName mid s.name.bare = .ok name
    ∧ Sets path mid (trailingAssignments s.trailing s.dangling) final

/-- An item in front of a sentence is set before everything else. -/
theorem yields_cons_iff {path name : String} {attrs final : Attrs} {item : Leading}
    {leading : List Leading} {n : Name} {trailing : List Attribute}
    {dangling : Option (List Char)} :
    Sentence.Yields ⟨item :: leading, n, trailing, dangling⟩ path attrs name final ↔
      ∃ next, setAttr path attrs item.assignment.1 item.assignment.2 = .ok next
        ∧ Sentence.Yields ⟨leading, n, trailing, dangling⟩ path next name final := by
  constructor
  · rintro ⟨front, mid, hfront, hrest⟩
    obtain ⟨next, hset, hfront⟩ := sets_cons_iff.1 hfront
    exact ⟨next, hset, front, mid, hfront, hrest⟩
  · rintro ⟨next, hset, front, mid, hfront, hrest⟩
    exact ⟨front, mid, sets_cons_iff.2 ⟨next, hset, hfront⟩, hrest⟩

/-- A sentence is read if everything in it can be set. -/
theorem readLeading_tokens {path name : String} {s : Sentence} {attrs final : Attrs}
    (h : s.Yields path attrs name final) :
    readLeading path attrs s.tokens = .ok (name, final) := by
  obtain ⟨leading, n, trailing, dangling⟩ := s
  induction leading generalizing attrs with
  | nil =>
    obtain ⟨front, mid, hfront, hscope, hname, htrailing⟩ := h
    cases hfront
    exact (readLeading_name n).2 ⟨mid, hscope, hname, readTrailing_tokens htrailing⟩
  | cons item leading ih =>
    obtain ⟨next, hset, hrest⟩ := yields_cons_iff.1 h
    have hread := ih hrest
    have hhead := head?_tokens ⟨leading, n, trailing, dangling⟩
    cases item with
    | query kind =>
      show readLeading path attrs
        (.word ('?' :: kind) :: Sentence.tokens ⟨leading, n, trailing, dangling⟩) = _
      rw [readLeading]
      exact bind_eq_ok_iff.2 ⟨next, hset, hread⟩
    | marked a =>
      obtain ⟨key, value⟩ := a
      cases value with
      | none =>
        show readLeading path attrs
          (.word ('@' :: key) :: Sentence.tokens ⟨leading, n, trailing, dangling⟩) = _
        rw [readLeading_key hhead]
        exact bind_eq_ok_iff.2 ⟨next, hset, hread⟩
      | some value =>
        show readLeading path attrs (.word ('@' :: key) :: .equals :: value
          :: Sentence.tokens ⟨leading, n, trailing, dangling⟩) = _
        rw [readLeading]
        exact bind_eq_ok_iff.2 ⟨next, hset, hread⟩

/-- Every word without a mark is the name of some sentence. -/
theorem exists_name {text : List Char} (hunmarked : ∀ c ∈ text.head?, c ≠ '?' ∧ c ≠ '@') :
    ∃ n : Name, n.token = .word text := by
  cases text with
  | nil => exact ⟨.plain [] (by simp), rfl⟩
  | cons c cs =>
    by_cases hdot : c = '.'
    · subst hdot
      cases cs with
      | nil => exact ⟨.inFile [] (by simp), rfl⟩
      | cons d cs =>
        by_cases hslash : d = '/'
        · subst hslash
          exact ⟨.inDirectory cs, rfl⟩
        · exact ⟨.inFile (d :: cs) (by simpa using hslash), rfl⟩
    · have hplain : ∀ d ∈ (c :: cs).head?, d ≠ '?' ∧ d ≠ '@' ∧ d ≠ '.' := by
        rintro d ⟨⟩
        exact ⟨(hunmarked c rfl).1, (hunmarked c rfl).2, hdot⟩
      exact ⟨.plain (c :: cs) hplain, rfl⟩

/-- Whatever is read is a sentence in which everything can be set. -/
theorem exists_sentence_of_read {path name : String} {tokens : List Token} {attrs final : Attrs}
    (h : readLeading path attrs tokens = .ok (name, final)) :
    ∃ s : Sentence, tokens = s.tokens ∧ s.Yields path attrs name final := by
  -- Where the reader sees the name, only attributes follow.
  have atName : ∀ {attrs : Attrs} {n : Name} {rest : List Token},
      readLeading path attrs (n.token :: rest) = .ok (name, final) →
      ∃ s : Sentence, n.token :: rest = s.tokens ∧ s.Yields path attrs name final := by
    intro attrs n rest h
    obtain ⟨mid, hscope, hname, hread⟩ := (readLeading_name n).1 h
    obtain ⟨trailing, dangling, rfl, htrailing⟩ := exists_trailing_of_read hread
    exact ⟨⟨[], n, trailing, dangling⟩, rfl, attrs, mid, .done _, hscope, hname, htrailing⟩
  -- Elsewhere it sets one item, which goes in front of the sentence that it reads after it.
  have before : ∀ {attrs next : Attrs} {rest : List Token} (item : Leading),
      setAttr path attrs item.assignment.1 item.assignment.2 = .ok next →
      (∃ s : Sentence, rest = s.tokens ∧ s.Yields path next name final) →
      ∃ s : Sentence, item.tokens ++ rest = s.tokens ∧ s.Yields path attrs name final := by
    rintro attrs next rest item hset ⟨⟨leading, n, trailing, dangling⟩, rfl, hyields⟩
    exact ⟨⟨item :: leading, n, trailing, dangling⟩, by simp [Sentence.tokens],
      yields_cons_iff.2 ⟨next, hset, hyields⟩⟩
  fun_induction readLeading path attrs tokens with
  | case1 => cases h
  | case2 attrs kind rest ih =>
    obtain ⟨next, hset, hread⟩ := bind_eq_ok_iff.1 h
    exact before (.query kind) hset (ih next hread)
  | case3 attrs key value rest ih =>
    obtain ⟨next, hset, hread⟩ := bind_eq_ok_iff.1 h
    exact before (.marked ⟨key, some value⟩) hset (ih next hread)
  | case4 attrs key =>
    -- An equals sign at the end leaves no name.
    obtain ⟨next, -, herror⟩ := bind_eq_ok_iff.1 h
    cases herror
  | case5 attrs key rest _ _ ih =>
    obtain ⟨next, hset, hread⟩ := bind_eq_ok_iff.1 h
    exact before (.marked ⟨key, none⟩) hset (ih next hread)
  | case6 attrs text rest hquery _ _ hmark =>
    have hunmarked : ∀ c ∈ text.head?, c ≠ '?' ∧ c ≠ '@' := by
      cases text with
      | nil => simp
      | cons d cs =>
        rintro c ⟨⟩
        exact ⟨fun hc => hquery cs (by rw [hc]), fun hc => hmark cs (by rw [hc])⟩
    obtain ⟨n, hn⟩ := exists_name hunmarked
    rw [← readLeading_word hunmarked, ← hn] at h
    rw [← hn]
    exact atName h
  | case7 attrs text rest =>
    have hname : readLeading path attrs ((Name.quoted text).token :: rest) = .ok (name, final) := by
      rw [Name.token, readLeading]
      exact h
    exact atName hname
  | case8 => cases h

/-! ### Tags -/

/-- The name of a sentence is a pattern exactly if the sentence asks for patterns. -/
theorem namesArePatterns_iff_asks {path : String} {s : Sentence} {front mid : Attrs}
    (hfront : Sets path Attrs.empty (s.leading.map Leading.assignment) front)
    (hscope : Sets path front s.name.scope mid) :
    namesArePatterns mid = true ↔ s.AsksForPatterns := by
  have hsets := sets_append_iff.2 ⟨front, hfront, hscope⟩
  have hout : ∀ value, (Entry.searchKey, value) ∉ s.name.scope := by
    intro value hmem
    cases hname : s.name <;> simp [hname, Name.scope, Entry.searchKey, Entry.scopeKey] at hmem
  rw [namesArePatterns_eq_true_iff, hsets.get?_search_iff rfl, hsets.get?_search_iff rfl,
    Sentence.AsksForPatterns]
  simp only [List.mem_append, hout, or_false]
  constructor
  · rintro (⟨value, hvalue, hmem⟩ | ⟨value, hvalue, hmem⟩)
    · exact ⟨value, .inl hvalue, hmem⟩
    · exact ⟨value, .inr hvalue, hmem⟩
  · rintro ⟨value, hvalue | hvalue, hmem⟩
    · exact .inl ⟨value, hvalue, hmem⟩
    · exact .inr ⟨value, hvalue, hmem⟩

/-- From no attributes on, a sentence yields what it means. -/
theorem yields_iff_means {s : Sentence} {loc : Location} {e : Entry} (hloc : e.loc = loc) :
    s.Yields loc.path Attrs.empty e.name e.attrs ↔ s.Means loc e := by
  constructor
  · rintro ⟨front, mid, hfront, hscope, hname, htrailing⟩
    obtain ⟨hbare, hnamed⟩ := checkName_eq_ok_iff.1 hname
    rw [namesArePatterns_iff_asks hfront hscope] at hnamed
    have hmid := sets_append_iff.2 ⟨front, hfront, hscope⟩
    exact ⟨hloc, hbare, sets_append_iff.2 ⟨mid, hmid, htrailing⟩, hnamed⟩
  · rintro ⟨-, hbare, hsets, hnamed⟩
    obtain ⟨mid, hmid, htrailing⟩ := sets_append_iff.1 hsets
    obtain ⟨front, hfront, hscope⟩ := sets_append_iff.1 hmid
    rw [← namesArePatterns_iff_asks hfront hscope] at hnamed
    exact ⟨front, mid, hfront, hscope, checkName_eq_ok_iff.2 ⟨hbare, hnamed⟩, htrailing⟩

/-- Reading a tag is reading its tokens from no attributes on. -/
theorem parse_eq_ok_iff_readLeading {text : String} {loc : Location} {e : Entry} :
    parse text loc = .ok e ↔
      e.loc = loc ∧ ∃ tokens, tokenize text.toList = .ok tokens
        ∧ readLeading loc.path Attrs.empty tokens = .ok (e.name, e.attrs) := by
  constructor
  · intro h
    obtain ⟨tokens, htokens, h⟩ := bind_eq_ok_iff.1 h
    split at h
    · cases h
    · obtain ⟨⟨name, attrs⟩, hread, h⟩ := bind_eq_ok_iff.1 h
      cases h
      exact ⟨rfl, tokens, mapError_eq_ok_iff.1 htokens, hread⟩
  · rintro ⟨rfl, tokens, htokens, hread⟩
    refine bind_eq_ok_iff.2 ⟨tokens, mapError_eq_ok_iff.2 htokens, ?_⟩
    -- No tokens are no tag, whichever of the two reasons is given.
    have hne : ¬ tokens.isEmpty = true := by
      intro hempty
      rw [List.isEmpty_iff.1 hempty] at hread
      cases hread
    rw [if_neg hne]
    exact bind_eq_ok_iff.2 ⟨(e.name, e.attrs), hread, rfl⟩

theorem exists_sentence_of_parse {text : String} {loc : Location} {e : Entry}
    (h : parse text loc = .ok e) :
    ∃ s : Sentence, tokenize text.toList = .ok s.tokens ∧ s.Means loc e := by
  obtain ⟨hloc, tokens, htokens, hread⟩ := parse_eq_ok_iff_readLeading.1 h
  obtain ⟨s, rfl, hyields⟩ := exists_sentence_of_read hread
  exact ⟨s, htokens, (yields_iff_means hloc).1 hyields⟩

/-- Every key of an entry that was read is well formed. -/
theorem isKey_of_parse {text : String} {loc : Location} {e : Entry} (h : parse text loc = .ok e)
    {key : String} (hkey : key ∈ e.attrs.keys) : isKey key.toList = true := by
  obtain ⟨s, -, hmeans⟩ := exists_sentence_of_parse h
  rcases hmeans.sets.keys hkey with hnone | hgood
  · cases hnone
  · exact hgood

/-- A key is not empty and holds no equals sign. -/
theorem ne_nil_of_isKey {key : List Char} (h : isKey key = true) : key ≠ [] ∧ '=' ∉ key := by
  cases key with
  | nil => cases h
  | cons c cs =>
    simp only [isKey, startsAndGoesOn, Bool.and_eq_true, List.all_eq_true] at h
    refine ⟨by simp, ?_⟩
    intro hmem
    rcases List.mem_cons.1 hmem with rfl | hmem
    · exact absurd h.1 (by decide)
    · exact absurd (h.2 '=' hmem) (by decide)

end CrossTag.Tag
