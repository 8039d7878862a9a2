import CrossTag.Proofs.Tag.Reader

/-!
# Where a tag stands

The location of a tag matters to its reader in one place: a scope `.` or `./` is spelled out for
the file that holds the tag. A file at the top has no directory to spell out, so there a scope
`./` is left out of the attributes and does not count as set:

    ./meow scope=x    in a directory    the scope is set twice, and the text is no tag
    ./meow scope=x    at the top        a tag with the scope x

How far this goes is said in two ways.

* `Sentence.Fits` are the sentences that are tags at a place, and only one of its rules mentions
  the place. Since tokens are those of at most one sentence (`tokens_injective`), it settles where
  a text is a tag.
* `Follows` compares two runs of the reader on one text at two places: what one of them reads the
  other reads too, with the same name and the same attributes other than the scope, unless it
  stops at a second scope. This is shown for setting one attribute (`follows_setAttr`) and carried
  through the reader from there.
-/

namespace CrossTag.Tag

open Outcome

/-! ### Sentences of a text -/

/-- A scope in front of a name can be told from the name. -/
theorem token_injective {n n' : Name} (h : n.token = n'.token) : n = n' := by
  cases n <;> cases n' <;> grind [Name.token]

/-- An attribute ends where no equals sign follows: what comes after it cannot start with one. -/
theorem attribute_append_inj {mark : List Char} {x y : Attribute} {rest rest' : List Token}
    (hrest : rest.head? ≠ some .equals) (hrest' : rest'.head? ≠ some .equals)
    (h : x.tokens mark ++ rest = y.tokens mark ++ rest') : x = y ∧ rest = rest' := by
  obtain ⟨key, value⟩ := x
  obtain ⟨key', value'⟩ := y
  cases value with
  | none =>
    cases value' with
    | none => simp_all [Attribute.tokens]
    | some v' => simp_all [Attribute.tokens]
  | some v =>
    cases value' with
    | none =>
      simp only [Attribute.tokens, List.cons_append, List.nil_append, List.cons.injEq] at h
      exact absurd (congrArg List.head? h.2).symm hrest'
    | some v' => simp_all [Attribute.tokens]

theorem trailingTokens_cons (x : Attribute) (trailing : List Attribute)
    (dangling : Option (List Char)) :
    trailingTokens (x :: trailing) dangling = x.tokens [] ++ trailingTokens trailing dangling := by
  simp [trailingTokens]

/-- A key whose equals sign ends the text is no attribute. -/
theorem trailingTokens_cons_ne_nil (x : Attribute) (trailing : List Attribute)
    (dangling dangling' : Option (List Char)) :
    trailingTokens (x :: trailing) dangling ≠ trailingTokens [] dangling' := by
  intro h
  rw [trailingTokens_cons] at h
  obtain ⟨key, value⟩ := x
  cases dangling' with
  | none => cases h
  | some key' =>
    cases value with
    | none => exact head?_trailingTokens trailing dangling (congrArg List.head? (List.cons.inj h).2)
    | some v => cases h

theorem trailingTokens_injective {trailing trailing' : List Attribute}
    {dangling dangling' : Option (List Char)}
    (h : trailingTokens trailing dangling = trailingTokens trailing' dangling') :
    trailing = trailing' ∧ dangling = dangling' := by
  induction trailing generalizing trailing' with
  | nil =>
    cases trailing' with
    | nil => cases dangling <;> cases dangling' <;> simp_all [trailingTokens]
    | cons y trailing' => exact absurd h.symm (trailingTokens_cons_ne_nil y trailing' _ _)
  | cons x trailing ih =>
    cases trailing' with
    | nil => exact absurd h (trailingTokens_cons_ne_nil x trailing _ _)
    | cons y trailing' =>
      rw [trailingTokens_cons, trailingTokens_cons] at h
      obtain ⟨rfl, hrest⟩ :=
        attribute_append_inj (head?_trailingTokens _ _) (head?_trailingTokens _ _) h
      obtain ⟨rfl, rfl⟩ := ih hrest
      exact ⟨rfl, rfl⟩

/-- What stands before the name starts with a mark, and the name does not. -/
theorem leading_append_ne (item : Leading) (rest rest' : List Token) (n : Name) :
    item.tokens ++ rest ≠ n.token :: rest' := by
  cases item <;> cases n <;> grind [Leading.tokens, Attribute.tokens, Name.token]

theorem leading_append_inj {x y : Leading} {rest rest' : List Token}
    (hrest : rest.head? ≠ some .equals) (hrest' : rest'.head? ≠ some .equals)
    (h : x.tokens ++ rest = y.tokens ++ rest') : x = y ∧ rest = rest' := by
  cases x with
  | query kind =>
    cases y with
    | query kind' => simp_all [Leading.tokens]
    | marked y => simp [Leading.tokens, Attribute.tokens] at h
  | marked x =>
    cases y with
    | query kind' => simp [Leading.tokens, Attribute.tokens] at h
    | marked y =>
      obtain ⟨rfl, hrest⟩ := attribute_append_inj hrest hrest' h
      exact ⟨rfl, hrest⟩

theorem tokens_cons (item : Leading) (leading : List Leading) (n : Name)
    (trailing : List Attribute) (dangling : Option (List Char)) :
    Sentence.tokens ⟨item :: leading, n, trailing, dangling⟩
      = item.tokens ++ Sentence.tokens ⟨leading, n, trailing, dangling⟩ := by
  simp [Sentence.tokens]

/-- **The grammar is unambiguous**: tokens are those of at most one sentence. -/
theorem tokens_injective {s s' : Sentence} (h : s.tokens = s'.tokens) : s = s' := by
  obtain ⟨leading, name, trailing, dangling⟩ := s
  obtain ⟨leading', name', trailing', dangling'⟩ := s'
  induction leading generalizing leading' with
  | nil =>
    cases leading' with
    | nil =>
      obtain ⟨hname, htrailing⟩ := List.cons.inj h
      have hn : name = name' := token_injective hname
      obtain ⟨ht, hd⟩ : trailing = trailing' ∧ dangling = dangling' :=
        trailingTokens_injective htrailing
      subst hn ht hd
      rfl
    | cons item leading' =>
      rw [tokens_cons] at h
      exact absurd h.symm (leading_append_ne item _ _ name)
  | cons item leading ih =>
    rw [tokens_cons] at h
    cases leading' with
    | nil => exact absurd h (leading_append_ne item _ _ name')
    | cons item' leading' =>
      rw [tokens_cons] at h
      obtain ⟨rfl, hrest⟩ := leading_append_inj (head?_tokens _) (head?_tokens _) h
      cases ih leading' hrest
      rfl

/-! ### Assignments that can be made -/

/-- What assignments have to satisfy in a file at `path` to be made one after the other: every key
is well formed, every kind of query is one that there is, and no key is set twice, except behind a
scope for the directory of a file that has none. -/
structure Settable (path : String) (assignments : List (String × String)) : Prop where
  keys : ∀ p ∈ assignments, isKey p.1.toList = true
  kinds : ∀ p ∈ assignments, p.1 = Entry.searchKey → ∃ kind, p.2 ∈ spellings kind
  once : assignments.Pairwise fun p q =>
    p.1 = q.1 → p = (Entry.scopeKey, "./") ∧ separator ∉ path.toList

/-- A sentence that is a tag in a file at `path`. -/
structure Sentence.Fits (s : Sentence) (path : String) : Prop where
  settable : Settable path s.assignments
  named : s.AsksForPatterns ∨ isName s.name.bare = true

theorem settable_nil (path : String) : Settable path [] :=
  ⟨by simp, by simp, .nil⟩

theorem settable_cons_iff {path key value : String} {rest : List (String × String)} :
    Settable path ((key, value) :: rest) ↔
      isKey key.toList = true ∧ (key = Entry.searchKey → ∃ kind, value ∈ spellings kind)
        ∧ (∀ p ∈ rest, key = p.1 →
            (key, value) = (Entry.scopeKey, "./") ∧ separator ∉ path.toList)
        ∧ Settable path rest := by
  constructor
  · rintro ⟨hkeys, hkinds, honce⟩
    obtain ⟨hhead, htail⟩ := List.pairwise_cons.1 honce
    exact ⟨hkeys _ List.mem_cons_self, hkinds _ List.mem_cons_self, hhead,
      fun p hp => hkeys p (List.mem_cons_of_mem _ hp),
      fun p hp => hkinds p (List.mem_cons_of_mem _ hp), htail⟩
  · rintro ⟨hkey, hkind, hhead, hkeys, hkinds, htail⟩
    exact ⟨List.forall_mem_cons.2 ⟨hkey, hkeys⟩, List.forall_mem_cons.2 ⟨hkind, hkinds⟩,
      List.pairwise_cons.2 ⟨hhead, htail⟩⟩

/-- Only the kind of a query can be a value that there are no rules for. -/
theorem exists_stores (path : String) {key value : String}
    (h : key = Entry.searchKey → ∃ kind, value ∈ spellings kind) :
    ∃ stored, Stores path key value stored := by
  by_cases hscope : key = Entry.scopeKey
  · subst hscope
    by_cases hfile : value = "."
    · exact ⟨some path, hfile ▸ .file⟩
    · by_cases hdir : value = "./"
      · cases hd : containingDir? path with
        | none => exact ⟨none, hdir ▸ .top (containingDir?_eq_none_iff.1 hd)⟩
        | some dir => exact ⟨some dir, hdir ▸ .directory (containingDir?_eq_some_iff.1 hd)⟩
      · exact ⟨some value, .scope hfile hdir⟩
  · by_cases hsearch : key = Entry.searchKey
    · obtain ⟨kind, hkind⟩ := h hsearch
      exact ⟨some kind.name, hsearch ▸ .search hkind⟩
    · exact ⟨some value, .other hscope hsearch⟩

/-- Nothing is stored exactly for the directory of a file at the top. -/
theorem stores_none_iff {path key value : String} :
    Stores path key value none ↔
      (key, value) = (Entry.scopeKey, "./") ∧ separator ∉ path.toList := by
  constructor
  · intro h
    cases h with
    | top htop => exact ⟨rfl, htop⟩
  · rintro ⟨heq, htop⟩
    cases heq
    exact .top htop

/-- In a file that has a directory, a scope for it is stored as such. -/
theorem Stores.directory_inv {path dir : String}
    (h : Stores path Entry.scopeKey "./" (some dir)) : IsDirectoryOf dir path := by
  have hvalue := storedValue_eq_ok_iff.2 h
  exact containingDir?_eq_some_iff.1 (Except.ok.inj hvalue)

/-- What is stored is settled by the place, the key and the value. -/
theorem Stores.unique {path key value : String} {stored stored' : Option String}
    (h : Stores path key value stored) (h' : Stores path key value stored') :
    stored = stored' :=
  Except.ok.inj ((storedValue_eq_ok_iff.2 h).symm.trans (storedValue_eq_ok_iff.2 h'))

/-- Assignments that were made follow the rules, and none of their keys was taken. -/
theorem Sets.settable {path : String} {attrs final : Attrs}
    {assignments : List (String × String)} (h : Sets path attrs assignments final) :
    Settable path assignments ∧ ∀ p ∈ assignments, attrs.get? p.1 = none := by
  induction h with
  | done => exact ⟨settable_nil path, by simp⟩
  | @leave _ _ key _ _ hkey hfree hstores _ ih =>
    obtain ⟨hsettable, hrest⟩ := ih
    have hleft := stores_none_iff.1 hstores
    refine ⟨settable_cons_iff.2 ⟨hkey, ?_, fun _ _ _ => hleft, hsettable⟩,
      List.forall_mem_cons.2 ⟨hfree, hrest⟩⟩
    intro hsearch
    have hscope : key = Entry.scopeKey := congrArg Prod.fst hleft.1
    rw [hsearch] at hscope
    exact absurd hscope (by decide)
  | @set attrs _ key value stored rest hkey hfree hstores _ ih =>
    obtain ⟨hsettable, hrest⟩ := ih
    -- The key is taken from here on, so it does not come again.
    have hlater : ∀ p ∈ rest, p.1 ≠ key ∧ attrs.get? p.1 = none := by
      intro p hp
      have hnone := hrest p hp
      rw [Attrs.get?_insert] at hnone
      split at hnone
      · cases hnone
      · rename_i hne
        exact ⟨hne, hnone⟩
    refine ⟨settable_cons_iff.2 ⟨hkey, ?_, ?_, hsettable⟩,
      List.forall_mem_cons.2 ⟨hfree, fun p hp => (hlater p hp).2⟩⟩
    · rintro rfl
      obtain ⟨kind, hkind, -⟩ := hstores.search_inv
      exact ⟨kind, hkind⟩
    · intro p hp heq
      exact absurd heq.symm (hlater p hp).1

/-- Assignments that follow the rules can be made where none of their keys is taken. -/
theorem Settable.exists_sets {path : String} {attrs : Attrs} {assignments : List (String × String)}
    (h : Settable path assignments) (hfree : ∀ p ∈ assignments, attrs.get? p.1 = none) :
    ∃ final, Sets path attrs assignments final := by
  induction assignments generalizing attrs with
  | nil => exact ⟨attrs, .done attrs⟩
  | cons p rest ih =>
    obtain ⟨key, value⟩ := p
    obtain ⟨hkey, hkind, honce, hsettable⟩ := settable_cons_iff.1 h
    obtain ⟨hhead, hrest⟩ := List.forall_mem_cons.1 hfree
    obtain ⟨stored, hstores⟩ := exists_stores path hkind
    cases stored with
    | none =>
      obtain ⟨final, hsets⟩ := ih hsettable hrest
      exact ⟨final, .leave hkey hhead hstores hsets⟩
    | some stored =>
      have hinsert : ∀ p ∈ rest, (attrs.insert key stored).get? p.1 = none := by
        intro p hp
        rw [Attrs.get?_insert, if_neg, hrest p hp]
        intro heq
        -- A key that comes again would be one for which nothing is stored.
        cases hstores.unique (stores_none_iff.2 (honce p hp heq.symm))
      obtain ⟨final, hsets⟩ := ih hsettable hinsert
      exact ⟨final, .set hkey hhead hstores hsets⟩

/-- A text is a tag exactly if its tokens are a sentence that fits. -/
theorem exists_entry_iff_fits {text : String} {loc : Location} :
    (∃ e, parse text loc = .ok e) ↔
      ∃ s : Sentence, tokenize text.toList = .ok s.tokens ∧ s.Fits loc.path := by
  constructor
  · rintro ⟨e, h⟩
    obtain ⟨s, htokens, hmeans⟩ := exists_sentence_of_parse h
    exact ⟨s, htokens, hmeans.sets.settable.1, hmeans.named⟩
  · rintro ⟨s, htokens, hsettable, hnamed⟩
    obtain ⟨attrs, hsets⟩ := hsettable.exists_sets fun p _ => Attrs.get?_empty p.1
    let e : Entry := ⟨String.ofList s.name.bare, attrs, loc⟩
    have hmeans : s.Means e.loc e := ⟨rfl, rfl, hsets, hnamed⟩
    have hread := readLeading_tokens ((yields_iff_means rfl).2 hmeans)
    exact ⟨e, parse_eq_ok_iff_readLeading.2 ⟨rfl, s.tokens, htokens, hread⟩⟩

/-! ### Two runs -/

section TwoRuns

variable {a b : String} {α β : Type}

/-- The attributes of two runs at `a` and at `b`: they answer alike for every key but the scope,
and a scope that only the first run has is a directory, which the second has none of. -/
structure Alike (a b : String) (attrs attrs' : Attrs) : Prop where
  others : ∀ key, key ≠ Entry.scopeKey → attrs.get? key = attrs'.get? key
  scope : ∀ dir, attrs.get? Entry.scopeKey = some dir → attrs'.get? Entry.scopeKey = none →
    IsDirectoryOf dir a ∧ separator ∉ b.toList

/-- A run at `a` stops at a second scope, where one at `b` has not seen the first. -/
def Collides (a b : String) (x : Except TagError α) : Prop :=
  separator ∉ b.toList
    ∧ ∃ dir, IsDirectoryOf dir a ∧ x = .error (.duplicateAttribute Entry.scopeKey dir)

/-- Whatever the run at `b` reads is read at `a` too and related by `R`, or there is a second
scope. -/
def Follows (a b : String) (R : α → α → Prop) (x y : Except TagError α) : Prop :=
  ∀ v', y = .ok v' → (∃ v, x = .ok v ∧ R v v') ∨ Collides a b x

theorem follows_ok {R : α → α → Prop} {v v' : α} (h : R v v') :
    Follows a b R (.ok v) (.ok v') := by
  rintro _ ⟨⟩
  exact .inl ⟨v, rfl, h⟩

theorem follows_error {R : α → α → Prop} (x : Except TagError α) (e : TagError) :
    Follows a b R x (.error e) := by
  rintro _ ⟨⟩

/-- A collision ends a run. -/
theorem Collides.bind {x : Except TagError α} (h : Collides a b x) (f : α → Except TagError β) :
    Collides a b (x >>= f) := by
  obtain ⟨htop, dir, hdir, rfl⟩ := h
  exact ⟨htop, dir, hdir, rfl⟩

/-- Runs are compared step by step. -/
theorem Follows.bind {R : α → α → Prop} {S : β → β → Prop} {x y : Except TagError α}
    {f g : α → Except TagError β} (h : Follows a b R x y)
    (hstep : ∀ v v', R v v' → Follows a b S (f v) (g v')) :
    Follows a b S (x >>= f) (y >>= g) := by
  intro w' hw'
  obtain ⟨v', hy, hg⟩ := bind_eq_ok_iff.1 hw'
  rcases h v' hy with ⟨v, hx, hR⟩ | hcollides
  · rw [hx]
    exact hstep v v' hR w' hg
  · exact .inr (hcollides.bind f)

theorem Follows.map {R : α → α → Prop} {S : β → β → Prop} {x y : Except TagError α} {f : α → β}
    (h : Follows a b R x y) (hf : ∀ v v', R v v' → S (f v) (f v')) :
    Follows a b S (x.map f) (y.map f) := by
  have hbind : ∀ z : Except TagError α, z.map f = z >>= fun v => .ok (f v) := by
    intro z
    cases z <;> rfl
  rw [hbind, hbind]
  exact h.bind fun v v' hR => follows_ok (hf v v' hR)

/-! ### Setting one attribute -/

/-- The attributes after something was stored under a key, or nothing was. -/
def store (attrs : Attrs) (key : String) : Option String → Attrs
  | none => attrs
  | some value => attrs.insert key value

theorem get?_store {attrs : Attrs} {key : String} (hfree : attrs.get? key = none)
    (stored : Option String) (k : String) :
    (store attrs key stored).get? k = if k = key then stored else attrs.get? k := by
  cases stored with
  | none =>
    show attrs.get? k = _
    split
    · rename_i heq
      rw [heq, hfree]
    · rfl
  | some value => exact Attrs.get?_insert attrs key value k

theorem setAttr_eq_ok_iff {path key value : String} {attrs next : Attrs} :
    setAttr path attrs key value = .ok next ↔
      isKey key.toList = true ∧ attrs.get? key = none
        ∧ ∃ stored, Stores path key value stored ∧ next = store attrs key stored := by
  constructor
  · intro h
    have hsets : Sets path attrs [(key, value)] next := sets_cons_iff.2 ⟨next, h, .done next⟩
    cases hsets with
    | leave hkey hfree hstores hrest =>
      cases hrest
      exact ⟨hkey, hfree, none, hstores, rfl⟩
    | set hkey hfree hstores hrest =>
      cases hrest
      exact ⟨hkey, hfree, _, hstores, rfl⟩
  · rintro ⟨hkey, hfree, stored, hstores, rfl⟩
    have hsets : Sets path attrs [(key, value)] (store attrs key stored) := by
      cases stored with
      | none => exact .leave hkey hfree hstores (.done _)
      | some stored => exact .set hkey hfree hstores (.done _)
    obtain ⟨next, hset, hrest⟩ := sets_cons_iff.1 hsets
    cases hrest
    exact hset

/-- Only a scope is stored in a way that depends on the place. -/
theorem Stores.elsewhere {key value : String} {stored : Option String}
    (h : Stores b key value stored) (hkey : key ≠ Entry.scopeKey) :
    Stores a key value stored := by
  rw [← storedValue_eq_ok_iff] at h ⊢
  simpa [storedValue, hkey] using h

/-- **One attribute.** Set at both places, it is stored at both, or left out at both, or it is the
directory of one place and left out at the other. The run that stored the directory stops if
another scope comes. -/
theorem follows_setAttr {attrs attrs' : Attrs} (h : Alike a b attrs attrs') (key value : String) :
    Follows a b (Alike a b) (setAttr a attrs key value) (setAttr b attrs' key value) := by
  intro next' hset'
  obtain ⟨hkey, hfree', stored', hstores', rfl⟩ := setAttr_eq_ok_iff.1 hset'
  by_cases hscope : key = Entry.scopeKey
  · subst hscope
    cases hold : attrs.get? Entry.scopeKey with
    | some dir =>
      -- Only the first run has a scope already, so this is the second one that it sees.
      obtain ⟨hdir, htop⟩ := h.scope dir hold hfree'
      exact .inr ⟨htop, dir, hdir, by simp [setAttr, hkey, hold]⟩
    | none =>
      have hsearch : Entry.scopeKey ≠ Entry.searchKey := by decide
      obtain ⟨stored, hstores⟩ := exists_stores a fun heq => absurd heq hsearch
      refine .inl ⟨store attrs Entry.scopeKey stored,
        setAttr_eq_ok_iff.2 ⟨hkey, hold, stored, hstores, rfl⟩, ?_, ?_⟩
      · intro k hk
        rw [get?_store hold, get?_store hfree', if_neg hk, if_neg hk, h.others k hk]
      · intro dir hdir hnone
        rw [get?_store hold, if_pos rfl] at hdir
        rw [get?_store hfree', if_pos rfl] at hnone
        subst hdir hnone
        -- Left out at one place and stored at the other: a scope for the directory.
        obtain ⟨heq, htop⟩ := stores_none_iff.1 hstores'
        cases heq
        exact ⟨hstores.directory_inv, htop⟩
  · have hfree : attrs.get? key = none := by rw [h.others key hscope, hfree']
    refine .inl ⟨store attrs key stored',
      setAttr_eq_ok_iff.2 ⟨hkey, hfree, stored', hstores'.elsewhere hscope, rfl⟩, ?_, ?_⟩
    · intro k hk
      rw [get?_store hfree, get?_store hfree', h.others k hk]
    · intro dir hdir hnone
      rw [get?_store hfree, if_neg (Ne.symm hscope)] at hdir
      rw [get?_store hfree', if_neg (Ne.symm hscope)] at hnone
      exact h.scope dir hdir hnone

/-! ### Reading tags -/

/-- Behind the name, attributes are set one by one. -/
theorem follows_readTrailing {attrs attrs' : Attrs} (h : Alike a b attrs attrs')
    (tokens : List Token) :
    Follows a b (Alike a b) (readTrailing a attrs tokens) (readTrailing b attrs' tokens) := by
  fun_induction readTrailing b attrs' tokens generalizing attrs with
  | case1 attrs' => exact follows_ok h
  | case2 attrs' key value rest ih =>
    rw [readTrailing]
    exact (follows_setAttr h _ _).bind fun next next' hnext => ih next' hnext
  | case3 attrs' key =>
    rw [readTrailing]
    exact follows_setAttr h _ _
  | case4 attrs' key rest hvalue hend ih =>
    rw [readTrailing]
    · exact (follows_setAttr h _ _).bind fun next next' hnext => ih next' hnext
    · exact hvalue
    · exact hend
  | case5 => exact follows_error _ _
  | case6 => exact follows_error _ _

theorem follows_takeScope {attrs attrs' : Attrs} (h : Alike a b attrs attrs') (text : List Char) :
    Follows a b (fun x y => Alike a b x.1 y.1 ∧ x.2 = y.2)
      (takeScope a attrs text) (takeScope b attrs' text) := by
  fun_cases takeScope b attrs' text with
  | case1 rest =>
    rw [takeScope]
    exact (follows_setAttr h _ _).map fun next next' hnext => ⟨hnext, rfl⟩
  | case2 rest hslash =>
    rw [takeScope]
    · exact (follows_setAttr h _ _).map fun next next' hnext => ⟨hnext, rfl⟩
    · exact hslash
  | case3 _ hslash hdot =>
    rw [takeScope]
    · exact follows_ok ⟨h, rfl⟩
    · exact hslash
    · exact hdot

/-- A name is checked against the kind of query, which is the same at both places. -/
theorem Alike.checkName_eq {attrs attrs' : Attrs} (h : Alike a b attrs attrs')
    (text : List Char) : checkName attrs text = checkName attrs' text := by
  have hkind := h.others Entry.searchKey (by decide)
  have hpatterns : namesArePatterns attrs = namesArePatterns attrs' := by
    rw [namesArePatterns, namesArePatterns, hkind]
  rw [checkName, checkName, hpatterns]

/-- From the name on, the two runs have the same name and go on alike. -/
theorem follows_named {attrs attrs' : Attrs} (h : Alike a b attrs attrs') (text : List Char)
    (rest : List Token) :
    Follows a b (fun x y => x.1 = y.1 ∧ Alike a b x.2 y.2)
      (do
        let name ← checkName attrs text
        let attrs ← readTrailing a attrs rest
        return (name, attrs))
      (do
        let name ← checkName attrs' text
        let attrs ← readTrailing b attrs' rest
        return (name, attrs)) := by
  rw [h.checkName_eq text]
  cases checkName attrs' text with
  | error e => exact follows_error _ _
  | ok name =>
    exact (follows_readTrailing h rest).bind fun final final' hfinal => follows_ok ⟨rfl, hfinal⟩

/-- **One text.** Read at two places, it has the same name and the same attributes but the scope,
unless one of the runs stops at a second scope. -/
theorem follows_readLeading {attrs attrs' : Attrs} (h : Alike a b attrs attrs')
    (tokens : List Token) :
    Follows a b (fun x y => x.1 = y.1 ∧ Alike a b x.2 y.2)
      (readLeading a attrs tokens) (readLeading b attrs' tokens) := by
  fun_induction readLeading b attrs' tokens generalizing attrs with
  | case1 => exact follows_error _ _
  | case2 attrs' kind rest ih =>
    rw [readLeading]
    exact (follows_setAttr h _ _).bind fun next next' hnext => ih next' hnext
  | case3 attrs' key value rest ih =>
    rw [readLeading]
    exact (follows_setAttr h _ _).bind fun next next' hnext => ih next' hnext
  | case4 attrs' key =>
    -- No name follows, so neither run reads anything.
    rw [readLeading]
    exact (follows_setAttr h _ _).bind fun _ _ _ => follows_error _ _
  | case5 attrs' key rest hvalue hend ih =>
    rw [readLeading]
    · exact (follows_setAttr h _ _).bind fun next next' hnext => ih next' hnext
    · exact hvalue
    · exact hend
  | case6 attrs' text rest hquery hmarked hend hmark =>
    rw [readLeading]
    · apply (follows_takeScope h text).bind
      rintro ⟨next, bare⟩ ⟨next', _⟩ ⟨hnext, rfl⟩
      exact follows_named hnext bare rest
    all_goals assumption
  | case7 attrs' text rest =>
    rw [readLeading]
    exact follows_named h text rest
  | case8 => exact follows_error _ _

end TwoRuns

theorem alike_empty (a b : String) : Alike a b Attrs.empty Attrs.empty :=
  ⟨fun _ _ => rfl, fun _ h => by cases h⟩

/-- What reading a text stops at when it is a list of tokens. -/
theorem parse_eq_error_of_readLeading {text : String} {loc : Location} {tokens : List Token}
    (htokens : tokenize text.toList = .ok tokens) (hne : tokens ≠ []) {error : TagError}
    (h : readLeading loc.path Attrs.empty tokens = .error error) :
    parse text loc = .error error := by
  refine bind_eq_error_iff.2 (.inr ⟨tokens, mapError_eq_ok_iff.2 htokens, ?_⟩)
  rw [if_neg (by simpa using hne)]
  exact bind_eq_error_iff.2 (.inl h)

/-- In a sentence that fits, only a scope for the directory of a file at the top is followed by
another value of its key. -/
theorem Sentence.Fits.once {s : Sentence} {path : String} (h : s.Fits path)
    {key value value' : String} (htwice : [(key, value), (key, value')].Sublist s.assignments) :
    (key, value) = (Entry.scopeKey, "./") ∧ separator ∉ path.toList :=
  List.pairwise_iff_forall_sublist.1 h.settable.once htwice rfl

/-- **Where a text is a tag.** A text is a tag at a place exactly if it is a sentence that fits
there. A sentence that sets a key twice is a tag nowhere, except for a scope `./` that another one
follows, at the top. What is a tag at one place is a tag at any other, with the same name and the
same attributes but the scope, unless the one is at the top and the other in a directory, which is
then reported as the scope that is set already. -/
theorem parse_placement (text : String) :
    (∀ loc : Location, (∃ e, parse text loc = .ok e) ↔
        ∃ s : Sentence, tokenize text.toList = .ok s.tokens ∧ s.Fits loc.path)
      ∧ (∀ s : Sentence, tokenize text.toList = .ok s.tokens → ∀ key value value' : String,
        [(key, value), (key, value')].Sublist s.assignments → ∀ (loc : Location) (e : Entry),
          parse text loc = .ok e →
            (key, value) = (Entry.scopeKey, "./") ∧ separator ∉ loc.path.toList)
      ∧ ∀ (a b : Location) (e' : Entry), parse text b = .ok e' →
        (∃ e, parse text a = .ok e ∧ e.name = e'.name
            ∧ ∀ key, key ≠ Entry.scopeKey → e.attrs.get? key = e'.attrs.get? key)
          ∨ separator ∉ b.path.toList ∧ ∃ dir, IsDirectoryOf dir a.path
            ∧ parse text a = .error (.duplicateAttribute Entry.scopeKey dir) := by
  refine ⟨fun loc => exists_entry_iff_fits, ?_, ?_⟩
  · intro s htokens key value value' htwice loc e h
    obtain ⟨s', htokens', hfits⟩ := exists_entry_iff_fits.1 ⟨e, h⟩
    have hsame : s = s' := tokens_injective (Except.ok.inj (htokens.symm.trans htokens'))
    subst hsame
    exact hfits.once htwice
  · intro a b e' h
    obtain ⟨-, tokens, htokens, hread⟩ := parse_eq_ok_iff_readLeading.1 h
    rcases follows_readLeading (alike_empty a.path b.path) tokens _ hread with
      ⟨⟨name, attrs⟩, hread', hname, halike⟩ | ⟨htop, dir, hdir, herror⟩
    · exact .inl ⟨⟨name, attrs, a⟩, parse_eq_ok_iff_readLeading.2 ⟨rfl, tokens, htokens, hread'⟩,
        hname, halike.others⟩
    · have hne : tokens ≠ [] := by
        rintro rfl
        cases hread
      exact .inr ⟨htop, dir, hdir, parse_eq_error_of_readLeading htokens hne herror⟩

/-- A name in its directory with one more scope behind it. -/
def rescoped : Sentence :=
  ⟨[], .inDirectory "meow".toList, [⟨"scope".toList, some (.word "x".toList)⟩], none⟩

theorem parse_placement_rescoped :
    (∃ e, parse "./meow scope=x" ⟨"a.rs", 1, 1, 20⟩ = .ok e)
      ∧ ∃ dir, IsDirectoryOf dir "d/a.rs"
        ∧ parse "./meow scope=x" ⟨"d/a.rs", 1, 1, 20⟩
          = .error (.duplicateAttribute Entry.scopeKey dir) := by
  obtain ⟨-, honce, hruns⟩ := parse_placement "./meow scope=x"
  have htokens : tokenize "./meow scope=x".toList = .ok rescoped.tokens := by
    with_unfolding_all rfl
  have hparse : parse "./meow scope=x" ⟨"a.rs", 1, 1, 20⟩
      = .ok ⟨"meow", Attrs.empty.insert "scope" "x", ⟨"a.rs", 1, 1, 20⟩⟩ := by
    with_unfolding_all rfl
  refine ⟨⟨_, hparse⟩, ?_⟩
  rcases hruns ⟨"d/a.rs", 1, 1, 20⟩ _ _ hparse with ⟨e, hbelow, -⟩ | ⟨-, hcollides⟩
  · exact absurd (honce rescoped htokens "scope" "./" "x" (.refl _) _ e hbelow).2 (by decide)
  · exact hcollides

/-- A scope for the directory is set twice here, which is reported below a directory only. -/
theorem not_parse_placement :
    ¬ ∀ (text : String) (a b : Location),
      (∃ e, parse text a = .ok e) ↔ ∃ e, parse text b = .ok e := by
  intro h
  have hparse : parse "@scope=./ ./meow" ⟨"a.rs", 1, 1, 10⟩
      = .ok ⟨"meow", Attrs.empty, ⟨"a.rs", 1, 1, 10⟩⟩ := by
    with_unfolding_all rfl
  obtain ⟨e, hbelow⟩ := (h "@scope=./ ./meow" ⟨"a.rs", 1, 1, 10⟩ ⟨"d/a.rs", 1, 1, 10⟩).1
    ⟨_, hparse⟩
  have herror : parse "@scope=./ ./meow" ⟨"d/a.rs", 1, 1, 10⟩
      = .error (.duplicateAttribute "scope" "d/") := by
    with_unfolding_all rfl
  rw [herror] at hbelow
  cases hbelow

end CrossTag.Tag
