import CrossTag.Command.Search
import CrossTag.Proofs.Attrs
import CrossTag.Proofs.Outcome
import CrossTag.Proofs.Text
import Mathlib.Data.List.Perm.Subperm

/-!
# The arguments of a search come in any order

The arguments are read from left to right, and each is checked against what was read before it:

    argument      refused if there is                   because of
    name          a name already                        another name
    key=value     a value under the key already         another argument with this key,
                                                        or a flag, if the key is `search`

So a reader that has taken an argument refuses what it refused before and what clashes with the
argument, and nothing else (`Takes`). As clashing is symmetric, whether all arguments are read is a
matter of their pairs and not of their order. What is read is one as well: it is the name and the
values that the arguments give, whichever comes first (`entry_unordered`).
-/

namespace CrossTag.Search

open Outcome

/-! ### Arguments -/

/-- An argument that is a name. -/
def IsBare (argument : String) : Prop :=
  '=' ∉ argument.toList

/-- The argument sets `key` to `value`: the key ends at the first equals sign. -/
def Sets (argument key value : String) : Prop :=
  argument.toList = key.toList ++ '=' :: value.toList ∧ '=' ∉ key.toList

/-- Two arguments that cannot stand together, and what is reported of them. -/
inductive Clashes (a b : String) : UsageError → Prop
  | names : IsBare a → IsBare b → Clashes a b .repeatedName
  | keys {key v w : String} : Sets a key v → Sets b key w → Clashes a b (.repeatedAttr key)

/-- What is wrong with the flags and arguments of a search. -/
inductive Fault (glob regexp : Bool) (arguments : List String) : UsageError → Prop
  | flags : glob = true → regexp = true → Fault glob regexp arguments .conflictingKinds
  | kind {a value : String} : glob = true ∨ regexp = true → a ∈ arguments →
      Sets a Entry.searchKey value →
      Fault glob regexp arguments (.repeatedAttr Entry.searchKey)
  | pair {a b : String} {error : UsageError} : [a, b].Subperm arguments → Clashes a b error →
      Fault glob regexp arguments error

/-- The kind of patterns that the flags ask for; without a flag they are exact. -/
def kindOf (glob regexp : Bool) : PatternKind :=
  if glob then .glob else if regexp then .regexp else .exact

/-- The query that flags and arguments stand for, whatever their order. -/
structure IsAnswer (glob regexp : Bool) (arguments : List String) (e : Entry) : Prop where
  named : ∀ a ∈ arguments, IsBare a → e.name = a
  unnamed : (∀ a ∈ arguments, ¬ IsBare a) → e.name = ""
  get? : ∀ key value, e.attrs.get? key = some value ↔
    (∃ a ∈ arguments, Sets a key value)
      ∨ key = Entry.searchKey ∧ value = (kindOf glob regexp).name
        ∧ ∀ a ∈ arguments, ∀ v, ¬ Sets a Entry.searchKey v
  loc : e.loc = ⟨"", 0, 0, 0⟩

theorem Sets.not_isBare {a key value : String} (h : Sets a key value) : ¬ IsBare a := by
  intro hbare
  apply hbare
  rw [h.1]
  simp

theorem splitFirst?_of_isBare {a : String} (h : IsBare a) :
    Text.splitFirst? '=' a.toList = none :=
  Text.splitFirst?_eq_none_iff.2 h

theorem splitFirst?_of_sets {a key value : String} (h : Sets a key value) :
    Text.splitFirst? '=' a.toList = some (key.toList, value.toList) :=
  Text.splitFirst?_eq_some_iff.2 h

/-- An argument sets at most one key, to one value. -/
theorem Sets.unique {a key value key' value' : String} (h : Sets a key value)
    (h' : Sets a key' value') : key' = key ∧ value' = value := by
  have heq := (splitFirst?_of_sets h').symm.trans (splitFirst?_of_sets h)
  simpa [String.toList_inj] using heq

/-- Every argument is a name or sets a key. -/
theorem isBare_or_sets (a : String) : IsBare a ∨ ∃ key value, Sets a key value := by
  cases hsplit : Text.splitFirst? '=' a.toList with
  | none => exact .inl (Text.splitFirst?_eq_none_iff.1 hsplit)
  | some parts =>
    obtain ⟨key, value⟩ := parts
    refine .inr ⟨String.ofList key, String.ofList value, ?_⟩
    rw [Sets, String.toList_ofList, String.toList_ofList]
    exact Text.splitFirst?_eq_some_iff.1 hsplit

theorem Clashes.symm {a b : String} {error : UsageError} (h : Clashes a b error) :
    Clashes b a error := by
  cases h with
  | names ha hb => exact .names hb ha
  | keys ha hb => exact .keys hb ha

/-! ### One argument -/

/-- A reader with this name and these values refuses the argument. -/
inductive Refuses (name : Option String) (attrs : Attrs) (a : String) : UsageError → Prop
  | name : name ≠ none → IsBare a → Refuses name attrs a .repeatedName
  | key {key value : String} : attrs.get? key ≠ none → Sets a key value →
      Refuses name attrs a (.repeatedAttr key)

/-- What a reader does that takes an argument: it has the name or the value of the argument from
now on, and refuses what clashes with it. -/
structure Takes (name : Option String) (attrs : Attrs) (a : String) (name' : Option String)
    (attrs' : Attrs) : Prop where
  free : ∀ error, ¬ Refuses name attrs a error
  refuses : ∀ b error, Refuses name' attrs' b error ↔ Refuses name attrs b error ∨ Clashes a b error
  named : IsBare a → name' = some a
  kept : ¬ IsBare a → name' = name
  get? : ∀ key value, attrs'.get? key = some value ↔ attrs.get? key = some value ∨ Sets a key value

section Reading

variable {name name' : Option String} {attrs attrs' : Attrs} {a : String}

theorem takes_bare (ha : IsBare a) (hname : name = none) : Takes name attrs a (some a) attrs where
  free := by
    rintro error (⟨hne, -⟩ | ⟨-, hsets⟩)
    · exact hne hname
    · exact hsets.not_isBare ha
  refuses := by
    intro b error
    constructor
    · rintro (⟨-, hb⟩ | ⟨hget, hb⟩)
      · exact .inr (.names ha hb)
      · exact .inl (.key hget hb)
    · rintro ((⟨hne, -⟩ | ⟨hget, hb⟩) | (⟨-, hb⟩ | ⟨hsets, -⟩))
      · exact absurd hname hne
      · exact .key hget hb
      · exact .name (by simp) hb
      · exact absurd ha hsets.not_isBare
  named := fun _ => rfl
  kept := fun h => absurd ha h
  get? := by
    intro key value
    constructor
    · exact .inl
    · rintro (hget | hsets)
      · exact hget
      · exact absurd ha hsets.not_isBare

theorem takes_sets {key value : String} (ha : Sets a key value) (hkey : attrs.get? key = none) :
    Takes name attrs a name (attrs.insert key value) where
  free := by
    rintro error (⟨-, hbare⟩ | ⟨hget, hsets⟩)
    · exact ha.not_isBare hbare
    · obtain ⟨rfl, -⟩ := ha.unique hsets
      exact hget hkey
  refuses := by
    intro b error
    constructor
    · rintro (⟨hne, hb⟩ | ⟨hget, hb⟩)
      · exact .inl (.name hne hb)
      · rename_i k v
        rw [Attrs.get?_insert] at hget
        -- Under the key of the argument there is a value now, under the others nothing has changed.
        by_cases hk : k = key
        · subst hk
          exact .inr (.keys ha hb)
        · rw [if_neg hk] at hget
          exact .inl (.key hget hb)
    · rintro ((⟨hne, hb⟩ | ⟨hget, hb⟩) | (⟨hbare, -⟩ | ⟨hsets, hb⟩))
      · exact .name hne hb
      · refine .key ?_ hb
        rw [Attrs.get?_insert]
        split
        · simp
        · exact hget
      · exact absurd hbare ha.not_isBare
      · obtain ⟨rfl, -⟩ := ha.unique hsets
        exact .key (by simp) hb
  named := fun h => absurd h ha.not_isBare
  kept := fun _ => rfl
  get? := by
    intro k v
    rw [Attrs.get?_insert]
    by_cases hk : k = key
    · subst hk
      rw [if_pos rfl, hkey]
      constructor
      · intro h
        cases h
        exact .inr ha
      · rintro (h | hsets)
        · cases h
        · rw [(ha.unique hsets).2]
    · rw [if_neg hk]
      constructor
      · exact .inl
      · rintro (h | hsets)
        · exact h
        · exact absurd (ha.unique hsets).1 hk

/-- An argument is refused, or it is taken and the others are read. -/
theorem readArguments_cons (name : Option String) (attrs : Attrs) (a : String)
    (rest : List String) :
    (∃ error, Refuses name attrs a error ∧ readArguments name attrs (a :: rest) = .error error)
      ∨ ∃ name' attrs', Takes name attrs a name' attrs'
        ∧ readArguments name attrs (a :: rest) = readArguments name' attrs' rest := by
  rcases isBare_or_sets a with ha | ⟨key, value, ha⟩
  · rw [readArguments, splitFirst?_of_isBare ha]
    cases name with
    | some n => exact .inl ⟨_, .name (by simp) ha, rfl⟩
    | none => exact .inr ⟨some a, attrs, takes_bare ha rfl, rfl⟩
  · rw [readArguments, splitFirst?_of_sets ha]
    simp only [String.ofList_toList]
    by_cases hkey : attrs.get? key = none
    · refine .inr ⟨name, attrs.insert key value, takes_sets ha hkey, ?_⟩
      rw [Attrs.contains_eq_false_iff.2 hkey]
      rfl
    · have hcontains : attrs.contains key = true := by
        rw [← Bool.not_eq_false, Attrs.contains_eq_false_iff]
        exact hkey
      exact .inl ⟨_, .key hkey ha, by rw [if_pos hcontains]⟩

/-! ### All arguments -/

/-- Where reading stops, an argument is refused from the start on or clashes with another one. -/
theorem exists_of_readArguments_error {arguments : List String} {error : UsageError}
    (h : readArguments name attrs arguments = .error error) :
    (∃ a ∈ arguments, Refuses name attrs a error)
      ∨ ∃ a b, [a, b].Sublist arguments ∧ Clashes a b error := by
  induction arguments generalizing name attrs with
  | nil => cases h
  | cons a rest ih =>
    rcases readArguments_cons name attrs a rest with ⟨error', hrefused, herror⟩
      | ⟨name', attrs', htakes, hread⟩
    · cases herror.symm.trans h
      exact .inl ⟨a, List.mem_cons_self, hrefused⟩
    · rcases ih (hread.symm.trans h) with ⟨b, hb, hrefused⟩ | ⟨b, c, hsub, hclash⟩
      · -- What the later reader refuses was refused before or clashes with the first argument.
        rcases (htakes.refuses b error).1 hrefused with hbefore | hclash
        · exact .inl ⟨b, List.mem_cons_of_mem a hb, hbefore⟩
        · exact .inr ⟨a, b, (List.singleton_sublist.2 hb).cons_cons a, hclash⟩
      · exact .inr ⟨b, c, hsub.cons a, hclash⟩

/-- What a reader has read that got to the end of the arguments. -/
structure Reads (name : Option String) (attrs : Attrs) (arguments : List String)
    (name' : Option String) (attrs' : Attrs) : Prop where
  free : ∀ a ∈ arguments, ∀ error, ¬ Refuses name attrs a error
  apart : arguments.Pairwise fun a b => ∀ error, ¬ Clashes a b error
  named : ∀ a ∈ arguments, IsBare a → name' = some a
  unnamed : (∀ a ∈ arguments, ¬ IsBare a) → name' = name
  get? : ∀ key value, attrs'.get? key = some value ↔
    attrs.get? key = some value ∨ ∃ a ∈ arguments, Sets a key value

theorem Takes.reads {rest : List String} {name'' : Option String} {attrs'' : Attrs}
    (h : Takes name attrs a name' attrs') (hrest : Reads name' attrs' rest name'' attrs'') :
    Reads name attrs (a :: rest) name'' attrs'' where
  free := by
    intro b hb error hrefused
    rcases List.mem_cons.1 hb with rfl | hb
    · exact h.free error hrefused
    · exact hrest.free b hb error ((h.refuses b error).2 (.inl hrefused))
  apart := by
    refine List.pairwise_cons.2 ⟨?_, hrest.apart⟩
    intro b hb error hclash
    exact hrest.free b hb error ((h.refuses b error).2 (.inr hclash))
  named := by
    intro b hb hbare
    rcases List.mem_cons.1 hb with rfl | hb
    · -- No other argument is a name, so the name stays.
      have hothers : ∀ c ∈ rest, ¬ IsBare c := by
        intro c hc hcbare
        exact hrest.free c hc _ ((h.refuses c _).2 (.inr (.names hbare hcbare)))
      rw [hrest.unnamed hothers, h.named hbare]
    · exact hrest.named b hb hbare
  unnamed := by
    intro hnone
    rw [hrest.unnamed fun b hb => hnone b (List.mem_cons_of_mem a hb),
      h.kept (hnone a List.mem_cons_self)]
  get? := by
    intro key value
    rw [hrest.get?, h.get?, List.exists_mem_cons_iff, or_assoc]

theorem reads_of_readArguments {arguments : List String}
    (h : readArguments name attrs arguments = .ok (name', attrs')) :
    Reads name attrs arguments name' attrs' := by
  induction arguments generalizing name attrs with
  | nil =>
    cases h
    exact ⟨by simp, .nil, by simp, fun _ => rfl, by simp⟩
  | cons a rest ih =>
    rcases readArguments_cons name attrs a rest with ⟨error, -, herror⟩
      | ⟨name'', attrs'', htakes, hread⟩
    · cases herror.symm.trans h
    · exact htakes.reads (ih (hread.symm.trans h))

end Reading

/-! ### Flags and arguments -/

section Entry

variable {glob regexp : Bool} {arguments arguments' : List String} {e : Entry}

theorem get?_kindAttrs {key value : String} :
    (kindAttrs glob regexp).get? key = some value ↔
      (glob = true ∨ regexp = true) ∧ key = Entry.searchKey
        ∧ value = (kindOf glob regexp).name := by
  cases glob <;> cases regexp <;>
    simp [kindAttrs, kindOf, Attrs.get?_insert, eq_comm]

theorem entry_of_flags (h : glob = true ∧ regexp = true) :
    entry glob regexp arguments = .error .conflictingKinds := by
  rw [entry, h.1, h.2]
  rfl

/-- Without a conflict of the flags, the query has what is read, and exact patterns if nothing
else was asked for. -/
theorem entry_of_read (h : ¬ (glob = true ∧ regexp = true)) :
    entry glob regexp arguments
      = (readArguments none (kindAttrs glob regexp) arguments).map fun (name, attrs) =>
          ⟨name.getD "",
            if attrs.contains Entry.searchKey then attrs
            else attrs.insert Entry.searchKey PatternKind.exact.name,
            ⟨"", 0, 0, 0⟩⟩ := by
  rw [entry, if_neg (by simpa using h)]
  show (readArguments none (kindAttrs glob regexp) arguments >>= _) = _
  cases readArguments none (kindAttrs glob regexp) arguments with
  | error error => rfl
  | ok p => rfl

/-- The start of the reader refuses only the key of the flags. -/
theorem refuses_start_iff {a : String} {error : UsageError} :
    Refuses none (kindAttrs glob regexp) a error ↔
      error = .repeatedAttr Entry.searchKey ∧ (glob = true ∨ regexp = true)
        ∧ ∃ value, Sets a Entry.searchKey value := by
  constructor
  · rintro (⟨hne, -⟩ | ⟨hget, hsets⟩)
    · exact absurd rfl hne
    · obtain ⟨v, hv⟩ := Option.ne_none_iff_exists'.1 hget
      obtain ⟨hflag, rfl, -⟩ := get?_kindAttrs.1 hv
      exact ⟨rfl, hflag, _, hsets⟩
  · rintro ⟨rfl, hflag, value, hsets⟩
    refine .key ?_ hsets
    rw [get?_kindAttrs.2 ⟨hflag, rfl, rfl⟩]
    simp

/-- What is reported is wrong. -/
theorem fault_of_entry {error : UsageError} (h : entry glob regexp arguments = .error error) :
    Fault glob regexp arguments error := by
  by_cases hflags : glob = true ∧ regexp = true
  · cases (entry_of_flags hflags).symm.trans h
    exact .flags hflags.1 hflags.2
  · rw [entry_of_read hflags] at h
    cases hread : readArguments none (kindAttrs glob regexp) arguments with
    | ok p =>
      rw [hread] at h
      cases h
    | error error' =>
      rw [hread] at h
      cases h
      rcases exists_of_readArguments_error hread with ⟨a, ha, hrefused⟩ | ⟨a, b, hsub, hclash⟩
      · obtain ⟨rfl, hflag, value, hsets⟩ := refuses_start_iff.1 hrefused
        exact .kind hflag ha hsets
      · exact .pair hsub.subperm hclash

/-- Where a query is answered, all arguments were read. -/
theorem exists_reads_of_entry (h : entry glob regexp arguments = .ok e) :
    ¬ (glob = true ∧ regexp = true) ∧ ∃ name attrs,
      Reads none (kindAttrs glob regexp) arguments name attrs
        ∧ e = ⟨name.getD "",
            if attrs.contains Entry.searchKey then attrs
            else attrs.insert Entry.searchKey PatternKind.exact.name, ⟨"", 0, 0, 0⟩⟩ := by
  have hflags : ¬ (glob = true ∧ regexp = true) := by
    intro hflags
    cases (entry_of_flags hflags).symm.trans h
  rw [entry_of_read hflags] at h
  obtain ⟨⟨name, attrs⟩, hread, rfl⟩ := map_eq_ok_iff.1 h
  exact ⟨hflags, name, attrs, reads_of_readArguments hread, rfl⟩

/-- Where a query is answered, nothing is wrong. -/
theorem not_fault_of_entry (h : entry glob regexp arguments = .ok e) (error : UsageError) :
    ¬ Fault glob regexp arguments error := by
  obtain ⟨hflags, name, attrs, hreads, -⟩ := exists_reads_of_entry h
  intro hfault
  cases hfault with
  | flags hglob hregexp => exact hflags ⟨hglob, hregexp⟩
  | kind hflag ha hsets =>
    exact hreads.free _ ha _ (refuses_start_iff.2 ⟨rfl, hflag, _, hsets⟩)
  | @pair a b _ hsub hclash =>
    -- The two stand among the arguments in one of the two orders.
    obtain ⟨ab, hperm, hsub⟩ := hsub
    have hsymm : ∀ {c d : String}, (∀ error, ¬ Clashes c d error) → ∀ error, ¬ Clashes d c error :=
      fun h error hdc => h error hdc.symm
    have hapart := (hperm.pairwise_iff hsymm).1 (hreads.apart.sublist hsub)
    exact List.rel_of_pairwise_cons hapart List.mem_cons_self _ hclash

theorem get?_completed {attrs : Attrs} {key value : String} :
    (if attrs.contains Entry.searchKey then attrs
        else attrs.insert Entry.searchKey PatternKind.exact.name).get? key = some value ↔
      attrs.get? key = some value
        ∨ key = Entry.searchKey ∧ value = PatternKind.exact.name
          ∧ ∀ v, ¬ attrs.get? Entry.searchKey = some v := by
  cases hsearch : attrs.get? Entry.searchKey with
  | some v =>
    rw [Attrs.contains, hsearch]
    simp
  | none =>
    rw [Attrs.contains_eq_false_iff.2 hsearch, if_neg Bool.false_ne_true, Attrs.get?_insert]
    by_cases hkey : key = Entry.searchKey
    · subst hkey
      simp [hsearch, eq_comm]
    · simp [hkey]

/-- The answer is the query that the flags and arguments stand for. -/
theorem isAnswer_of_entry (h : entry glob regexp arguments = .ok e) :
    IsAnswer glob regexp arguments e := by
  obtain ⟨hflags, name, attrs, hreads, rfl⟩ := exists_reads_of_entry h
  refine ⟨?_, ?_, ?_, rfl⟩
  · intro a ha hbare
    rw [hreads.named a ha hbare]
    rfl
  · intro hnone
    rw [hreads.unnamed hnone]
    rfl
  · intro key value
    rw [get?_completed]
    simp only [hreads.get?, get?_kindAttrs]
    -- The key `search` is set by a flag, by an argument or by neither.
    by_cases hflag : glob = true ∨ regexp = true
    · -- The flag has set the key, so no argument does.
      have hfree : ∀ a ∈ arguments, ∀ v, ¬ Sets a Entry.searchKey v := by
        intro a ha v hsets
        exact hreads.free a ha _ (refuses_start_iff.2 ⟨rfl, hflag, v, hsets⟩)
      constructor
      · rintro ((⟨-, hkey, hvalue⟩ | hsets) | ⟨-, -, hnone⟩)
        · exact .inr ⟨hkey, hvalue, hfree⟩
        · exact .inl hsets
        · exact absurd (.inl ⟨hflag, trivial, rfl⟩) (hnone _)
      · rintro (hsets | ⟨hkey, hvalue, -⟩)
        · exact .inl (.inr hsets)
        · exact .inl (.inl ⟨hflag, hkey, hvalue⟩)
    · have hexact : kindOf glob regexp = .exact := by
        rw [not_or] at hflag
        rw [kindOf, if_neg hflag.1, if_neg hflag.2]
      rw [hexact]
      constructor
      · rintro ((⟨h, -⟩ | hsets) | ⟨hkey, hvalue, hnone⟩)
        · exact absurd h hflag
        · exact .inl hsets
        · exact .inr ⟨hkey, hvalue, fun a ha v hsets => hnone v (.inr ⟨a, ha, hsets⟩)⟩
      · rintro (hsets | ⟨hkey, hvalue, hnone⟩)
        · exact .inl (.inr hsets)
        · refine .inr ⟨hkey, hvalue, ?_⟩
          rintro v (⟨h, -⟩ | ⟨a, ha, hsets⟩)
          · exact hflag h
          · exact hnone a ha v hsets

theorem IsAnswer.unique {e' : Entry} (h : IsAnswer glob regexp arguments e)
    (h' : IsAnswer glob regexp arguments e') : e = e' := by
  have hname : e.name = e'.name := by
    by_cases hnone : ∀ a ∈ arguments, ¬ IsBare a
    · rw [h.unnamed hnone, h'.unnamed hnone]
    · push Not at hnone
      obtain ⟨a, ha, hbare⟩ := hnone
      rw [h.named a ha hbare, h'.named a ha hbare]
  have hattrs : e.attrs = e'.attrs := by
    apply Attrs.ext_get?
    intro key
    apply Option.ext
    intro value
    show e.attrs.get? key = some value ↔ e'.attrs.get? key = some value
    rw [h.get?, h'.get?]
  have hloc : e.loc = e'.loc := h.loc.trans h'.loc.symm
  cases e
  cases e'
  cases hname
  cases hattrs
  cases hloc
  rfl

/-! ### Order -/

theorem Fault.perm {error : UsageError} (h : Fault glob regexp arguments error)
    (hperm : arguments.Perm arguments') : Fault glob regexp arguments' error := by
  cases h with
  | flags hglob hregexp => exact .flags hglob hregexp
  | kind hflag ha hsets => exact .kind hflag (hperm.mem_iff.1 ha) hsets
  | pair hsub hclash => exact .pair (hperm.subperm_left.1 hsub) hclash

theorem IsAnswer.perm (h : IsAnswer glob regexp arguments e) (hperm : arguments.Perm arguments') :
    IsAnswer glob regexp arguments' e := by
  obtain ⟨hnamed, hunnamed, hget, hloc⟩ := h
  simp only [hperm.mem_iff] at hnamed hunnamed hget
  exact ⟨hnamed, hunnamed, hget, hloc⟩

theorem exists_error_iff_fault :
    (∃ error, entry glob regexp arguments = .error error) ↔
      ∃ error, Fault glob regexp arguments error := by
  constructor
  · rintro ⟨error, herror⟩
    exact ⟨error, fault_of_entry herror⟩
  · rintro ⟨error, hfault⟩
    cases hentry : entry glob regexp arguments with
    | error error' => exact ⟨error', rfl⟩
    | ok e => exact absurd hfault (not_fault_of_entry hentry error)

theorem exists_answer (h : ¬ ∃ error, Fault glob regexp arguments error) :
    ∃ e, entry glob regexp arguments = .ok e ∧ IsAnswer glob regexp arguments e := by
  cases hentry : entry glob regexp arguments with
  | error error => exact absurd (exists_error_iff_fault.1 ⟨error, hentry⟩) h
  | ok e => exact ⟨e, rfl, isAnswer_of_entry hentry⟩

/-- **The query of a search does not depend on the order of its arguments**: there is none exactly
if the flags or two of the arguments exclude each other, or a flag and the key `search` of an
argument; otherwise it has the one name and all the values that are given. In another order the
arguments stand for the same query, or for none there either; what is reported of them then may
differ if more than one thing is wrong, and is wrong in both orders. -/
theorem entry_unordered (glob regexp : Bool) (arguments : List String) :
    ((∃ error, entry glob regexp arguments = .error error) ↔
        ∃ error, Fault glob regexp arguments error)
      ∧ (∀ error, entry glob regexp arguments = .error error →
          Fault glob regexp arguments error)
      ∧ ((¬ ∃ error, Fault glob regexp arguments error) →
          ∃ e, entry glob regexp arguments = .ok e ∧ IsAnswer glob regexp arguments e)
      ∧ ∀ arguments', arguments.Perm arguments' →
          (∃ error error', entry glob regexp arguments = .error error
              ∧ entry glob regexp arguments' = .error error'
              ∧ Fault glob regexp arguments error' ∧ Fault glob regexp arguments' error)
            ∨ ∃ e, entry glob regexp arguments = .ok e ∧ entry glob regexp arguments' = .ok e := by
  refine ⟨exists_error_iff_fault, fun _ => fault_of_entry, exists_answer, ?_⟩
  intro arguments' hperm
  cases hentry : entry glob regexp arguments with
  | error error =>
    -- What is wrong is so in any order, but the other order may come upon something else first.
    have hfault := (fault_of_entry hentry).perm hperm
    obtain ⟨error', herror'⟩ := exists_error_iff_fault.2 ⟨error, hfault⟩
    exact .inl ⟨error, error', rfl, herror', (fault_of_entry herror').perm hperm.symm, hfault⟩
  | ok e =>
    have hclear : ¬ ∃ error, Fault glob regexp arguments' error := by
      rintro ⟨error, hfault⟩
      exact not_fault_of_entry hentry error (hfault.perm hperm.symm)
    obtain ⟨e', hentry', hanswer'⟩ := exists_answer hclear
    cases ((isAnswer_of_entry hentry).perm hperm).unique hanswer'
    exact .inr ⟨e, rfl, hentry'⟩

theorem entry_unordered_byRegexp :
    ["^m", "who=zumi=", "search=regexp"].Perm ["search=regexp", "^m", "who=zumi="]
      ∧ ∃ e, entry false false ["^m", "who=zumi=", "search=regexp"] = .ok e
        ∧ entry false false ["search=regexp", "^m", "who=zumi="] = .ok e
        ∧ e.name = "^m" ∧ e.attrs.get? "who" = some "zumi=" := by
  have hperm : ["^m", "who=zumi=", "search=regexp"].Perm ["search=regexp", "^m", "who=zumi="] := by
    decide
  have hentry : entry false false ["^m", "who=zumi=", "search=regexp"]
      = .ok ⟨"^m", Attrs.ofList [("who", "zumi="), ("search", "regexp")], ⟨"", 0, 0, 0⟩⟩ := by
    rfl
  refine ⟨hperm, ?_⟩
  rcases (entry_unordered false false _).2.2.2 _ hperm with ⟨error, -, herror, -⟩ | ⟨e, he, he'⟩
  · cases hentry.symm.trans herror
  · cases hentry.symm.trans he
    exact ⟨_, hentry, he', rfl, rfl⟩

end Entry

end CrossTag.Search
