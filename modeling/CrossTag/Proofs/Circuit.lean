import Mathlib.Data.List.Chain
import Mathlib.Data.List.Nodup
import CrossTag.Proofs.Resolve

/-!
# Going round

Where every entry found leads to the same list of entries again, navigation can go on from each
entry that it finds, and cyclic navigation goes round in that list. A step is one of two kinds:

    a, b next to each other in the list      next leads from `a` to `b`, prev from `b` to `a`
    a the last and b the first of it         the same, if navigation is cyclic

Both kinds make up the relation `Follows`. Going on and going back are the two directions of it
(`Circuit.leads_next`, `Circuit.leads_prev`), so each undoes the other; and a way along it is the
way that navigation takes (`journey_of_isChain`), so a whole round is read off the list.
-/

namespace CrossTag.Index

variable {index : Index} {found before after : List Entry} {a b e : Entry}

/-! ### Journeys -/

/-- Resolving `a` leads to `b` and to nothing else. -/
def Leads (index : Index) (options : ResolveOptions) (a b : Entry) : Prop :=
  index.resolve a options = .ok ⟨[b], []⟩

/-- The entries that navigation comes to in `n` steps, each of which starts at the entry that the
step before has found. It ends where nothing is found. -/
def journey (index : Index) (options : ResolveOptions) :
    (n : Nat) → Entry → Except ResolveError (List Entry)
  | 0, _ => .ok []
  | n + 1, e => do
    let resolution ← index.resolve e options
    match resolution.entries with
    | [] => return []
    | next :: _ => return next :: (← journey index options n next)

theorem journey_of_leads {options : ResolveOptions} {visited : List Entry} {n : Nat}
    (hstep : index.Leads options a b) (hrest : index.journey options n b = .ok visited) :
    index.journey options (n + 1) a = .ok (b :: visited) := by
  simp only [journey, show index.resolve a options = .ok ⟨[b], []⟩ from hstep]
  show (index.journey options n b >>= fun visited => .ok (b :: visited)) = _
  rw [hrest]
  rfl

theorem journey_of_empty {options : ResolveOptions}
    (hstop : index.resolve a options = .ok ⟨[], []⟩) (n : Nat) :
    index.journey options n a = .ok [] := by
  cases n with
  | zero => rfl
  | succ n =>
    simp only [journey, hstop]
    rfl

/-- Where each entry of a way leads to the next, navigation takes that way. It takes it to the end,
and goes no further if the last entry leads nowhere. -/
theorem journey_of_isChain {options : ResolveOptions} {way : List Entry} {n : Nat}
    (hway : List.IsChain (index.Leads options) (a :: way))
    (hend : n ≤ way.length
      ∨ ∀ last ∈ (a :: way).getLast?, index.resolve last options = .ok ⟨[], []⟩) :
    index.journey options n a = .ok (way.take n) := by
  induction way generalizing a n with
  | nil =>
    rcases hend with hn | hstop
    · obtain rfl : n = 0 := by simpa using hn
      rfl
    · simpa using journey_of_empty (hstop a rfl) n
  | cons b way ih =>
    obtain ⟨hstep, hway⟩ := List.isChain_cons_cons.1 hway
    cases n with
    | zero => rfl
    | succ n =>
      refine journey_of_leads hstep (ih hway ?_)
      rcases hend with hn | hstop
      · exact .inl (by simpa using hn)
      · exact .inr (by simpa using hstop)

/-! ### Circuits -/

/-- Entries at places of their own, none of them a query, each of which refers to all of them and
to nothing else. -/
structure Circuit (index : Index) (found : List Entry) : Prop where
  ne_nil : found ≠ []
  concrete : ∀ e ∈ found, e.isSearch = false
  apart : (found.map (·.loc)).Nodup
  closed : ∀ e ∈ found, index.resolve e {} = .ok ⟨found, []⟩

/-- `b` comes after `a` in the list, which goes on from its end at its front. -/
def Follows (found : List Entry) (a b : Entry) : Prop :=
  (∃ before after, found = before ++ a :: b :: after)
    ∨ found.getLast? = some a ∧ found.head? = some b

namespace Circuit

theorem referents_eq (h : index.Circuit found) (he : e ∈ found) : index.referents e = found := by
  have hmode : ResolveOptions.mode {} = .ok .all := rfl
  have hresolve : Except.ok ⟨index.referents e, []⟩ = index.resolve e {} :=
    (resolve_of_concrete (h.concrete e he) hmode).symm
  rw [h.closed e he] at hresolve
  exact congrArg Resolution.entries (Except.ok.inj hresolve)

theorem canonical (h : index.Circuit found) :
    found.Pairwise fun a b => Entry.canonicalLe a b = true := by
  obtain ⟨e, he⟩ := List.exists_mem_of_ne_nil found h.ne_nil
  rw [← h.referents_eq he]
  exact referents_canonical index e

theorem nodup (h : index.Circuit found) : found.Nodup :=
  List.Nodup.of_map _ h.apart

/-- One step from an entry leads to the one listed next to it, or off the end. -/
theorem resolve_eq (h : index.Circuit found) (hsplit : found = before ++ e :: after)
    {options : ResolveOptions} {mode : Mode} (hmode : options.mode = .ok mode)
    (hne : mode ≠ .all) :
    index.resolve e options
      = .ok ⟨match beside? before after mode with
          | some x => [x]
          | none => offEnd found mode options.cyclic, []⟩ := by
  have he : e ∈ found := by simp [hsplit]
  have hothers : ∀ x ∈ before ++ after, x.loc ≠ e.loc := by
    have hapart := h.apart
    rw [hsplit, List.map_append, List.map_cons, List.nodup_middle, ← List.map_append,
      List.nodup_cons] at hapart
    intro x hx heq
    exact hapart.1 (heq ▸ List.mem_map_of_mem hx)
  have hbefore : ∀ x ∈ before, x.loc ≠ e.loc := fun x hx => hothers x (List.mem_append_left _ hx)
  have hafter : ∀ x ∈ after, x.loc ≠ e.loc := fun x hx => hothers x (List.mem_append_right _ hx)
  rw [resolve_of_concrete (h.concrete e he) hmode, h.referents_eq he, hsplit,
    navigate_of_split hne options.cyclic rfl hbefore hafter]
  rfl

/-! ### Steps -/

theorem resolve_next (h : index.Circuit found) (hsplit : found = before ++ e :: after)
    (cyclic : Bool) :
    index.resolve e { next := true, cyclic := cyclic }
      = .ok ⟨match after.head? with
          | some x => [x]
          | none => offEnd found .next cyclic, []⟩ := by
  have hmode : ResolveOptions.mode { next := true, cyclic := cyclic } = .ok .next := rfl
  exact h.resolve_eq hsplit hmode (by decide)

theorem resolve_prev (h : index.Circuit found) (hsplit : found = before ++ e :: after)
    (cyclic : Bool) :
    index.resolve e { prev := true, cyclic := cyclic }
      = .ok ⟨match before.getLast? with
          | some x => [x]
          | none => offEnd found .prev cyclic, []⟩ := by
  have hmode : ResolveOptions.mode { prev := true, cyclic := cyclic } = .ok .prev := rfl
  exact h.resolve_eq hsplit hmode (by decide)

/-- Going on leads from an entry to the one listed behind it. -/
theorem leads_next_of_split (h : index.Circuit found) (hsplit : found = before ++ a :: b :: after)
    (cyclic : Bool) : index.Leads { next := true, cyclic := cyclic } a b :=
  h.resolve_next hsplit cyclic

/-- From the last entry there is nothing to go on to but the far end. -/
theorem resolve_last (h : index.Circuit found) (hlast : found.getLast? = some a) (cyclic : Bool) :
    index.resolve a { next := true, cyclic := cyclic }
      = .ok ⟨offEnd found .next cyclic, []⟩ := by
  obtain ⟨front, hsplit⟩ := List.getLast?_eq_some_iff.1 hlast
  exact h.resolve_next hsplit cyclic

/-- Going on leads to the entry that follows, in the end the first. -/
theorem leads_next (h : index.Circuit found) (hab : Follows found a b) :
    index.Leads { next := true, cyclic := true } a b := by
  rcases hab with ⟨before, after, hsplit⟩ | ⟨hlast, hfirst⟩
  · exact h.leads_next_of_split hsplit true
  · show index.resolve a _ = _
    rw [h.resolve_last hlast true]
    simp [offEnd, farEnd?, hfirst]

/-- Going back leads to the entry that is followed, at the front the last. -/
theorem leads_prev (h : index.Circuit found) (hab : Follows found a b) :
    index.Leads { prev := true, cyclic := true } b a := by
  show index.resolve b _ = _
  rcases hab with ⟨before, after, hsplit⟩ | ⟨hlast, hfirst⟩
  · have hsplit' : found = (before ++ [a]) ++ b :: after := by simp [hsplit]
    rw [h.resolve_prev hsplit' true]
    simp
  · obtain ⟨rest, hsplit⟩ := List.head?_eq_some_iff.1 hfirst
    have hsplit' : found = [] ++ b :: rest := hsplit
    rw [h.resolve_prev hsplit' true]
    simp [offEnd, farEnd?, hlast]

end Circuit

/-! ### Rounds -/

/-- Every entry of a list is followed by one of them. -/
theorem exists_follows (ha : a ∈ found) : ∃ b ∈ found, Follows found a b := by
  obtain ⟨before, after, rfl⟩ := List.append_of_mem ha
  cases after with
  | cons b after => exact ⟨b, by simp, .inl ⟨before, after, rfl⟩⟩
  | nil =>
    -- `a` is the last.
    obtain ⟨b, hb⟩ : ∃ b, (before ++ [a]).head? = some b := by
      cases before with
      | nil => exact ⟨a, rfl⟩
      | cons b before => exact ⟨b, rfl⟩
    exact ⟨b, List.mem_of_head? hb, .inr ⟨by simp, hb⟩⟩

/-- Every entry of a list follows one of them. -/
theorem exists_followed (hb : b ∈ found) : ∃ a ∈ found, Follows found a b := by
  obtain ⟨before, after, rfl⟩ := List.append_of_mem hb
  rcases List.eq_nil_or_concat before with rfl | ⟨before, a, rfl⟩
  · -- `b` is the first.
    obtain ⟨a, ha⟩ : ∃ a, (b :: after).getLast? = some a := ⟨_, List.getLast?_cons⟩
    exact ⟨a, List.mem_of_getLast? ha, .inr ⟨ha, rfl⟩⟩
  · exact ⟨a, by simp, .inl ⟨before, after, by simp⟩⟩

/-- From any entry of a list, the way round is through what is behind it, then through what is in
front of it, and so back to it. -/
theorem isChain_round (hsplit : found = before ++ e :: after) :
    List.IsChain (Follows found) (e :: (after ++ before ++ [e])) := by
  have hpart : ∀ {front part back : List Entry}, found = front ++ part ++ back →
      List.IsChain (Follows found) part := by
    intro front part back hfound
    apply List.isChain_iff_forall_rel_of_append_cons_cons.2
    rintro a b before after rfl
    exact .inl ⟨front ++ before, after ++ back, by simp [hfound]⟩
  have hbehind : List.IsChain (Follows found) (e :: after) :=
    hpart (show found = before ++ (e :: after) ++ [] by simp [hsplit])
  have hfront : List.IsChain (Follows found) (before ++ [e]) :=
    hpart (show found = [] ++ (before ++ [e]) ++ after by simp [hsplit])
  rw [List.append_assoc, ← List.cons_append]
  -- The two parts of the list are joined at its ends.
  apply hbehind.append hfront
  intro a ha b hb
  refine .inr ⟨?_, ?_⟩
  · rw [hsplit, List.getLast?_append_of_ne_nil _ (by simp)]
    exact ha
  · rw [hsplit]
    cases before with
    | nil => exact hb
    | cons x before => exact hb

/-- **Cyclic navigation visits every entry of a circuit once.** From any entry, as many steps as
there are entries lead through those behind it and then through those in front of it, in their
order, and back to where it started, which is passed by no earlier step. Going back undoes going on
and the other way round. Navigation that is not cyclic leads from the first entry through all
others and ends there. -/
theorem journey_circuit (h : index.Circuit found) :
    found.Pairwise (fun a b => Entry.canonicalLe a b = true)
      ∧ (∀ before e after, found = before ++ e :: after →
          index.journey { next := true, cyclic := true } found.length e
              = .ok (after ++ before ++ [e])
            ∧ (after ++ before ++ [e]).Perm found ∧ (after ++ before ++ [e]).Nodup)
      ∧ (∀ e ∈ found,
          (∃ ahead ∈ found, index.Leads { next := true, cyclic := true } e ahead
            ∧ index.Leads { prev := true, cyclic := true } ahead e)
          ∧ ∃ back ∈ found, index.Leads { prev := true, cyclic := true } e back
            ∧ index.Leads { next := true, cyclic := true } back e)
      ∧ ∀ first rest, found = first :: rest →
          (∀ n, index.journey { next := true } n first = .ok (rest.take n))
            ∧ ∀ last, found.getLast? = some last →
                index.resolve last { next := true } = .ok ⟨[], []⟩ := by
  have hend : ∀ last, found.getLast? = some last →
      index.resolve last { next := true } = .ok ⟨[], []⟩ := by
    intro last hlast
    exact h.resolve_last hlast false
  refine ⟨h.canonical, ?_, ?_, ?_⟩
  · intro before e after hsplit
    have hperm : (after ++ before ++ [e]).Perm found := by
      rw [hsplit, List.append_assoc]
      exact List.perm_append_comm.trans (by simp)
    refine ⟨?_, hperm, hperm.nodup_iff.2 h.nodup⟩
    have hlength : found.length = (after ++ before ++ [e]).length := hperm.length_eq.symm
    have hway := (isChain_round hsplit).imp fun a b hab => h.leads_next hab
    rw [hlength, journey_of_isChain hway (.inl (Nat.le_refl _)), List.take_length]
  · intro e he
    obtain ⟨ahead, hahead, hfollows⟩ := exists_follows he
    obtain ⟨back, hback, hfollowed⟩ := exists_followed he
    exact ⟨⟨ahead, hahead, h.leads_next hfollows, h.leads_prev hfollows⟩,
      back, hback, h.leads_prev hfollowed, h.leads_next hfollowed⟩
  · intro first rest hsplit
    refine ⟨fun n => ?_, hend⟩
    have hway : List.IsChain (index.Leads { next := true }) (first :: rest) :=
      List.isChain_iff_forall_rel_of_append_cons_cons.2
        fun a b before after heq => h.leads_next_of_split (hsplit.trans heq) false
    exact journey_of_isChain hway (.inr (hsplit ▸ hend))

/-! ### Entries without scopes -/

/-- The entries of one name, if none of them is scoped or a query and their places differ, make up
a circuit. -/
theorem circuit_of_unscoped (index : Index) (name : String)
    (hplain : ∀ e ∈ index.entries, e.name = name → e.scope = "" ∧ e.isSearch = false)
    (hne : index.entries.filter (·.name == name) ≠ [])
    (hapart : ((index.entries.filter (·.name == name)).map (·.loc)).Nodup) :
    index.Circuit (index.entries.filter (·.name == name)) := by
  have hmem : ∀ e ∈ index.entries.filter (·.name == name),
      e ∈ index.entries ∧ e.name = name := by
    intro e he
    simpa using he
  refine ⟨hne, ?_, hapart, ?_⟩
  · intro e he
    obtain ⟨hin, hname⟩ := hmem e he
    exact (hplain e hin hname).2
  · intro e he
    obtain ⟨hin, hname⟩ := hmem e he
    have hmode : ResolveOptions.mode {} = .ok .all := rfl
    have hsees : index.referents e = index.entries.filter (·.name == name) := by
      apply List.filter_congr
      intro x hx
      -- An entry of the name is seen from everywhere, and `e` looks everywhere.
      by_cases hxname : x.name = name
      · have hrefers : x.isReferredBy e = true := by
          simp [Entry.isReferredBy, (hplain x hx hxname).1, (hplain e hin hname).1]
        simp [hrefers, hname]
      · simp [hxname, hname]
    rw [resolve_of_concrete (hplain e hin hname).2 hmode, hsees]
    rfl

/-- Three tags of one name between tags of other names. -/
def threeMeows : Index where
  entries := [⟨"kitten", .empty, ⟨"a.rs", 9, 1, 10⟩⟩, meowAt "a.rs" 1, meowAt "a.rs" 2,
    meowAt "b.rs" 1, ⟨"purr", Attrs.empty.insert Entry.scopeKey "b.rs", ⟨"b.rs", 2, 1, 10⟩⟩]
  sorted := by decide

theorem journey_circuit_threeMeows :
    threeMeows.Circuit [meowAt "a.rs" 1, meowAt "a.rs" 2, meowAt "b.rs" 1]
      ∧ threeMeows.journey { next := true, cyclic := true } 3 (meowAt "a.rs" 2)
        = .ok [meowAt "b.rs" 1, meowAt "a.rs" 1, meowAt "a.rs" 2]
      ∧ threeMeows.journey { next := true } 9 (meowAt "a.rs" 1)
        = .ok [meowAt "a.rs" 2, meowAt "b.rs" 1] := by
  have hcircuit : threeMeows.Circuit [meowAt "a.rs" 1, meowAt "a.rs" 2, meowAt "b.rs" 1] :=
    circuit_of_unscoped threeMeows "meow" (by decide) (by decide) (by decide)
  obtain ⟨-, hround, -, hahead⟩ := journey_circuit hcircuit
  obtain ⟨hjourney, -, -⟩ := hround [meowAt "a.rs" 1] (meowAt "a.rs" 2) [meowAt "b.rs" 1] rfl
  obtain ⟨hway, -⟩ := hahead (meowAt "a.rs" 1) [meowAt "a.rs" 2, meowAt "b.rs" 1] rfl
  exact ⟨hcircuit, hjourney, hway 9⟩

end CrossTag.Index
