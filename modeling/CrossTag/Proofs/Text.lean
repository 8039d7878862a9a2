import CrossTag.Text.Blank
import CrossTag.Text.Cut

/-!
# Laws of cutting and trimming

The two cuts at a character are determined by what they promise: `splitFirst?` answers the
parts around the one occurrence that has none before it, `splitLast?` those around the one that
has none after it, and both answer `none` only for a text without the character. Readers that
divide a text at a delimiter are compared with their printers through these equivalences. The cut
at a delimiter of several characters answers the parts around the first occurrence, and `none` only
if there is none.

Trimming leaves a text alone if neither of its ends is blank, and it never reaches past a
character that is not blank. A written line is put together from texts that are tight in this
sense, and is tight itself.
-/

namespace CrossTag.Text

/-! ### Cuts at a character -/

theorem splitFirst?_eq_some_iff {sep : Char} {cs before after : List Char} :
    splitFirst? sep cs = some (before, after) ↔ cs = before ++ sep :: after ∧ sep ∉ before := by
  induction cs generalizing before with
  | nil => simp [splitFirst?]
  | cons c cs ih =>
    by_cases hc : c = sep
    · subst hc
      simp only [splitFirst?, if_true, Option.some.injEq, Prod.mk.injEq]
      constructor
      · rintro ⟨rfl, rfl⟩
        simp
      · rintro ⟨heq, hnot⟩
        cases before with
        | nil => simpa using heq
        | cons b before =>
          have hb : c = b := (List.cons.inj heq).1
          exact absurd (hb ▸ List.mem_cons_self) hnot
    · simp only [splitFirst?, hc, if_false, Option.map_eq_some_iff, Prod.exists, Prod.mk.injEq]
      constructor
      · rintro ⟨b, a, hcut, rfl, rfl⟩
        obtain ⟨rfl, hnot⟩ := ih.1 hcut
        simp [hnot, Ne.symm hc]
      · rintro ⟨heq, hnot⟩
        cases before with
        | nil => exact absurd (List.cons.inj heq).1 hc
        | cons b before =>
          obtain ⟨rfl, htail⟩ := List.cons.inj heq
          have hrest : sep ∉ before := fun h => hnot (List.mem_cons_of_mem _ h)
          exact ⟨before, after, ih.2 ⟨htail, hrest⟩, rfl, rfl⟩

theorem splitFirst?_eq_none_iff {sep : Char} {cs : List Char} :
    splitFirst? sep cs = none ↔ sep ∉ cs := by
  induction cs with
  | nil => simp [splitFirst?]
  | cons c cs ih =>
    by_cases hc : c = sep
    · simp [splitFirst?, hc]
    · simp [splitFirst?, hc, ih, Ne.symm hc]

theorem splitLast?_eq_none_iff {sep : Char} {cs : List Char} :
    splitLast? sep cs = none ↔ sep ∉ cs := by
  induction cs with
  | nil => simp [splitLast?]
  | cons c cs ih =>
    cases hcut : splitLast? sep cs with
    | none =>
      have hnot : sep ∉ cs := ih.1 hcut
      by_cases hc : c = sep
      · simp [splitLast?, hcut, hc]
      · simp [splitLast?, hcut, hc, hnot, Ne.symm hc]
    | some p =>
      have hmem : sep ∈ cs := Decidable.byContradiction fun hnot => by
        rw [ih.2 hnot] at hcut
        cases hcut
      simp [splitLast?, hcut, hmem]

theorem splitLast?_eq_some_iff {sep : Char} {cs before after : List Char} :
    splitLast? sep cs = some (before, after) ↔ cs = before ++ sep :: after ∧ sep ∉ after := by
  induction cs generalizing before after with
  | nil => simp [splitLast?]
  | cons c cs ih =>
    cases hcut : splitLast? sep cs with
    | none =>
      -- The rest has no `sep`, so only `c` itself can be the last one.
      have hnot : sep ∉ cs := splitLast?_eq_none_iff.1 hcut
      simp only [splitLast?, hcut]
      constructor
      · intro h
        by_cases hc : c = sep
        · simp only [hc, if_true, Option.some.injEq, Prod.mk.injEq] at h
          obtain ⟨rfl, rfl⟩ := h
          exact ⟨by rw [hc]; rfl, hnot⟩
        · simp [hc] at h
      · rintro ⟨heq, -⟩
        cases before with
        | nil =>
          obtain ⟨rfl, rfl⟩ := List.cons.inj heq
          simp
        | cons b before =>
          have hmem : sep ∈ cs := by
            rw [(List.cons.inj heq).2]
            simp
          exact absurd hmem hnot
    | some p =>
      obtain ⟨b, a⟩ := p
      obtain ⟨hcs, ha⟩ := ih.1 hcut
      simp only [splitLast?, hcut, Option.some.injEq, Prod.mk.injEq]
      constructor
      · rintro ⟨rfl, rfl⟩
        exact ⟨by rw [hcs]; rfl, ha⟩
      · rintro ⟨heq, hafter⟩
        cases before with
        | nil =>
          obtain ⟨-, htail⟩ := List.cons.inj heq
          rw [← htail, hcs] at hafter
          simp at hafter
        | cons b' before =>
          obtain ⟨rfl, htail⟩ := List.cons.inj heq
          have h := ih.2 ⟨htail, hafter⟩
          rw [hcut] at h
          cases h
          exact ⟨rfl, rfl⟩

/-! ### Cuts at a delimiter -/

/-- Of two ways to divide a text in two, one divides a part of the other. -/
theorem exists_between {front back front' back' : List Char}
    (h : front ++ back = front' ++ back') (hle : front.length ≤ front'.length) :
    ∃ mid, front' = front ++ mid ∧ back = mid ++ back' := by
  have hfront : front <+: front ++ back := List.prefix_append _ _
  have hfront' : front' <+: front ++ back := h ▸ List.prefix_append _ _
  obtain ⟨mid, rfl⟩ := List.prefix_of_prefix_length_le hfront hfront' hle
  rw [List.append_assoc] at h
  exact ⟨mid, rfl, List.append_cancel_left h⟩

theorem cutAt?_eq_none_iff {delimiter cs : List Char} :
    cutAt? delimiter cs = none ↔ ∀ before after, cs ≠ before ++ delimiter ++ after := by
  induction cs with
  | nil =>
    rw [cutAt?, Option.map_eq_none_iff]
    constructor
    · intro h before after heq
      have hnil : delimiter = [] := by
        have := congrArg List.length heq
        simp only [List.length_nil, List.length_append] at this
        exact List.length_eq_zero_iff.1 (by omega)
      rw [hnil, dropStart?] at h
      cases h
    · intro h
      cases hstart : dropStart? delimiter [] with
      | none => rfl
      | some rest => exact absurd (dropStart?_eq_some_iff.1 hstart) (h [] rest)
  | cons c cs ih =>
    rw [cutAt?]
    cases hstart : dropStart? delimiter (c :: cs) with
    | some rest =>
      constructor
      · intro h
        cases h
      · intro h
        exact absurd (dropStart?_eq_some_iff.1 hstart) (h [] rest)
    | none =>
      simp only [Option.map_eq_none_iff, ih]
      constructor
      · intro h before after heq
        cases before with
        | nil =>
          rw [List.nil_append] at heq
          rw [dropStart?_eq_some_iff.2 heq] at hstart
          cases hstart
        | cons b before => exact h before after (List.cons.inj heq).2
      · intro h before after heq
        exact h (c :: before) after (by rw [heq]; rfl)

/-- The delimiter that a text is divided at is the first. -/
theorem length_before_cutAt? {delimiter cs before after : List Char}
    (h : cutAt? delimiter cs = some (before, after)) {before' after' : List Char}
    (h' : cs = before' ++ delimiter ++ after') : before.length ≤ before'.length := by
  induction cs generalizing before before' with
  | nil =>
    rw [cutAt?, Option.map_eq_some_iff] at h
    obtain ⟨rest, -, heq⟩ := h
    cases heq
    exact Nat.zero_le _
  | cons c cs ih =>
    rw [cutAt?] at h
    split at h
    · cases h
      exact Nat.zero_le _
    · rename_i hstart
      obtain ⟨⟨b, a⟩, hcut, heq⟩ := Option.map_eq_some_iff.1 h
      cases heq
      cases before' with
      | nil =>
        rw [List.nil_append] at h'
        rw [dropStart?_eq_some_iff.2 h'] at hstart
        cases hstart
      | cons b' before' => exact Nat.succ_le_succ (ih hcut (List.cons.inj h').2)

/-! ### Trimming -/

/-- Trimming the end stops at the last character that is not blank. -/
theorem trimEnd_append {front : List Char} {c : Char} (hc : isBlank c = false)
    (cs : List Char) : trimEnd (front ++ c :: cs) = front ++ c :: trimEnd cs := by
  have hrev : (front ++ c :: cs).reverse = cs.reverse ++ c :: front.reverse := by simp
  rw [trimEnd, hrev, List.dropWhile_append]
  split
  · rename_i hblank
    rw [List.isEmpty_iff] at hblank
    simp [hc, trimEnd, hblank]
  · simp [trimEnd]

theorem trimEnd_prefix (cs : List Char) : trimEnd cs <+: cs := by
  have hsuffix : cs.reverse.dropWhile isBlank <:+ cs.reverse := List.dropWhile_suffix isBlank
  rw [← List.reverse_prefix, List.reverse_reverse] at hsuffix
  exact hsuffix

/-- A text that is not empty and has no blank at either end. -/
structure IsTight (cs : List Char) : Prop where
  ne : cs ≠ []
  head : ∀ c ∈ cs.head?, isBlank c = false
  last : ∀ c ∈ cs.getLast?, isBlank c = false

namespace IsTight

variable {cs ds : List Char}

/-- Such a text is trimmed already. -/
theorem trim_eq (h : IsTight cs) : trim cs = cs := by
  have hstart : trimStart cs = cs := by
    obtain ⟨c, rest, rfl⟩ := List.exists_cons_of_ne_nil h.ne
    exact trimStart_cons_of_not_blank (h.head c rfl)
  obtain ⟨front, c, rfl⟩ := (List.eq_nil_or_concat cs).resolve_left h.ne
  rw [List.concat_eq_append] at hstart h ⊢
  rw [trim, hstart]
  exact trimEnd_append (h.last c (by simp)) []

/-- What stands between two such texts does not matter. -/
theorem append (hcs : IsTight cs) (mid : List Char) (hds : IsTight ds) :
    IsTight (cs ++ mid ++ ds) where
  ne := by simp [hcs.ne]
  head := by
    intro c hc
    rw [List.append_assoc, List.head?_append, List.head?_eq_some_head hcs.ne,
      Option.some_or] at hc
    exact hcs.head c (List.head?_eq_some_head hcs.ne ▸ hc)
  last := by
    intro c hc
    rw [List.getLast?_append, List.getLast?_eq_some_getLast hds.ne, Option.some_or] at hc
    exact hds.last c (List.getLast?_eq_some_getLast hds.ne ▸ hc)

/-- Characters that are not blank make up such a text. -/
theorem of_forall (hne : cs ≠ []) (h : ∀ c ∈ cs, isBlank c = false) : IsTight cs where
  ne := hne
  head := fun c hc => h c (List.mem_of_mem_head? hc)
  last := fun c hc => h c (List.mem_of_mem_getLast? hc)

end IsTight

end CrossTag.Text
