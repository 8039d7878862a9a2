import Mathlib.Data.List.Forall2
import Mathlib.Data.List.Nodup
import CrossTag.Proofs.Attrs
import CrossTag.Shell.Run
import CrossTag.Tag.Reader

/-!
# What commands see of an entry

A command sees an entry through variables: one for the name, one for the path and one for each
attribute, called after its key. A variable cannot be called by every key, so keys are folded, and
two of them may come to the same:

    key         ns:long-key                NS-Long_Key
    variable    TAGREF_ATTR_NS_LONG_KEY    TAGREF_ATTR_NS_LONG_KEY

This happens exactly if the keys agree up to the case of letters and up to dash, colon and
underscore (`attrVariable_eq_iff`). Attributes are handed on in the order of their keys and a later
value replaces an earlier one, so of all attributes with one variable a command sees that with the
last key (`IsLast.seen_eq`). The name and the path are never replaced, since no attribute has their
variables (`attrVariable_ne`).
-/

namespace CrossTag.Lint

/-! ### Names of variables -/

/-- Characters that variables do not tell apart: the two cases of a letter, and dash, colon and
underscore. -/
def Alike (c d : Char) : Prop :=
  c.toUpper = d.toUpper ∨ c ∈ ['-', ':', '_'] ∧ d ∈ ['-', ':', '_']

/-- Keys that go by one variable. -/
def SameVariable (key key' : String) : Prop :=
  List.Forall₂ Alike key.toList key'.toList

/-- Only small letters change, by the distance of the two alphabets. -/
theorem toNat_toUpper (c : Char) :
    c.toUpper.toNat = if 97 ≤ c.toNat ∧ c.toNat ≤ 122 then c.toNat - 32 else c.toNat := by
  have hiff : 'a'.val ≤ c.val ∧ c.val ≤ 'z'.val ↔ 97 ≤ c.toNat ∧ c.toNat ≤ 122 := Iff.rfl
  by_cases h : 'a'.val ≤ c.val ∧ c.val ≤ 'z'.val
  · -- The distance is negative, so it is taken off by an addition that wraps.
    have hupper : c.toUpper.val = c.val + ('A'.val - 'a'.val) := by
      show Char.val (dite ('a'.val ≤ c.val ∧ c.val ≤ 'z'.val) _ _) = _
      rw [dif_pos h]
    have hdown : ('A'.val - 'a'.val).toNat = 2 ^ 32 - 32 := by decide
    have hbounds : 97 ≤ c.val.toNat ∧ c.val.toNat ≤ 122 := h
    rw [if_pos (hiff.1 h)]
    show c.toUpper.val.toNat = c.val.toNat - 32
    rw [hupper, UInt32.toNat_add, hdown]
    omega
  · have hupper : c.toUpper = c := dif_neg h
    rw [if_neg (hiff.not.1 h), hupper]

theorem toNat_envChar (c : Char) :
    (envChar c).toNat = if c = '-' ∨ c = ':' then 95
      else if 97 ≤ c.toNat ∧ c.toNat ≤ 122 then c.toNat - 32 else c.toNat := by
  rw [envChar]
  split
  · rfl
  · exact toNat_toUpper c

theorem envChar_eq_iff {c d : Char} : envChar c = envChar d ↔ Alike c d := by
  have hmark : ∀ c : Char, c ∈ ['-', ':', '_'] ↔ c.toNat = 45 ∨ c.toNat = 58 ∨ c.toNat = 95 := by
    intro c
    simp only [List.mem_cons, List.not_mem_nil, or_false, ← Char.toNat_inj]
    rfl
  have hdash : ∀ c : Char, (c = '-' ∨ c = ':') ↔ c.toNat = 45 ∨ c.toNat = 58 := by
    intro c
    simp only [← Char.toNat_inj]
    rfl
  rw [Alike, ← Char.toNat_inj, ← Char.toNat_inj, toNat_envChar, toNat_envChar, toNat_toUpper,
    toNat_toUpper, hmark, hmark]
  simp only [hdash]
  split_ifs <;> omega

/-- **Keys go by one variable exactly if they are alike, character by character.** -/
theorem attrVariable_eq_iff {key key' : String} :
    attrVariable key = attrVariable key' ↔ SameVariable key key' := by
  rw [attrVariable, attrVariable, String.append_right_inj, String.ofList_inj,
    ← List.forall₂_eq_eq_eq, List.forall₂_map_left_iff, List.forall₂_map_right_iff, SameVariable]
  simp only [envChar_eq_iff]

/-- No attribute has the variable of the name or that of the path. -/
theorem attrVariable_ne (key : String) :
    attrVariable key ≠ "TAGREF_NAME" ∧ attrVariable key ≠ "TAGREF_PATH" := by
  have hvariable : (attrVariable key).toList = "TAGREF_ATTR_".toList ++ key.toList.map envChar := by
    simp [attrVariable]
  constructor
  · intro h
    rw [h] at hvariable
    simp at hvariable
  · intro h
    rw [h] at hvariable
    simp at hvariable

/-! ### Values of variables -/

/-- The value that a command finds in a variable: that of the last assignment to it. -/
def seen (e : Entry) (name : String) : Option String :=
  (environment e).reverse.lookup name

/-- A script reads variables as commands find them. -/
theorem param?_environment (t : Tree) (e : Entry) {name : String} (h : 1 < name.toList.length) :
    Shell.Context.param? { tree := t, bindings := (environment e).reverse } name
      = seen e name := by
  rw [Shell.Context.param?, seen]
  split <;> simp_all

/-- The assignments for attributes, the last one in front. -/
theorem reverse_environment (e : Entry) :
    (environment e).reverse = (e.attrs.pairs.reverse.map fun p => (attrVariable p.1, p.2))
      ++ [("TAGREF_PATH", e.loc.path), ("TAGREF_NAME", e.name)] := by
  simp [environment]

/-- What is no variable of an attribute is looked up behind the attributes. -/
theorem seen_of_ne {e : Entry} {name : String} (h : ∀ key, attrVariable key ≠ name) :
    seen e name = [("TAGREF_PATH", e.loc.path), ("TAGREF_NAME", e.name)].lookup name := by
  have hnone : (e.attrs.pairs.reverse.map fun p => (attrVariable p.1, p.2)).lookup name = none := by
    rw [List.lookup_eq_none_iff]
    intro q hq
    obtain ⟨p, -, rfl⟩ := List.mem_map.1 hq
    simpa using (h p.1).symm
  rw [seen, reverse_environment, List.lookup_append, hnone, Option.none_or]

/-- `last` is the last of the keys that go by the variable of `key`. -/
structure IsLast (e : Entry) (key last : String) : Prop where
  mem : last ∈ e.attrs.keys
  same : SameVariable key last
  none_after : ∀ k ∈ e.attrs.keys, last < k → ¬ SameVariable key k

theorem exists_isLast {e : Entry} {key : String} (h : key ∈ e.attrs.keys) :
    ∃ last, IsLast e key last := by
  let same := e.attrs.keys.filter fun k => attrVariable key = attrVariable k
  have hmem : ∀ k, k ∈ same ↔ k ∈ e.attrs.keys ∧ SameVariable key k := by
    intro k
    simp [same, attrVariable_eq_iff]
  have hne : same ≠ [] := List.ne_nil_of_mem ((hmem key).2 ⟨h, attrVariable_eq_iff.1 rfl⟩)
  obtain ⟨front, last, hsame⟩ := (List.eq_nil_or_concat same).resolve_left hne
  rw [List.concat_eq_append] at hsame
  have hsorted : same.Pairwise (· < ·) := e.attrs.keys_sorted.filter _
  rw [hsame, List.pairwise_append] at hsorted
  obtain ⟨hlast, hvariable⟩ := (hmem last).1 (by simp [hsame])
  refine ⟨last, hlast, hvariable, fun k hk hlt hk' => ?_⟩
  have hk : k ∈ front ++ [last] := hsame ▸ (hmem k).2 ⟨hk, hk'⟩
  rcases List.mem_append.1 hk with hk | hk
  · exact String.lt_asymm hlt (hsorted.2.2 k hk last List.mem_cons_self)
  · rw [List.mem_singleton.1 hk] at hlt
    exact String.lt_irrefl last hlt

/-- **Of the attributes with one variable, the one with the last key is seen.** -/
theorem IsLast.seen_eq {e : Entry} {key last : String} (h : IsLast e key last) :
    seen e (attrVariable key) = e.attrs.get? last := by
  obtain ⟨value, hvalue⟩ := Attrs.mem_keys_iff.1 h.mem
  obtain ⟨before, after, hpairs⟩ := List.append_of_mem (Attrs.mem_pairs_iff.2 hvalue)
  have hsorted := e.attrs.sorted
  rw [hpairs, List.pairwise_append, List.pairwise_cons] at hsorted
  rw [hvalue, seen, List.lookup_eq_some_iff, reverse_environment, attrVariable_eq_iff.2 h.same,
    hpairs]
  refine ⟨after.reverse.map fun p => (attrVariable p.1, p.2),
    (before.reverse.map fun p => (attrVariable p.1, p.2))
      ++ [("TAGREF_PATH", e.loc.path), ("TAGREF_NAME", e.name)], by simp, ?_⟩
  -- No key behind the last one goes by the variable, so nothing in front hides its value.
  intro q hq
  obtain ⟨p, hp, rfl⟩ := List.mem_map.1 hq
  have hp := List.mem_reverse.1 hp
  have hkey : p.1 ∈ e.attrs.keys := List.mem_map.2 ⟨p, by simp [hpairs, hp], rfl⟩
  have hne := h.none_after p.1 hkey (hsorted.2.1.1 p hp)
  rw [← attrVariable_eq_iff, attrVariable_eq_iff.2 h.same] at hne
  simpa using hne

/-! ### The whole environment -/

/-- The variables are all different exactly if no two keys go by one variable. -/
theorem nodup_environment_iff (e : Entry) :
    ((environment e).map (·.1)).Nodup ↔
      ∀ k ∈ e.attrs.keys, ∀ k' ∈ e.attrs.keys, SameVariable k k' → k = k' := by
  have hnames : (environment e).map (·.1)
      = "TAGREF_NAME" :: "TAGREF_PATH" :: e.attrs.keys.map attrVariable := by
    simp [environment, Attrs.keys]
  have hname : "TAGREF_NAME" ∉ "TAGREF_PATH" :: e.attrs.keys.map attrVariable := by
    simp [(attrVariable_ne _).1]
  have hpath : "TAGREF_PATH" ∉ e.attrs.keys.map attrVariable := by
    simp [(attrVariable_ne _).2]
  simp only [← attrVariable_eq_iff]
  rw [hnames, List.nodup_cons, List.nodup_cons]
  constructor
  · rintro ⟨-, -, hnodup⟩ k hk k' hk' hsame
    exact List.inj_on_of_nodup_map hnodup hk hk' hsame
  · intro hinj
    exact ⟨hname, hpath, e.attrs.nodup_keys.map_on hinj⟩

/-- **What commands see of an entry.** A script that a rule runs reads the last assignment to a
variable. The name and the path are always seen. Each attribute has a variable of its own exactly if
no two keys agree up to the case of letters and up to dash, colon and underscore; in general the
variable of an attribute shows the value under the last key that goes by it, so every attribute is
seen with its own value exactly if all attributes with one variable have one value. -/
theorem environment_faithful (e : Entry) :
    (∀ (t : Tree) (name : String), 1 < name.toList.length →
        Shell.Context.param? { tree := t, bindings := (environment e).reverse } name = seen e name)
      ∧ seen e "TAGREF_NAME" = some e.name ∧ seen e "TAGREF_PATH" = some e.loc.path
      ∧ (((environment e).map (·.1)).Nodup ↔
          ∀ k ∈ e.attrs.keys, ∀ k' ∈ e.attrs.keys, SameVariable k k' → k = k')
      ∧ (∀ key ∈ e.attrs.keys, ∃ last, IsLast e key last
          ∧ seen e (attrVariable key) = e.attrs.get? last)
      ∧ ((∀ key ∈ e.attrs.keys, seen e (attrVariable key) = e.attrs.get? key) ↔
          ∀ k ∈ e.attrs.keys, ∀ k' ∈ e.attrs.keys, SameVariable k k' →
            e.attrs.get? k = e.attrs.get? k') := by
  refine ⟨fun t name => param?_environment t e, ?_, ?_, nodup_environment_iff e, ?_, ?_⟩
  · rw [seen_of_ne fun key => (attrVariable_ne key).1]
    rfl
  · rw [seen_of_ne fun key => (attrVariable_ne key).2]
    rfl
  · intro key hkey
    obtain ⟨last, hlast⟩ := exists_isLast hkey
    exact ⟨last, hlast, hlast.seen_eq⟩
  · constructor
    · intro hown k hk k' hk' hsame
      rw [← hown k hk, ← hown k' hk', attrVariable_eq_iff.2 hsame]
    · intro halike key hkey
      obtain ⟨last, hlast⟩ := exists_isLast hkey
      rw [hlast.seen_eq, halike key hkey last hlast.mem hlast.same]

/-- A tag with one key in both cases. -/
def bothCases : Entry :=
  ⟨"meow", Attrs.ofList [("A", "2"), ("a", "1")], ⟨"a.rs", 1, 1, 20⟩⟩

/-- **Not every attribute of a tag is seen.** The tag `meow A=2 a=1` has two attributes with one
variable, in which the value of the first is lost. -/
theorem not_environment_faithful :
    ∃ (text : String) (loc : Location) (e : Entry), Tag.parse text loc = .ok e
      ∧ ¬ ((environment e).map (·.1)).Nodup
      ∧ ∃ key ∈ e.attrs.keys, seen e (attrVariable key) ≠ e.attrs.get? key := by
  have hparse : Tag.parse "meow A=2 a=1" bothCases.loc = .ok bothCases := by
    with_unfolding_all rfl
  exact ⟨_, _, bothCases, hparse, by decide, "A", by decide, by decide⟩

end CrossTag.Lint
