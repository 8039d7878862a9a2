import CrossTag.Tag.Reader
import CrossTag.Proofs.Outcome
import CrossTag.Proofs.Utf8
import Mathlib.Data.List.Forall2
import Mathlib.Data.Nat.Digits.Defs
import Mathlib.Tactic.IntervalCases

/-!
# What quoted strings stand for

A character can be written in a quoted string in several ways:

    itself             unless it is a quote, a backslash or a line feed
    \ and a letter     one of the `letters`
    \x and 2 digits    in base 16, up to 7F
    \ and 3 digits     in base 8, up to 7F
    \u and 4 digits    in base 16, a character
    \U and 8 digits    in base 16, a character

A text is spelled by a spelling of each of its characters (`Spells`), and whatever a string cannot
go on with is listed beside it (`Breaks`). The reader of strings accepts the spellings and nothing
else (`readString_eq_ok_iff`), and stops at the first place where a string cannot go on
(`readString_eq_error_iff`). No escape needs to know what follows it, since all of them have a
fixed length.
-/

namespace CrossTag.Tag

/-! ### Numerals -/

def lowerDigits : List Char :=
  ['0', '1', '2', '3', '4', '5', '6', '7', '8', '9', 'a', 'b', 'c', 'd', 'e', 'f']

def upperDigits : List Char :=
  ['0', '1', '2', '3', '4', '5', '6', '7', '8', '9', 'A', 'B', 'C', 'D', 'E', 'F']

/-- The digits of a base up to 16; above nine they are letters of either case. -/
def IsDigit (base d : Nat) (c : Char) : Prop :=
  d < base ∧ (lowerDigits[d]? = some c ∨ upperDigits[d]? = some c)

instance (base d : Nat) (c : Char) : Decidable (IsDigit base d c) :=
  inferInstanceAs (Decidable (_ ∧ _))

/-- A number written with a fixed count of digits, the most significant first. -/
def Numeral (base width : Nat) (cs : List Char) (value : Nat) : Prop :=
  cs.length = width ∧ ∃ ds, List.Forall₂ (IsDigit base) ds cs ∧ value = Nat.ofDigits base ds.reverse

/-- Digits, and nothing else. -/
def AllDigits (base : Nat) (cs : List Char) : Prop :=
  ∀ c ∈ cs, ∃ d, IsDigit base d c

/-- A text that does not go on with a digit. -/
def NoDigitFirst (base : Nat) (cs : List Char) : Prop :=
  ∀ c ∈ cs.head?, ∀ d, ¬ IsDigit base d c

/-- The digits by their numbers. -/
theorem isDigit_iff {base d : Nat} {c : Char} :
    IsDigit base d c ↔ d < base ∧ (d < 10 ∧ c.toNat = 48 + d
      ∨ 10 ≤ d ∧ d < 16 ∧ (c.toNat = 87 + d ∨ c.toNat = 55 + d)) := by
  have hsome : ∀ e : Char, some e = some c ↔ c.toNat = e.toNat := by
    intro e
    rw [Option.some.injEq, eq_comm, Char.toNat_inj]
  refine and_congr_right fun _ => ?_
  rcases Nat.lt_or_ge d 16 with hd | hd
  · interval_cases d
    all_goals
      show some _ = some c ∨ some _ = some c ↔ _
      simp only [hsome, Char.reduceToNat]
      omega
  · rw [List.getElem?_eq_none (show lowerDigits.length ≤ d from hd),
      List.getElem?_eq_none (show upperDigits.length ≤ d from hd)]
    simp only [reduceCtorEq, or_self, false_iff]
    omega

theorem hexDigit?_eq_some_iff {c : Char} {d : Nat} :
    Text.hexDigit? c = some d ↔ IsDigit 16 d c := by
  rw [isDigit_iff]
  simp only [Text.hexDigit?, Char.le_def, UInt32.le_iff_toNat_le]
  show (if 48 ≤ c.toNat ∧ c.toNat ≤ 57 then some (c.toNat - 48)
    else if 97 ≤ c.toNat ∧ c.toNat ≤ 102 then some (c.toNat - 97 + 10)
    else if 65 ≤ c.toNat ∧ c.toNat ≤ 70 then some (c.toNat - 65 + 10) else none) = some d ↔ _
  split
  · rw [Option.some.injEq]
    omega
  split
  · rw [Option.some.injEq]
    omega
  split
  · rw [Option.some.injEq]
    omega
  · simp only [reduceCtorEq, false_iff]
    omega

theorem octalDigit?_eq_some_iff {c : Char} {d : Nat} :
    Text.octalDigit? c = some d ↔ IsDigit 8 d c := by
  rw [isDigit_iff]
  simp only [Text.octalDigit?, Char.le_def, UInt32.le_iff_toNat_le]
  show (if 48 ≤ c.toNat ∧ c.toNat ≤ 55 then some (c.toNat - 48) else none) = some d ↔ _
  split
  · rw [Option.some.injEq]
    omega
  · simp only [reduceCtorEq, false_iff]
    omega

section Digits

variable {base width value : Nat} {digit? : Char → Option Nat} {cs : List Char}

theorem digitsValue?_eq_some_iff (hdigit : ∀ {c d}, digit? c = some d ↔ IsDigit base d c)
    {acc : Nat} :
    Text.digitsValue? base digit? acc cs = some value ↔
      ∃ ds, List.Forall₂ (IsDigit base) ds cs
        ∧ value = acc * base ^ cs.length + Nat.ofDigits base ds.reverse := by
  induction cs generalizing acc with
  | nil => simp [Text.digitsValue?, List.forall₂_nil_right_iff, eq_comm]
  | cons c cs ih =>
    -- The first digit counts as often as there are numbers of the digits behind it.
    have hvalue : ∀ {d : Nat} {ds : List Nat}, List.Forall₂ (IsDigit base) ds cs →
        (acc * base + d) * base ^ cs.length + Nat.ofDigits base ds.reverse
          = acc * base ^ (c :: cs).length + Nat.ofDigits base (d :: ds).reverse := by
      intro d ds hds
      rw [List.reverse_cons, Nat.ofDigits_append, Nat.ofDigits_singleton, List.length_reverse,
        hds.length_eq, List.length_cons]
      ring
    rw [Text.digitsValue?]
    constructor
    · intro h
      split at h
      · rename_i d hd
        obtain ⟨ds, hds, rfl⟩ := ih.1 h
        exact ⟨d :: ds, .cons (hdigit.1 hd) hds, hvalue hds⟩
      · cases h
    · rintro ⟨_, hall, rfl⟩
      obtain ⟨d, ds, hd, hds, rfl⟩ := List.forall₂_cons_right_iff.1 hall
      rw [hdigit.2 hd]
      exact ih.2 ⟨ds, hds, (hvalue hds).symm⟩

theorem digitsValue?_eq_none_iff (hdigit : ∀ {c d}, digit? c = some d ↔ IsDigit base d c)
    {acc : Nat} : Text.digitsValue? base digit? acc cs = none ↔ ¬ AllDigits base cs := by
  induction cs generalizing acc with
  | nil => simp [Text.digitsValue?, AllDigits]
  | cons c cs ih =>
    rw [Text.digitsValue?, AllDigits, List.forall_mem_cons, not_and_or]
    cases hc : digit? c with
    | none =>
      have hnot : ¬ ∃ d, IsDigit base d c := by
        rintro ⟨d, hd⟩
        cases hc.symm.trans (hdigit.2 hd)
      simp [hnot]
    | some d =>
      have hd : ∃ d, IsDigit base d c := ⟨d, hdigit.1 hc⟩
      simp only [ih, hd, not_true_eq_false, false_or]
      rfl

theorem AllDigits.exists_values (h : AllDigits base cs) :
    ∃ vs, List.Forall₂ (IsDigit base) vs cs := by
  induction cs with
  | nil => exact ⟨[], .nil⟩
  | cons c cs ih =>
    obtain ⟨⟨d, hd⟩, hcs⟩ := List.forall_mem_cons.1 h
    obtain ⟨vs, hvs⟩ := ih hcs
    exact ⟨d :: vs, .cons hd hvs⟩

/-- A text goes on with digits up to some place. -/
theorem exists_digits (base : Nat) (cs : List Char) :
    ∃ ds rest, cs = ds ++ rest ∧ AllDigits base ds ∧ NoDigitFirst base rest := by
  induction cs with
  | nil => exact ⟨[], [], rfl, by simp [AllDigits], by simp [NoDigitFirst]⟩
  | cons c cs ih =>
    by_cases hc : ∃ d, IsDigit base d c
    · obtain ⟨ds, rest, rfl, hds, hrest⟩ := ih
      exact ⟨c :: ds, rest, rfl, List.forall_mem_cons.2 ⟨hc, hds⟩, hrest⟩
    · refine ⟨[], c :: cs, rfl, by simp [AllDigits], ?_⟩
      rintro _ ⟨rfl⟩ d hd
      exact hc ⟨d, hd⟩

theorem readHex_numeral {ds : List Char} (h : Numeral 16 width ds value) (rest : List Char) :
    readHex width (ds ++ rest) = .ok value := by
  obtain ⟨rfl, vs, hvs, hvalue⟩ := h
  have hdigits : Text.digitsValue? 16 Text.hexDigit? 0 ds = some value :=
    (digitsValue?_eq_some_iff hexDigit?_eq_some_iff).2 ⟨vs, hvs, by rw [hvalue]; omega⟩
  simp only [readHex, List.take_left, hdigits, if_true]

theorem readHex_cut {ds rest : List Char} (hlength : ds.length < width)
    (hrest : NoDigitFirst 16 rest) :
    readHex width (ds ++ rest) = .error (.badHex ((ds ++ rest).take width)) := by
  rw [readHex]
  split
  · rename_i hfull
    -- The first character that is no digit is among those that were found.
    cases rest with
    | nil =>
      rw [List.length_take, List.append_nil] at hfull
      omega
    | cons c rest =>
      have hmem : c ∈ (ds ++ c :: rest).take width := by
        rw [List.take_append, List.mem_append]
        obtain ⟨n, hn⟩ : ∃ n, width - ds.length = n + 1 := ⟨width - ds.length - 1, by omega⟩
        rw [hn, List.take_succ_cons]
        exact .inr List.mem_cons_self
      have hnone : Text.digitsValue? 16 Text.hexDigit? 0 ((ds ++ c :: rest).take width) = none := by
        rw [digitsValue?_eq_none_iff hexDigit?_eq_some_iff]
        intro hall
        obtain ⟨d, hd⟩ := hall c hmem
        exact hrest c rfl d hd
      rw [hnone]
  · rfl

/-- A text goes on with a numeral of some width or is cut before. -/
theorem numeral_or_cut (base width : Nat) (cs : List Char) :
    (∃ ds rest value, cs = ds ++ rest ∧ Numeral base width ds value)
      ∨ ∃ ds rest, cs = ds ++ rest ∧ ds.length < width ∧ AllDigits base ds
          ∧ NoDigitFirst base rest := by
  obtain ⟨ds, rest, rfl, hds, hrest⟩ := exists_digits base cs
  rcases Nat.lt_or_ge ds.length width with hshort | hlong
  · exact .inr ⟨ds, rest, rfl, hshort, hds, hrest⟩
  · have hall : AllDigits base (ds.take width) := fun c hc => hds c (List.mem_of_mem_take hc)
    obtain ⟨vs, hvs⟩ := hall.exists_values
    refine .inl ⟨ds.take width, ds.drop width ++ rest, _, ?_, ?_, vs, hvs, rfl⟩
    · rw [← List.append_assoc, List.take_append_drop]
    · rw [List.length_take]
      omega

end Digits

/-! ### Escapes -/

/-- The letters that stand for a single character behind a backslash. -/
def letters : List (Char × Char) :=
  [('a', '\x07'), ('b', '\x08'), ('f', '\x0c'), ('n', '\n'), ('r', '\r'), ('t', '\t'),
    ('v', '\x0b'), ('\\', '\\'), ('"', '"'), ('\'', '\'')]

/-- The letters of numbers that stand for a character, with the count of their digits. -/
def numberLetters : List (Char × Nat) :=
  [('u', 4), ('U', 8)]

/-- What can be written behind a backslash for a character. -/
inductive Escapes : Char → List Char → Prop
  | letter {l c : Char} : (l, c) ∈ letters → Escapes c [l]
  | hex {c : Char} {ds : List Char} : Numeral 16 2 ds c.toNat → c.toNat ≤ 0x7F →
      Escapes c ('x' :: ds)
  | octal {c : Char} {ds : List Char} : Numeral 8 3 ds c.toNat → c.toNat ≤ 0x7F → Escapes c ds
  | number {c l : Char} {width : Nat} {ds : List Char} : (l, width) ∈ numberLetters →
      Numeral 16 width ds c.toNat → Escapes c (l :: ds)

/-- What cannot stand behind a backslash, and what is reported of it. -/
inductive Miswritten : List Char → QuotingFault → Prop
  | nothing : Miswritten [] .unterminated
  | highHex {ds : List Char} {value : Nat} (rest : List Char) : Numeral 16 2 ds value →
      0x7F < value → Miswritten ('x' :: ds ++ rest) (.highHex value)
  | highOctal {ds : List Char} {value : Nat} (rest : List Char) : Numeral 8 3 ds value →
      0x7F < value → Miswritten (ds ++ rest) (.highOctal value)
  | notAChar {l : Char} {width value : Nat} {ds : List Char} (rest : List Char) :
      (l, width) ∈ numberLetters → Numeral 16 width ds value →
      0xD800 ≤ value ∧ value ≤ 0xDFFF ∨ 0x10FFFF < value →
      Miswritten (l :: ds ++ rest) (.notAChar l width value)
  | cutHex {l : Char} {width : Nat} {ds rest : List Char} : (l, width) ∈ ('x', 2) :: numberLetters →
      ds.length < width → AllDigits 16 ds → NoDigitFirst 16 rest →
      Miswritten (l :: ds ++ rest) (.badHex ((ds ++ rest).take width))
  | cutOctal {ds rest : List Char} : ds ≠ [] → ds.length < 3 → AllDigits 8 ds →
      NoDigitFirst 8 rest → Miswritten (ds ++ rest) .truncatedOctal
  | unknown {c : Char} (rest : List Char) : (∀ d, (c, d) ∉ letters) → c ≠ 'x' →
      (∀ width, (c, width) ∉ numberLetters) → NoDigitFirst 8 [c] →
      Miswritten (c :: rest) (.unknown c)

theorem letterEscape?_eq_some_iff {l c : Char} : letterEscape? l = some c ↔ (l, c) ∈ letters := by
  constructor
  · intro h
    unfold letterEscape? at h
    split at h
    all_goals cases h
    all_goals decide
  · intro h
    have hall : ∀ p ∈ letters, letterEscape? p.1 = some p.2 := by decide
    exact hall (l, c) h

theorem isDigit_octal_iff {d : Nat} {c : Char} : IsDigit 8 d c ↔ d < 8 ∧ c.toNat = 48 + d := by
  rw [isDigit_iff]
  omega

/-- Three octal digits and their number. -/
theorem numeral_octal_iff {ds : List Char} {value : Nat} :
    Numeral 8 3 ds value ↔ ∃ a b c x y z, ds = [a, b, c] ∧ IsDigit 8 x a ∧ IsDigit 8 y b
      ∧ IsDigit 8 z c ∧ value = (x * 8 + y) * 8 + z := by
  constructor
  · rintro ⟨hlength, vs, hvs, rfl⟩
    obtain ⟨a, b, c, rfl⟩ := List.length_eq_three.1 hlength
    obtain _ | ⟨hx, _ | ⟨hy, _ | ⟨hz, _ | _⟩⟩⟩ := hvs
    refine ⟨a, b, c, _, _, _, rfl, hx, hy, hz, ?_⟩
    simp only [List.reverse_cons, List.reverse_nil, List.nil_append, List.cons_append,
      Nat.ofDigits_cons, Nat.ofDigits_nil]
    omega
  · rintro ⟨a, b, c, x, y, z, rfl, hx, hy, hz, rfl⟩
    refine ⟨rfl, [x, y, z], .cons hx (.cons hy (.cons hz .nil)), ?_⟩
    simp only [List.reverse_cons, List.reverse_nil, List.nil_append, List.cons_append,
      Nat.ofDigits_cons, Nat.ofDigits_nil]
    omega

section Escapes

variable {l c : Char} {width d : Nat} (cs : List Char)

theorem readEscape_letter (h : (l, c) ∈ letters) : readEscape (l :: cs) = .ok (c, 1) := by
  rw [readEscape, letterEscape?_eq_some_iff.2 h]

theorem readEscape_hex :
    readEscape ('x' :: cs) = match readHex 2 cs with
      | .error fault => .error fault
      | .ok value => if value ≤ 0x7F then .ok (Char.ofNat value, 3) else .error (.highHex value) :=
  rfl

theorem readEscape_number (h : (l, width) ∈ numberLetters) :
    readEscape (l :: cs) = match readHex width cs with
      | .error fault => .error fault
      | .ok value => (scalar l width value).map fun c => (c, width + 1) := by
  simp only [numberLetters, List.mem_cons, Prod.mk.injEq, List.not_mem_nil, or_false] at h
  rcases h with ⟨rfl, rfl⟩ | ⟨rfl, rfl⟩
  · rfl
  · rfl

theorem readEscape_octal (h : IsDigit 8 d c) :
    readEscape (c :: cs) = (readOctal d cs).map fun c => (c, 3) := by
  obtain ⟨hd, hc⟩ := isDigit_octal_iff.1 h
  -- The reader tries letters first, and a digit is none of them.
  have hletter : letterEscape? c = none := by
    rw [Option.eq_none_iff_forall_ne_some]
    intro e he
    have hall : ∀ p ∈ letters, 55 < p.1.toNat ∨ p.1.toNat < 48 := by decide
    have hfar : 55 < c.toNat ∨ c.toNat < 48 := hall (c, e) (letterEscape?_eq_some_iff.1 he)
    omega
  have hne : ∀ e : Char, 55 < e.toNat → c ≠ e := by
    rintro e he rfl
    omega
  rw [readEscape, hletter]
  simp only [hne 'x' (by decide), hne 'u' (by decide), hne 'U' (by decide), if_false,
    octalDigit?_eq_some_iff.2 h]

theorem octalDigit?_of_noDigitFirst (h : NoDigitFirst 8 (c :: cs)) : Text.octalDigit? c = none := by
  rw [Option.eq_none_iff_forall_ne_some]
  exact fun d hd => h c rfl d (octalDigit?_eq_some_iff.1 hd)

theorem readEscape_unknown (hletter : ∀ d, (c, d) ∉ letters) (hhex : c ≠ 'x')
    (hnumber : ∀ width, (c, width) ∉ numberLetters) (hoctal : NoDigitFirst 8 [c]) :
    readEscape (c :: cs) = .error (.unknown c) := by
  have hnone : letterEscape? c = none := by
    rw [Option.eq_none_iff_forall_ne_some]
    exact fun d hd => hletter d (letterEscape?_eq_some_iff.1 hd)
  have hdigit := octalDigit?_of_noDigitFirst [] hoctal
  have hu : c ≠ 'u' := by
    rintro rfl
    exact hnumber 4 (by decide)
  have hU : c ≠ 'U' := by
    rintro rfl
    exact hnumber 8 (by decide)
  rw [readEscape, hnone]
  simp only [hhex, hu, hU, if_false, hdigit]

theorem readOctal_digits {x y z : Nat} {b : Char} (hb : IsDigit 8 y b) (hc : IsDigit 8 z c) :
    readOctal x (b :: c :: cs)
      = if (x * 8 + y) * 8 + z ≤ 0x7F then .ok (Char.ofNat ((x * 8 + y) * 8 + z))
        else .error (.highOctal ((x * 8 + y) * 8 + z)) := by
  simp only [readOctal, octalDigit?_eq_some_iff.2 hb, octalDigit?_eq_some_iff.2 hc]

theorem readOctal_cut {ds rest : List Char} {x : Nat} (hlength : ds.length < 2)
    (hrest : NoDigitFirst 8 rest) : readOctal x (ds ++ rest) = .error .truncatedOctal := by
  -- One of the next two characters is missing or no digit.
  cases ds with
  | nil =>
    rw [List.nil_append]
    cases rest with
    | nil => rfl
    | cons b rest =>
      cases rest with
      | nil => rfl
      | cons c rest => simp only [readOctal, octalDigit?_of_noDigitFirst _ hrest]
  | cons b ds =>
    have hds : ds = [] := List.length_eq_zero_iff.1 (by rw [List.length_cons] at hlength; omega)
    subst hds
    rw [List.singleton_append]
    cases rest with
    | nil => rfl
    | cons c rest =>
      simp only [readOctal, octalDigit?_of_noDigitFirst _ hrest]
      cases Text.octalDigit? b with
      | none => rfl
      | some y => rfl

end Escapes

theorem isValidChar_iff {n : Nat} :
    n.isValidChar ↔ ¬ (0xD800 ≤ n ∧ n ≤ 0xDFFF ∨ 0x10FFFF < n) := by
  show n < 55296 ∨ 57343 < n ∧ n < 1114112 ↔ _
  omega

/-- What is written for a character is read as that character, whatever follows it. -/
theorem readEscape_escapes {c : Char} {e : List Char} (h : Escapes c e) (rest : List Char) :
    readEscape (e ++ rest) = .ok (c, e.length) := by
  cases h with
  | letter hl => exact readEscape_letter rest hl
  | hex hds hsmall =>
    rw [List.cons_append, readEscape_hex, readHex_numeral hds]
    simp only [hsmall, if_true, Char.ofNat_toNat, List.length_cons, hds.1]
  | octal hds hsmall =>
    obtain ⟨a, b, d, x, y, z, rfl, hx, hy, hz, hvalue⟩ := numeral_octal_iff.1 hds
    show readEscape (a :: b :: d :: rest) = _
    rw [readEscape_octal _ hx, readOctal_digits rest hy hz, ← hvalue, if_pos hsmall,
      Char.ofNat_toNat]
    rfl
  | @number _ l width ds hl hds =>
    have hvalid : c.toNat.isValidChar := c.valid
    rw [List.cons_append, readEscape_number _ hl, readHex_numeral hds]
    simp only [scalar, hvalid, if_true, Char.ofNat_toNat, List.length_cons, hds.1]
    rfl

/-- What cannot stand behind a backslash is reported. -/
theorem readEscape_miswritten {cs : List Char} {fault : QuotingFault} (h : Miswritten cs fault) :
    readEscape cs = .error fault := by
  cases h with
  | nothing => rfl
  | highHex rest hds hhigh =>
    rw [List.cons_append, readEscape_hex, readHex_numeral hds]
    simp only [Nat.not_le.2 hhigh, if_false]
  | highOctal rest hds hhigh =>
    obtain ⟨a, b, d, x, y, z, rfl, hx, hy, hz, rfl⟩ := numeral_octal_iff.1 hds
    show readEscape (a :: b :: d :: rest) = _
    rw [readEscape_octal _ hx, readOctal_digits rest hy hz, if_neg (Nat.not_le.2 hhigh)]
    rfl
  | notAChar rest hl hds hrange =>
    have hinvalid : ¬ Nat.isValidChar _ := isValidChar_iff.not_left.2 hrange
    rw [List.cons_append, readEscape_number _ hl, readHex_numeral hds]
    simp only [scalar, hinvalid, if_false]
    rfl
  | cutHex hl hlength hds hrest =>
    rcases List.mem_cons.1 hl with heq | hl
    · cases heq
      rw [List.cons_append, readEscape_hex, readHex_cut hlength hrest]
    · rw [List.cons_append, readEscape_number _ hl, readHex_cut hlength hrest]
  | @cutOctal ds rest hne hlength hds hrest =>
    obtain ⟨a, ds, rfl⟩ := List.exists_cons_of_ne_nil hne
    obtain ⟨x, hx⟩ := hds a List.mem_cons_self
    rw [List.cons_append, readEscape_octal _ hx,
      readOctal_cut (by rw [List.length_cons] at hlength; omega) hrest]
    rfl
  | unknown rest hletter hhex hnumber hoctal =>
    exact readEscape_unknown rest hletter hhex hnumber hoctal

/-- A numeral of a character. -/
theorem Numeral.toNat_ofNat {base width value : Nat} {ds : List Char}
    (h : Numeral base width ds value) (hvalid : value.isValidChar) :
    Numeral base width ds (Char.ofNat value).toNat ∧ (Char.ofNat value).toNat = value := by
  have hvalue : (Char.ofNat value).toNat = value := Text.toNat_char hvalid
  rw [hvalue]
  exact ⟨h, rfl⟩

/-- Behind a backslash a character is written, or something that cannot stand there. -/
theorem escapes_or_miswritten (cs : List Char) :
    (∃ c e rest, cs = e ++ rest ∧ Escapes c e) ∨ ∃ fault, Miswritten cs fault := by
  have hascii : ∀ {value : Nat}, value ≤ 0x7F → value.isValidChar := fun h => .inl (by omega)
  cases cs with
  | nil => exact .inr ⟨_, .nothing⟩
  | cons l cs =>
    -- By the first character, which tells the kinds of escapes apart.
    by_cases hletter : ∃ c, (l, c) ∈ letters
    · obtain ⟨c, hc⟩ := hletter
      exact .inl ⟨c, [l], cs, rfl, .letter hc⟩
    by_cases hhex : l = 'x'
    · subst hhex
      rcases numeral_or_cut 16 2 cs with ⟨ds, rest, value, rfl, hds⟩ | ⟨ds, rest, rfl, hcut⟩
      · rcases Nat.lt_or_ge 0x7F value with hhigh | hsmall
        · exact .inr ⟨_, .highHex rest hds hhigh⟩
        · obtain ⟨hds, hvalue⟩ := hds.toNat_ofNat (hascii hsmall)
          exact .inl ⟨_, 'x' :: ds, rest, rfl, .hex hds (hvalue.symm ▸ hsmall)⟩
      · exact .inr ⟨_, .cutHex List.mem_cons_self hcut.1 hcut.2.1 hcut.2.2⟩
    by_cases hnumber : ∃ width, (l, width) ∈ numberLetters
    · obtain ⟨width, hl⟩ := hnumber
      rcases numeral_or_cut 16 width cs with ⟨ds, rest, value, rfl, hds⟩ | ⟨ds, rest, rfl, hcut⟩
      · by_cases hvalid : value.isValidChar
        · exact .inl ⟨_, l :: ds, rest, rfl, .number hl (hds.toNat_ofNat hvalid).1⟩
        · exact .inr ⟨_, .notAChar rest hl hds (isValidChar_iff.not_left.1 hvalid)⟩
      · exact .inr ⟨_, .cutHex (List.mem_cons_of_mem _ hl) hcut.1 hcut.2.1 hcut.2.2⟩
    by_cases hoctal : ∃ d, IsDigit 8 d l
    · obtain ⟨d, hd⟩ := hoctal
      rcases numeral_or_cut 8 3 (l :: cs) with ⟨ds, rest, value, heq, hds⟩ | ⟨ds, rest, heq, hcut⟩
      · rw [heq]
        rcases Nat.lt_or_ge 0x7F value with hhigh | hsmall
        · exact .inr ⟨_, .highOctal rest hds hhigh⟩
        · obtain ⟨hds, hvalue⟩ := hds.toNat_ofNat (hascii hsmall)
          exact .inl ⟨_, ds, rest, rfl, .octal hds (hvalue.symm ▸ hsmall)⟩
      · -- The first digit is one of those that were found.
        have hne : ds ≠ [] := by
          rintro rfl
          rw [List.nil_append] at heq
          exact hcut.2.2 l (by rw [← heq]; rfl) d hd
        rw [heq]
        exact .inr ⟨_, .cutOctal hne hcut.1 hcut.2.1 hcut.2.2⟩
    · refine .inr ⟨_, .unknown cs (not_exists.1 hletter) hhex (not_exists.1 hnumber) ?_⟩
      rintro _ ⟨rfl⟩
      exact not_exists.1 hoctal

/-! ### Strings -/

/-- What can be written between quotes for a text. -/
inductive Spells : (body text : List Char) → Prop
  | nil : Spells [] []
  | plain {c : Char} {body text : List Char} : c ≠ '"' → c ≠ '\\' → c ≠ '\n' → Spells body text →
      Spells (c :: body) (c :: text)
  | escape {c : Char} {e body text : List Char} : Escapes c e → Spells body text →
      Spells ('\\' :: e ++ body) (c :: text)

/-- What a string cannot go on with, and what is reported of it. -/
inductive Breaks : List Char → QuotingFault → Prop
  | unclosed : Breaks [] .unterminated
  | lineFeed (rest : List Char) : Breaks ('\n' :: rest) .lineFeed
  | escape {cs : List Char} {fault : QuotingFault} : Miswritten cs fault → Breaks ('\\' :: cs) fault

/-- Every text can be written. -/
theorem exists_spells (text : List Char) : ∃ body, Spells body text := by
  induction text with
  | nil => exact ⟨[], .nil⟩
  | cons c text ih =>
    obtain ⟨body, hbody⟩ := ih
    by_cases hquote : c = '"'
    · exact ⟨_, .escape (.letter (l := '"') (by subst hquote; decide)) hbody⟩
    by_cases hslash : c = '\\'
    · exact ⟨_, .escape (.letter (l := '\\') (by subst hslash; decide)) hbody⟩
    by_cases hfeed : c = '\n'
    · exact ⟨_, .escape (.letter (l := 'n') (by subst hfeed; decide)) hbody⟩
    · exact ⟨_, .plain hquote hslash hfeed hbody⟩

section Strings

variable {body text : List Char}

theorem readString_plain {c : Char} (hquote : c ≠ '"') (hslash : c ≠ '\\') (hfeed : c ≠ '\n')
    (cs : List Char) :
    readString (c :: cs) = (readString cs).map fun (content, rest) => (c :: content, rest) := by
  rw [readString, if_neg hquote, if_neg hslash, if_neg hfeed]

theorem readString_escape {c : Char} {e : List Char} (h : Escapes c e) (cs : List Char) :
    readString ('\\' :: (e ++ cs))
      = (readString cs).map fun (content, rest) => (c :: content, rest) := by
  rw [readString, if_neg (by decide), if_pos rfl, readEscape_escapes h]
  simp only [List.drop_left]

/-- Behind the spelling of a text, a string is read on. -/
theorem readString_append (h : Spells body text) (tail : List Char) :
    readString (body ++ tail)
      = (readString tail).map fun (content, rest) => (text ++ content, rest) := by
  -- Each spelling puts its character in front of what is read behind it.
  have hcons : ∀ (x : Except QuotingFault (List Char × List Char)) (c : Char) (text : List Char),
      (x.map fun (content, rest) => (text ++ content, rest)).map
          (fun (content, rest) => (c :: content, rest))
        = x.map fun (content, rest) => (c :: text ++ content, rest) :=
    fun x _ _ => (comp_map _ _ x).symm
  induction h with
  | nil => exact (id_map _).symm
  | plain hquote hslash hfeed _ ih =>
    rw [List.cons_append, readString_plain hquote hslash hfeed, ih, hcons]
  | escape he _ ih =>
    rw [List.cons_append, List.cons_append, List.append_assoc, readString_escape he, ih, hcons]

theorem readString_breaks {tail : List Char} {fault : QuotingFault} (h : Breaks tail fault) :
    readString tail = .error fault := by
  cases h with
  | unclosed => rw [readString]
  | lineFeed rest => rw [readString, if_neg (by decide), if_neg (by decide), if_pos rfl]
  | escape hcs => rw [readString, if_neg (by decide), if_pos rfl, readEscape_miswritten hcs]

/-- Every text spells some other one up to a quote, or up to where a string cannot go on. -/
theorem exists_spelling (cs : List Char) :
    ∃ body text tail, cs = body ++ tail ∧ Spells body text
      ∧ ((∃ rest, tail = '"' :: rest) ∨ ∃ fault, Breaks tail fault) := by
  -- By the length, since an escape takes up several characters at once.
  induction h : cs.length using Nat.strong_induction_on generalizing cs with
  | h n ih =>
    cases cs with
    | nil => exact ⟨[], [], [], rfl, .nil, .inr ⟨_, .unclosed⟩⟩
    | cons c cs =>
      rw [List.length_cons] at h
      by_cases hquote : c = '"'
      · exact ⟨[], [], c :: cs, rfl, .nil, .inl ⟨cs, by rw [hquote]⟩⟩
      by_cases hfeed : c = '\n'
      · subst hfeed
        exact ⟨[], [], '\n' :: cs, rfl, .nil, .inr ⟨_, .lineFeed cs⟩⟩
      by_cases hslash : c = '\\'
      · subst hslash
        rcases escapes_or_miswritten cs with ⟨d, e, rest, rfl, he⟩ | ⟨fault, hmis⟩
        · rw [List.length_append] at h
          obtain ⟨body, text, tail, rfl, hbody, htail⟩ := ih rest.length (by omega) rest rfl
          exact ⟨'\\' :: e ++ body, d :: text, tail, by simp, .escape he hbody, htail⟩
        · exact ⟨[], [], '\\' :: cs, rfl, .nil, .inr ⟨_, .escape hmis⟩⟩
      · obtain ⟨body, text, tail, rfl, hbody, htail⟩ := ih cs.length (by omega) cs rfl
        exact ⟨c :: body, c :: text, tail, rfl, .plain hquote hslash hfeed hbody, htail⟩

theorem readString_spelled (h : Spells body text) (rest : List Char) :
    readString (body ++ '"' :: rest) = .ok (text, rest) := by
  rw [readString_append h, readString, if_pos rfl]
  show Except.ok (text ++ [], rest) = _
  rw [List.append_nil]

theorem readString_broken (h : Spells body text) {tail : List Char} {fault : QuotingFault}
    (htail : Breaks tail fault) : readString (body ++ tail) = .error fault := by
  rw [readString_append h, readString_breaks htail]
  rfl

/-- **The reader of strings accepts the spellings of texts.** -/
theorem readString_eq_ok_iff {cs rest : List Char} :
    readString cs = .ok (text, rest) ↔ ∃ body, Spells body text ∧ cs = body ++ '"' :: rest := by
  constructor
  · intro h
    obtain ⟨body, text', tail, rfl, hbody, ⟨rest', rfl⟩ | ⟨fault, hbreaks⟩⟩ := exists_spelling cs
    · cases (readString_spelled hbody rest').symm.trans h
      exact ⟨body, hbody, rfl⟩
    · cases (readString_broken hbody hbreaks).symm.trans h
  · rintro ⟨body, hbody, rfl⟩
    exact readString_spelled hbody rest

/-- **It stops where a string cannot go on.** -/
theorem readString_eq_error_iff {cs : List Char} {fault : QuotingFault} :
    readString cs = .error fault ↔
      ∃ body text tail, Spells body text ∧ Breaks tail fault ∧ cs = body ++ tail := by
  constructor
  · intro h
    obtain ⟨body, text, tail, rfl, hbody, ⟨rest, rfl⟩ | ⟨fault', hbreaks⟩⟩ := exists_spelling cs
    · cases (readString_spelled hbody rest).symm.trans h
    · cases (readString_broken hbody hbreaks).symm.trans h
      exact ⟨body, text, tail, hbody, hbreaks, rfl⟩
  · rintro ⟨body, text, tail, hbody, hbreaks, rfl⟩
    exact readString_broken hbody hbreaks

end Strings

end CrossTag.Tag
