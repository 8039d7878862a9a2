import CrossTag.Location
import CrossTag.Proofs.Text

/-!
# Locations and their written form

Every location has a written form, but not every written form is read back: a path may be
empty or hold a line feed, and nothing keeps the numbers of a location from being zero or its
range from being empty. `Location.Writable` collects what is needed, and the main statement
says that it is needed exactly: a location is read back from its written form if and only if
it is writable. One half follows from a fact about reading alone, that `parse` answers nothing
but writable locations, whatever text it is given.

What reading accepts is said by a grammar (`Shape.Spells`): a path, and two or three runs of digits
behind its colon. Numerals hold neither colon nor dot nor dash, so a text has at most one shape,
and the reader, which divides a text at its last colon, finds it (`readShape_eq_some_iff`). Whether
the shape stands for a location is a matter of its numbers alone (`ofShape_eq_ok_iff_means`).

Of the order of locations it is needed that it tells any two of them apart, and that none of them
stands both before and behind another.
-/

namespace CrossTag.Location

/-- A location that a text can stand for. -/
structure Writable (l : Location) : Prop where
  path_ne : l.path ≠ ""
  path_oneLine : '\n' ∉ l.path.toList
  line_pos : 1 ≤ l.line
  start_pos : 1 ≤ l.startColumn
  start_lt : l.startColumn < l.endColumn

instance (l : Location) : Decidable l.Writable :=
  decidable_of_iff (l.path ≠ "" ∧ '\n' ∉ l.path.toList ∧ 1 ≤ l.line ∧ 1 ≤ l.startColumn
      ∧ l.startColumn < l.endColumn)
    ⟨fun ⟨hne, hline, hpos, hstart, hlt⟩ => ⟨hne, hline, hpos, hstart, hlt⟩,
      fun h => ⟨h.path_ne, h.path_oneLine, h.line_pos, h.start_pos, h.start_lt⟩⟩

/-! ### Digits -/

theorem isNumeral_digits (n : UInt32) : isNumeral (digits n) = true := by
  have hall : (digits n).all Char.isDigit = true :=
    List.all_eq_true.2 fun c hc => Nat.isDigit_of_mem_toDigits (by decide) (by decide) hc
  have hne : digits n ≠ [] := Nat.toDigits_ne_nil
  simp [isNumeral, hall, hne]

theorem not_mem_digits {n : UInt32} {c : Char} (hc : c.isDigit = false) : c ∉ digits n := by
  intro h
  have hdigit : c.isDigit = true := Nat.isDigit_of_mem_toDigits (by decide) (by decide) h
  rw [hc] at hdigit
  cases hdigit

theorem wordValue?_digits (n : UInt32) : wordValue? (digits n) = some n := by
  have hlt : n.toNat < UInt32.size := n.toNat_lt_size
  simp [wordValue?, digits, hlt]

/-! ### Shapes -/

theorem readNumbers_toChars (path : List Char) (line startColumn endColumn : UInt32) :
    readNumbers path (digits line ++ '.' :: (digits startColumn ++ '-' :: digits endColumn))
      = some ⟨path, digits line, digits startColumn, some (digits endColumn)⟩ := by
  have hdot : Text.splitFirst? '.'
      (digits line ++ '.' :: (digits startColumn ++ '-' :: digits endColumn))
        = some (digits line, digits startColumn ++ '-' :: digits endColumn) :=
    Text.splitFirst?_eq_some_iff.2 ⟨rfl, not_mem_digits (by decide)⟩
  have hdash : Text.splitFirst? '-' (digits startColumn ++ '-' :: digits endColumn)
      = some (digits startColumn, digits endColumn) :=
    Text.splitFirst?_eq_some_iff.2 ⟨rfl, not_mem_digits (by decide)⟩
  simp [readNumbers, hdot, hdash, isNumeral_digits]

/-- The written form is divided at the colon that was put behind the path. -/
theorem splitLast?_toChars (l : Location) :
    Text.splitLast? ':' l.toChars = some (l.path.toList,
      digits l.line ++ '.' :: (digits l.startColumn ++ '-' :: digits l.endColumn)) := by
  refine Text.splitLast?_eq_some_iff.2 ⟨by simp [toChars], ?_⟩
  simp [not_mem_digits]

theorem readShape_toChars {l : Location} (hne : l.path ≠ "") (hline : '\n' ∉ l.path.toList) :
    readShape l.toChars = some ⟨l.path.toList, digits l.line, digits l.startColumn,
      some (digits l.endColumn)⟩ := by
  have hnil : l.path.toList ≠ [] := by simpa using hne
  simp [readShape, splitLast?_toChars, hnil, hline, readNumbers_toChars]

/-- A text with the shape of a location has a path that is not empty and holds no line
feed. -/
theorem path_of_readShape {cs : List Char} {shape : Shape} (h : readShape cs = some shape) :
    shape.path ≠ [] ∧ '\n' ∉ shape.path := by
  have hpath : ∀ {path cs : List Char}, readNumbers path cs = some shape →
      shape.path = path := by
    intro path cs h
    simp only [readNumbers, Option.bind_eq_bind, Option.bind_eq_some_iff, Prod.exists] at h
    obtain ⟨line, columns, -, h⟩ := h
    split at h
    · split at h
      · cases h; rfl
      · cases h
    · split at h
      · cases h; rfl
      · cases h
  simp only [readShape, Option.bind_eq_bind, Option.bind_eq_some_iff, Prod.exists] at h
  obtain ⟨path, numbers, -, h⟩ := h
  split at h
  · cases h
  · rename_i hok
    rw [hpath h]
    simpa using hok

/-! ### Numbers -/

/-- The end of the range that a shape describes: the number given, or one column after the
start. -/
def endValue? (shape : Shape) (startColumn : UInt32) : Option UInt32 :=
  match shape.endColumn with
  | some cs => wordValue? cs
  | none => some (nextColumn startColumn)

theorem ofShape_eq (shape : Shape) :
    ofShape shape = do
      let some line := wordValue? shape.line | throw .line
      let some startColumn := wordValue? shape.startColumn | throw .startColumn
      let some endColumn := endValue? shape startColumn | throw .endColumn
      if line = 0 then throw .lineZero
      if startColumn = 0 then throw .columnZero
      if endColumn ≤ startColumn then throw .emptyRange
      return ⟨String.ofList shape.path, line, startColumn, endColumn⟩ := rfl

/-- Checking the numbers once all of them are known to fit. -/
theorem ofShape_of_values {shape : Shape} {line startColumn endColumn : UInt32}
    (hline : wordValue? shape.line = some line)
    (hstart : wordValue? shape.startColumn = some startColumn)
    (hend : endValue? shape startColumn = some endColumn) :
    ofShape shape =
      if line = 0 then .error .lineZero
      else if startColumn = 0 then .error .columnZero
      else if endColumn ≤ startColumn then .error .emptyRange
      else .ok ⟨String.ofList shape.path, line, startColumn, endColumn⟩ := by
  simp only [ofShape_eq, hline, hstart, hend]
  split
  · rfl
  · split
    · rfl
    · split <;> rfl

/-- A number that does not fit makes no location. -/
theorem exists_values_of_ofShape {shape : Shape} {l : Location} (h : ofShape shape = .ok l) :
    ∃ line startColumn endColumn, wordValue? shape.line = some line
      ∧ wordValue? shape.startColumn = some startColumn
      ∧ endValue? shape startColumn = some endColumn := by
  cases hline : wordValue? shape.line with
  | none =>
    simp only [ofShape_eq, hline] at h
    cases h
  | some line =>
    cases hstart : wordValue? shape.startColumn with
    | none =>
      simp only [ofShape_eq, hline, hstart] at h
      cases h
    | some startColumn =>
      cases hend : endValue? shape startColumn with
      | none =>
        simp only [ofShape_eq, hline, hstart, hend] at h
        cases h
      | some endColumn => exact ⟨line, startColumn, endColumn, rfl, rfl, hend⟩

/-- The numbers of a shape make up a location exactly if all of them fit, line and start are
not zero and the range is not empty. -/
theorem ofShape_eq_ok_iff {shape : Shape} {l : Location} :
    ofShape shape = .ok l ↔
      l.path = String.ofList shape.path ∧ wordValue? shape.line = some l.line
        ∧ wordValue? shape.startColumn = some l.startColumn
        ∧ endValue? shape l.startColumn = some l.endColumn
        ∧ 1 ≤ l.line ∧ 1 ≤ l.startColumn ∧ l.startColumn < l.endColumn := by
  have one_le : ∀ {n : UInt32}, 1 ≤ n ↔ n ≠ 0 := by
    intro n
    rw [UInt32.le_iff_toNat_le, ne_eq, ← UInt32.toNat_inj]
    show 1 ≤ n.toNat ↔ ¬ n.toNat = 0
    omega
  constructor
  · intro h
    obtain ⟨line, startColumn, endColumn, hline, hstart, hend⟩ := exists_values_of_ofShape h
    rw [ofShape_of_values hline hstart hend] at h
    split at h
    · cases h
    · split at h
      · cases h
      · split at h
        · cases h
        · rename_i hl hs hr
          cases h
          exact ⟨rfl, hline, hstart, hend, one_le.2 hl, one_le.2 hs, UInt32.not_le.1 hr⟩
  · rintro ⟨hpath, hline, hstart, hend, hl, hs, hr⟩
    rw [ofShape_of_values hline hstart hend, if_neg (one_le.1 hl), if_neg (one_le.1 hs),
      if_neg (UInt32.not_le.2 hr), ← hpath]

/-! ### Reading what was written -/

/-- Whatever is read is writable. -/
theorem writable_of_parse {text : String} {l : Location} (h : parse text = .ok l) :
    l.Writable := by
  unfold parse at h
  split at h
  · cases h
  · rename_i shape hshape
    cases hl : ofShape shape with
    | error fault => rw [hl] at h; cases h
    | ok l' =>
      rw [hl] at h
      cases h
      obtain ⟨hpath, -, -, -, hline, hstart, hrange⟩ := ofShape_eq_ok_iff.1 hl
      obtain ⟨hne, hfeed⟩ := path_of_readShape hshape
      exact ⟨by simpa [hpath] using hne, by simpa [hpath] using hfeed, hline, hstart, hrange⟩

theorem parse_render {l : Location} (h : l.Writable) : parse l.render = .ok l := by
  have hshape := readShape_toChars h.path_ne h.path_oneLine
  have hl : ofShape ⟨l.path.toList, digits l.line, digits l.startColumn,
      some (digits l.endColumn)⟩ = .ok l :=
    ofShape_eq_ok_iff.2 ⟨by simp, wordValue?_digits _, wordValue?_digits _,
      wordValue?_digits _, h.line_pos, h.start_pos, h.start_lt⟩
  simp only [parse, render, String.toList_ofList, hshape, hl]
  rfl

/-- **A location is read back from its written form exactly if it is writable.** -/
theorem parse_render_iff {l : Location} : parse l.render = .ok l ↔ l.Writable :=
  ⟨writable_of_parse, parse_render⟩

/-! ### The grammar -/

namespace Shape

/-- The end of the range as it is written: a dash and digits, or nothing. -/
def endPart (s : Shape) : List Char :=
  match s.endColumn with
  | some cs => '-' :: cs
  | none => []

/-- The numbers of a shape are runs of digits. -/
structure HasNumerals (s : Shape) : Prop where
  line : isNumeral s.line = true
  startColumn : isNumeral s.startColumn = true
  endColumn : ∀ cs ∈ s.endColumn, isNumeral cs = true

/-- A text of the form `path:line.start` or `path:line.start-end`. -/
structure Spells (s : Shape) (text : String) : Prop extends HasNumerals s where
  parts : text.toList = s.path ++ ':' :: (s.line ++ '.' :: (s.startColumn ++ s.endPart))
  path_ne : s.path ≠ []
  path_oneLine : '\n' ∉ s.path

/-- The number of the column behind the range: the one given, or one after the start. -/
def endNumber (s : Shape) : Nat :=
  match s.endColumn with
  | some cs => Nat.ofDigitChars 10 cs 0
  | none => Nat.ofDigitChars 10 s.startColumn 0 + 1

/-- Numbers that make up a location: all of them fit in a word, line and start count from one,
and the range is not empty. -/
structure InRange (s : Shape) : Prop where
  line_pos : 1 ≤ Nat.ofDigitChars 10 s.line 0
  line_lt : Nat.ofDigitChars 10 s.line 0 < UInt32.size
  start_pos : 1 ≤ Nat.ofDigitChars 10 s.startColumn 0
  start_lt : Nat.ofDigitChars 10 s.startColumn 0 < s.endNumber
  end_lt : s.endNumber < UInt32.size

end Shape

theorem not_mem_of_isNumeral {cs : List Char} (h : isNumeral cs = true) {c : Char}
    (hc : c.isDigit = false) : c ∉ cs := by
  intro hmem
  rw [isNumeral, Bool.and_eq_true, List.all_eq_true] at h
  rw [h.2 c hmem] at hc
  cases hc

/-- What stands behind the colon is divided at the first dot and the first dash, and numerals hold
neither. -/
theorem readNumbers_eq_some_iff {path cs : List Char} {s : Shape} :
    readNumbers path cs = some s ↔
      s.path = path ∧ cs = s.line ++ '.' :: (s.startColumn ++ s.endPart) ∧ s.HasNumerals := by
  obtain ⟨path', line, startColumn, endColumn⟩ := s
  simp only [readNumbers, Option.bind_eq_bind, Option.bind_eq_some_iff, Prod.exists]
  constructor
  · rintro ⟨line', columns, hdot, h⟩
    obtain ⟨rfl, -⟩ := Text.splitFirst?_eq_some_iff.1 hdot
    split at h
    · rename_i startColumn' endColumn' hdash
      obtain ⟨rfl, -⟩ := Text.splitFirst?_eq_some_iff.1 hdash
      split at h
      · rename_i hnumerals
        simp only [Bool.and_eq_true] at hnumerals
        cases h
        exact ⟨rfl, rfl, hnumerals.1.1, hnumerals.1.2, by simpa using hnumerals.2⟩
      · cases h
    · split at h
      · rename_i hnumerals
        rw [Bool.and_eq_true] at hnumerals
        cases h
        exact ⟨rfl, by simp [Shape.endPart], hnumerals.1, hnumerals.2, by simp⟩
      · cases h
  · rintro ⟨rfl, rfl, hnumerals⟩
    refine ⟨line, _, Text.splitFirst?_eq_some_iff.2
      ⟨rfl, not_mem_of_isNumeral hnumerals.line (by decide)⟩, ?_⟩
    have hstart : '-' ∉ startColumn := not_mem_of_isNumeral hnumerals.startColumn (by decide)
    cases endColumn with
    | none =>
      simp only [Shape.endPart, List.append_nil, Text.splitFirst?_eq_none_iff.2 hstart]
      rw [if_pos (by rw [hnumerals.line, hnumerals.startColumn]; rfl)]
    | some endColumn =>
      have hdash : Text.splitFirst? '-' (startColumn ++ '-' :: endColumn)
          = some (startColumn, endColumn) := Text.splitFirst?_eq_some_iff.2 ⟨rfl, hstart⟩
      have hend : isNumeral endColumn = true := hnumerals.endColumn endColumn rfl
      simp only [Shape.endPart, hdash]
      rw [if_pos (by rw [hnumerals.line, hnumerals.startColumn, hend]; rfl)]

/-- The numbers hold no colon, so the colon before them is the last of the text. -/
theorem Shape.HasNumerals.no_colon {s : Shape} (h : s.HasNumerals) :
    ':' ∉ s.line ++ '.' :: (s.startColumn ++ s.endPart) := by
  have hline : ':' ∉ s.line := not_mem_of_isNumeral h.line (by decide)
  have hstart : ':' ∉ s.startColumn := not_mem_of_isNumeral h.startColumn (by decide)
  have hend : ':' ∉ s.endPart := by
    unfold endPart
    split
    · rename_i cs hcs
      simpa using not_mem_of_isNumeral (h.endColumn cs hcs) (by decide)
    · exact List.not_mem_nil
  simp [hline, hstart, hend]

/-- **A text is divided exactly as the grammar says.** -/
theorem readShape_eq_some_iff {text : String} {s : Shape} :
    readShape text.toList = some s ↔ s.Spells text := by
  simp only [readShape, Option.bind_eq_bind, Option.bind_eq_some_iff, Prod.exists]
  constructor
  · rintro ⟨path, numbers, hcolon, h⟩
    obtain ⟨hparts, -⟩ := Text.splitLast?_eq_some_iff.1 hcolon
    split at h
    · cases h
    · rename_i hpath
      obtain ⟨rfl, rfl, hnumerals⟩ := readNumbers_eq_some_iff.1 h
      rw [Bool.or_eq_true, not_or, List.isEmpty_iff, List.contains_iff_mem] at hpath
      exact ⟨hnumerals, hparts, hpath.1, hpath.2⟩
  · intro h
    refine ⟨s.path, _, Text.splitLast?_eq_some_iff.2 ⟨h.parts, h.no_colon⟩, ?_⟩
    rw [if_neg (by simp [h.path_ne, h.path_oneLine])]
    exact readNumbers_eq_some_iff.2 ⟨rfl, rfl, h.toHasNumerals⟩

theorem wordValue?_eq_some_iff {cs : List Char} {n : UInt32} :
    wordValue? cs = some n ↔ n.toNat = Nat.ofDigitChars 10 cs 0 := by
  have hsize : n.toNat < UInt32.size := n.toNat_lt_size
  simp only [wordValue?]
  split
  · rename_i hlt
    rw [Option.some.injEq, ← UInt32.toNat_inj, UInt32.toNat_ofNat_of_lt' hlt, eq_comm]
  · rename_i hge
    constructor
    · intro h
      cases h
    · omega

/-- The column after the last one does not count as a column. -/
theorem nextColumn_eq_iff {n m : UInt32} (h : n < m) :
    nextColumn n = m ↔ m.toNat = n.toNat + 1 := by
  rw [UInt32.lt_iff_toNat_lt] at h
  have hsize : m.toNat < UInt32.size := m.toNat_lt_size
  have hlt : n.toNat + 1 < UInt32.size := by omega
  rw [nextColumn, if_pos hlt, ← UInt32.toNat_inj, UInt32.toNat_add]
  have hmod : (n.toNat + UInt32.toNat 1) % 2 ^ 32 = n.toNat + 1 := Nat.mod_eq_of_lt hlt
  rw [hmod, eq_comm]

theorem endValue?_eq_some_iff {s : Shape} {startColumn endColumn : UInt32}
    (hstart : startColumn.toNat = Nat.ofDigitChars 10 s.startColumn 0)
    (hlt : startColumn < endColumn) :
    endValue? s startColumn = some endColumn ↔ endColumn.toNat = s.endNumber := by
  cases hend : s.endColumn with
  | some cs =>
    simp only [endValue?, Shape.endNumber, hend]
    exact wordValue?_eq_some_iff
  | none =>
    simp only [endValue?, Shape.endNumber, hend]
    rw [Option.some.injEq, nextColumn_eq_iff hlt, hstart]

/-- The location that a shape stands for, with its numbers as numbers. -/
structure Shape.Means (s : Shape) (l : Location) : Prop where
  path : l.path = String.ofList s.path
  line : l.line.toNat = Nat.ofDigitChars 10 s.line 0
  startColumn : l.startColumn.toNat = Nat.ofDigitChars 10 s.startColumn 0
  endColumn : l.endColumn.toNat = s.endNumber

theorem ofShape_eq_ok_iff_means {s : Shape} {l : Location} :
    ofShape s = .ok l ↔ s.InRange ∧ s.Means l := by
  have one_le : ∀ {n : UInt32}, 1 ≤ n ↔ 1 ≤ n.toNat := UInt32.le_iff_toNat_le
  rw [ofShape_eq_ok_iff]
  constructor
  · rintro ⟨hpath, hline, hstart, hend, hline_pos, hstart_pos, hlt⟩
    rw [wordValue?_eq_some_iff] at hline hstart
    rw [endValue?_eq_some_iff hstart hlt] at hend
    rw [one_le] at hline_pos hstart_pos
    rw [UInt32.lt_iff_toNat_lt] at hlt
    have hline_lt := l.line.toNat_lt_size
    have hend_lt := l.endColumn.toNat_lt_size
    exact ⟨⟨by omega, by omega, by omega, by omega, by omega⟩, hpath, hline, hstart, hend⟩
  · rintro ⟨hrange, hpath, hline, hstart, hend⟩
    have hlt : l.startColumn < l.endColumn := by
      rw [UInt32.lt_iff_toNat_lt, hstart, hend]
      exact hrange.start_lt
    refine ⟨hpath, wordValue?_eq_some_iff.2 hline, wordValue?_eq_some_iff.2 hstart,
      (endValue?_eq_some_iff hstart hlt).2 hend, ?_, ?_, hlt⟩
    · rw [one_le, hline]
      exact hrange.line_pos
    · rw [one_le, hstart]
      exact hrange.start_pos

/-- Numbers in range make up a location. -/
theorem Shape.InRange.exists_means {s : Shape} (h : s.InRange) : ∃ l, s.Means l := by
  have hword : ∀ n < UInt32.size, (UInt32.ofNat n).toNat = n := fun n hn =>
    UInt32.toNat_ofNat_of_lt' hn
  have hstart : Nat.ofDigitChars 10 s.startColumn 0 < UInt32.size :=
    Nat.lt_trans h.start_lt h.end_lt
  exact ⟨⟨String.ofList s.path, UInt32.ofNat (Nat.ofDigitChars 10 s.line 0),
    UInt32.ofNat (Nat.ofDigitChars 10 s.startColumn 0), UInt32.ofNat s.endNumber⟩,
    rfl, hword _ h.line_lt, hword _ hstart, hword _ h.end_lt⟩

/-- **Reading accepts exactly the grammar.** A text is malformed exactly if it is neither of the
form `path:line.start` nor of the form `path:line.start-end`. If it has this form, then the path is
what stands before the last colon; if the numbers are in range, the location with these parts is
read, and otherwise a number is out of range. Whatever location is read, it is read back from its
written form. -/
theorem parse_grammar (text : String) :
    ((∃ quoted, parse text = .error (.malformed quoted)) ↔ ∀ s : Shape, ¬ s.Spells text)
      ∧ (∀ s : Shape, s.Spells text →
          (∃ numbers, text.toList = s.path ++ ':' :: numbers ∧ ':' ∉ numbers)
            ∧ (s.InRange → ∃ l, parse text = .ok l ∧ s.Means l)
            ∧ (¬ s.InRange → ∃ fault, parse text = .error (.outOfRange text fault)))
      ∧ ∀ l, parse text = .ok l → parse l.render = .ok l := by
  refine ⟨?_, ?_, fun l h => parse_render (writable_of_parse h)⟩
  · constructor
    · rintro ⟨quoted, h⟩ s hs
      rw [parse, readShape_eq_some_iff.2 hs] at h
      cases hl : ofShape s with
      | ok l =>
        simp only [hl] at h
        cases h
      | error fault =>
        simp only [hl] at h
        cases h
    · intro h
      cases hshape : readShape text.toList with
      | none => exact ⟨text, by rw [parse, hshape]⟩
      | some s => exact absurd (readShape_eq_some_iff.1 hshape) (h s)
  · intro s hs
    have hparse : parse text = (ofShape s).mapError (.outOfRange text) := by
      rw [parse, readShape_eq_some_iff.2 hs]
    refine ⟨⟨_, hs.parts, hs.no_colon⟩, ?_, ?_⟩
    · intro hrange
      obtain ⟨l, hmeans⟩ := hrange.exists_means
      refine ⟨l, ?_, hmeans⟩
      rw [hparse, ofShape_eq_ok_iff_means.2 ⟨hrange, hmeans⟩]
      rfl
    · intro hrange
      cases hl : ofShape s with
      | ok l => exact absurd (ofShape_eq_ok_iff_means.1 hl).1 hrange
      | error fault =>
        refine ⟨fault, ?_⟩
        rw [hparse, hl]
        rfl

example : (parse "C:x.rs:007.2-9").toOption = some ⟨"C:x.rs", 7, 2, 9⟩ := by decide +kernel

/-! ### Order -/

instance : LT Location := ltOfOrd

instance (a b : Location) : Decidable (a < b) :=
  inferInstanceAs (Decidable (compare a b = .lt))

/-- Locations that no part of the order tells apart are equal. -/
instance : Std.LawfulEqOrd Location where
  eq_of_compare := by
    rintro ⟨path, line, startColumn, endColumn⟩ ⟨path', line', startColumn', endColumn'⟩ h
    change cmp _ _ = .eq at h
    simp only [cmp, compareLex_eq_eq, compareOn, Std.compare_eq_iff_eq] at h
    obtain ⟨rfl, rfl, rfl, rfl⟩ := h
    rfl

theorem lt_of_le_of_ne {a b : Location} (hle : a.le b = true) (hne : a ≠ b) : a < b := by
  rcases Ordering.isLE_iff_eq_lt_or_eq_eq.1 hle with hlt | heq
  · exact hlt
  · exact absurd (Std.LawfulEqCmp.eq_of_compare heq) hne

theorem not_lt_of_le {a b : Location} (h : a.le b = true) : ¬ b < a := by
  intro hlt
  have hgt : compare a b = .gt := Std.OrientedCmp.gt_iff_lt.2 hlt
  rw [le, hgt] at h
  cases h

theorem le_of_lt {a b : Location} (h : a < b) : a.le b = true :=
  Ordering.isLE_iff_eq_lt_or_eq_eq.2 (.inl h)

theorem lt_asymm {a b : Location} (h : a < b) : ¬ b < a :=
  not_lt_of_le (le_of_lt h)

theorem lt_irrefl (a : Location) : ¬ a < a :=
  fun h => lt_asymm h h

theorem le_refl (a : Location) : a.le a = true := by
  rw [le, Std.ReflOrd.compare_self]
  rfl

theorem le_trans (a b c : Location) (hab : a.le b = true) (hbc : b.le c = true) :
    a.le c = true :=
  Std.TransCmp.isLE_trans hab hbc

theorem le_total (a b : Location) : (a.le b || b.le a) = true := by
  have h : compare b a = (compare a b).swap := Std.OrientedCmp.eq_swap
  cases hab : compare a b <;> simp [le, h, hab]

theorem le_antisymm {a b : Location} (hab : a.le b = true) (hba : b.le a = true) : a = b :=
  Std.LawfulEqCmp.eq_of_compare (Std.OrientedCmp.isLE_antisymm hab hba)

/-- Of two places with the same numbers, the one with the smaller path comes first. -/
theorem le_of_path_le {path : String} {l : Location} (h : (compare path l.path).isLE = true) :
    ({ l with path := path } : Location).le l = true := by
  show (cmp { l with path := path } l).isLE = true
  simpa [cmp, compareLex, compareOn] using h

theorem lt_of_line_lt {a b : Location} (hpath : a.path = b.path) (h : a.line < b.line) :
    a < b := by
  have hline : compare a.line b.line = .lt := Std.compare_eq_lt.2 h
  show cmp a b = .lt
  simp [cmp, compareLex, compareOn, hpath, hline]

theorem lt_of_startColumn_lt {a b : Location} (hpath : a.path = b.path) (hline : a.line = b.line)
    (h : a.startColumn < b.startColumn) : a < b := by
  have hstart : compare a.startColumn b.startColumn = .lt := Std.compare_eq_lt.2 h
  show cmp a b = .lt
  simp [cmp, compareLex, compareOn, hpath, hline, hstart]

end CrossTag.Location
