/-!
# Blank characters

A character is blank if it has the Unicode property White_Space: the ASCII blanks from
tab to carriage return and the space, the next-line control, and the spaces and separators
above ASCII. Words in a tag, fields in a record and the ends of a bracketed text are all
delimited by this one set. The zero-width characters U+200B and U+FEFF and the Mongolian
vowel separator are not in it.

Beside the predicate stands trimming, which removes blanks from both ends of a text.
-/

namespace CrossTag.Text

/-- The characters with the property White_Space. -/
def isBlank (c : Char) : Bool :=
  let n := c.toNat
  (9 ≤ n && n ≤ 13) || n == 0x20 || n == 0x85 || n == 0xA0 || n == 0x1680
    || (0x2000 ≤ n && n ≤ 0x200A) || n == 0x2028 || n == 0x2029 || n == 0x202F
    || n == 0x205F || n == 0x3000

/-- Removes the blanks a text starts with. -/
def trimStart (cs : List Char) : List Char :=
  cs.dropWhile isBlank

/-- Removes the blanks a text ends with. -/
def trimEnd (cs : List Char) : List Char :=
  (cs.reverse.dropWhile isBlank).reverse

/-- Removes the blanks at both ends. -/
def trim (cs : List Char) : List Char :=
  trimEnd (trimStart cs)

/-! ### Trimming and blank ends -/

/-- A trimmed text does not start with a blank. -/
theorem trimStart_head {cs : List Char} {c : Char} {rest : List Char}
    (h : trimStart cs = c :: rest) : isBlank c = false := by
  have hne : cs.dropWhile isBlank ≠ [] := by
    intro hnil
    simp [trimStart, hnil] at h
  have := List.head_dropWhile_not isBlank hne
  simp only [trimStart] at h
  simpa [h] using this

/-- A text that starts with no blank keeps its start. -/
theorem trimStart_cons_of_not_blank {c : Char} {cs : List Char} (h : isBlank c = false) :
    trimStart (c :: cs) = c :: cs := by
  simp [trimStart, h]

end CrossTag.Text
