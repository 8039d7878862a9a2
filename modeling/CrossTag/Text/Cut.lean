/-!
# Cutting texts

Texts are cut in four ways: a given start is taken off, a text is divided at the first or
at the last occurrence of a character, or at the first occurrence of a delimiter of
several characters. Each cut returns the two parts around the delimiter, and `none` if
there is no delimiter, so that putting the parts and the delimiter together again gives
back the text.
-/

namespace CrossTag.Text

/-- Takes `start` off the front of a text. -/
def dropStart? : (start : List Char) → List Char → Option (List Char)
  | [], cs => some cs
  | _ :: _, [] => none
  | p :: ps, c :: cs => if p = c then dropStart? ps cs else none

/-- Divides a text at the first `sep`. -/
def splitFirst? (sep : Char) : List Char → Option (List Char × List Char)
  | [] => none
  | c :: cs =>
    if c = sep then some ([], cs)
    else (splitFirst? sep cs).map fun (before, after) => (c :: before, after)

/-- Divides a text at the last `sep`. -/
def splitLast? (sep : Char) : List Char → Option (List Char × List Char)
  | [] => none
  | c :: cs =>
    match splitLast? sep cs with
    | some (before, after) => some (c :: before, after)
    | none => if c = sep then some ([], cs) else none

/-- Divides a text at the first occurrence of `delimiter`. -/
def cutAt? (delimiter : List Char) : List Char → Option (List Char × List Char)
  | [] => (dropStart? delimiter []).map fun rest => ([], rest)
  | c :: cs =>
    match dropStart? delimiter (c :: cs) with
    | some rest => some ([], rest)
    | none => (cutAt? delimiter cs).map fun (before, after) => (c :: before, after)

/-! ### The parts make up the text -/

theorem dropStart?_eq_some_iff {start cs rest : List Char} :
    dropStart? start cs = some rest ↔ cs = start ++ rest := by
  induction start generalizing cs with
  | nil => simp [dropStart?, eq_comm]
  | cons p ps ih =>
    cases cs with
    | nil => simp [dropStart?]
    | cons c cs =>
      by_cases h : p = c
      · simp [dropStart?, h, ih]
      · simp [dropStart?, h, Ne.symm h]

theorem eq_of_splitFirst?_eq_some {sep : Char} {cs before after : List Char}
    (h : splitFirst? sep cs = some (before, after)) : cs = before ++ sep :: after := by
  induction cs generalizing before with
  | nil => simp [splitFirst?] at h
  | cons c cs ih =>
    by_cases hc : c = sep
    · simp [splitFirst?, hc] at h
      simp [hc, ← h.1, h.2]
    · simp only [splitFirst?, hc, if_false, Option.map_eq_some_iff, Prod.exists] at h
      obtain ⟨b, a, hcut, heq⟩ := h
      cases heq
      simp [ih hcut]

/-- What follows the first `sep` is shorter than the text. -/
theorem length_after_splitFirst? {sep : Char} {cs before after : List Char}
    (h : splitFirst? sep cs = some (before, after)) : after.length < cs.length := by
  rw [eq_of_splitFirst?_eq_some h]
  simp
  omega

theorem eq_of_cutAt?_eq_some {delimiter cs before after : List Char}
    (h : cutAt? delimiter cs = some (before, after)) :
    cs = before ++ delimiter ++ after := by
  induction cs generalizing before with
  | nil =>
    simp only [cutAt?, Option.map_eq_some_iff] at h
    obtain ⟨rest, hrest, heq⟩ := h
    cases heq
    simpa using dropStart?_eq_some_iff.1 hrest
  | cons c cs ih =>
    simp only [cutAt?] at h
    split at h
    · rename_i rest hrest
      cases h
      simpa using dropStart?_eq_some_iff.1 hrest
    · simp only [Option.map_eq_some_iff, Prod.exists] at h
      obtain ⟨b, a, hcut, heq⟩ := h
      cases heq
      simp [ih hcut]

/-- What follows the delimiter is no longer than the text. -/
theorem length_after_cutAt? {delimiter cs before after : List Char}
    (h : cutAt? delimiter cs = some (before, after)) : after.length ≤ cs.length := by
  rw [eq_of_cutAt?_eq_some h]
  simp
  omega

end CrossTag.Text
