import CrossTag.Index.Reader
import CrossTag.Proofs.Outcome
import CrossTag.Proofs.Text
import CrossTag.Proofs.Utf8
import Mathlib.Data.List.Forall2
import Mathlib.Data.List.TakeWhile

/-!
# What is read of an index

The lines of a text that are not blank decide what is read of it. They are collected first
(`filledLines`), trimmed and with their numbers:

    the first   has to be a header
    the others  are read as records, up to the first that is none (`readRecords`)

`readText_eq` says that reading line by line, with its counter and its flag for the header, comes to
that. A blank line has no part in it but for the numbers of the lines behind it (`readFilled_map`).

A reader that hands out the entries one by one agrees with this, call by call. What it is still to
hand out is known from its state (`left`); a call hands out the first of that and leaves the others
(`next_eq`), so the calls go through it in order and find nothing behind its end (`answer_eq`).
-/

namespace CrossTag

/-! ### Blank lines -/

theorem Text.trim_isEmpty (line : List Char) :
    (Text.trim line).isEmpty = line.all Text.isBlank := by
  cases hstart : Text.trimStart line with
  | nil =>
    have hblank : ∀ c ∈ line, Text.isBlank c = true := List.dropWhile_eq_nil_iff.1 hstart
    rw [Text.trim, hstart, List.all_eq_true.2 hblank]
    rfl
  | cons c rest =>
    have hc : Text.isBlank c = false := Text.trimStart_head hstart
    have hmem : c ∈ line := (List.dropWhile_suffix _).subset (hstart ▸ List.mem_cons_self)
    have hsome : line.all Text.isBlank = false := by
      rw [List.all_eq_false]
      exact ⟨c, hmem, by rw [hc]; exact Bool.false_ne_true⟩
    have htrim : Text.trim line = c :: Text.trimEnd rest := by
      have hend := @Text.trimEnd_append [] c hc rest
      rw [Text.trim, hstart]
      exact hend
    rw [htrim, hsome]
    rfl

/-- A fault without the number of its line. -/
def IndexFault.unnumbered : IndexFault → IndexFault
  | .malformedRecord _ reason => .malformedRecord 0 reason
  | fault => fault

namespace Index

/-- The lines that are not blank, trimmed and with their numbers; `number` is that of the first
line. -/
def filled (number : Nat) (lines : List (List Char)) : List (Nat × List Char) :=
  ((lines.zipIdx number).filter fun p => !p.1.all Text.isBlank).map fun p => (p.2, Text.trim p.1)

/-- The lines of a text that are not blank. -/
def filledLines (text : String) : List (Nat × List Char) :=
  filled 1 (text.toList.splitOn '\n')

theorem filled_cons_of_blank {number : Nat} {line : List Char} {lines : List (List Char)}
    (h : (Text.trim line).isEmpty = true) :
    filled number (line :: lines) = filled (number + 1) lines := by
  rw [Text.trim_isEmpty] at h
  simp [filled, List.zipIdx_cons, h]

theorem filled_cons_of_filled {number : Nat} {line : List Char} {lines : List (List Char)}
    (h : ¬ (Text.trim line).isEmpty = true) :
    filled number (line :: lines) = (number, Text.trim line) :: filled (number + 1) lines := by
  rw [Text.trim_isEmpty, Bool.not_eq_true] at h
  simp [filled, List.zipIdx_cons, h]

/-- The texts of the lines that are not blank do not depend on the others. -/
theorem map_filled (number : Nat) (lines : List (List Char)) :
    (filled number lines).map (·.2)
      = (lines.filter fun line => !line.all Text.isBlank).map Text.trim := by
  induction lines generalizing number with
  | nil => rfl
  | cons line lines ih =>
    by_cases hblank : line.all Text.isBlank = true
    · have hempty : (Text.trim line).isEmpty = true := by rw [Text.trim_isEmpty, hblank]
      rw [filled_cons_of_blank hempty, ih, List.filter_cons_of_neg (by simpa using hblank)]
    · have hne : ¬ (Text.trim line).isEmpty = true := by rw [Text.trim_isEmpty]; exact hblank
      rw [filled_cons_of_filled hne, List.map_cons, ih,
        List.filter_cons_of_pos (by simpa using hblank), List.map_cons]

/-! ### Headers and records -/

/-- A header is the version marker, alone or with a space behind it. -/
theorem isHeader_iff {line : List Char} :
    isHeader line = true ↔
      line = versionMarker.toList ∨ (versionMarker ++ " ").toList <+: line := by
  have hmarker : (versionMarker ++ " ").toList = versionMarker.toList ++ [' '] := by
    rw [String.toList_append]
    rfl
  rw [isHeader, hmarker]
  constructor
  · intro h
    split at h
    · rename_i hdrop
      left
      rw [Text.dropStart?_eq_some_iff.1 hdrop, List.append_nil]
    · rename_i c rest hdrop
      right
      rw [Text.dropStart?_eq_some_iff.1 hdrop, beq_iff_eq.1 h]
      exact ⟨rest, by simp⟩
    · cases h
  · rintro (rfl | ⟨rest, rfl⟩)
    · have hdrop : Text.dropStart? versionMarker.toList versionMarker.toList = some [] :=
        Text.dropStart?_eq_some_iff.2 (List.append_nil _).symm
      rw [hdrop]
    · have hdrop : Text.dropStart? versionMarker.toList (versionMarker.toList ++ [' '] ++ rest)
          = some (' ' :: rest) := Text.dropStart?_eq_some_iff.2 (by simp)
      rw [hdrop]
      rfl

/-- Records up to the first line that is none. -/
def readRecords : List (Nat × List Char) → Reading
  | [] => ⟨[], none⟩
  | (number, line) :: rest =>
    match Record.decode (String.ofList line) with
    | .error reason => ⟨[], some (.malformedRecord number reason)⟩
    | .ok entry => ⟨entry :: (readRecords rest).entries, (readRecords rest).fault⟩

/-- A header and records. -/
def readFilled : List (Nat × List Char) → Reading
  | [] => ⟨[], some .missingVersionMarker⟩
  | (_, line) :: rest =>
    if isHeader line then readRecords rest else ⟨[], some .missingVersionMarker⟩

theorem readLines_headed (number : Nat) (lines : List (List Char)) :
    readLines true number (lines.map some) = readRecords (filled number lines) := by
  induction lines generalizing number with
  | nil => rfl
  | cons line lines ih =>
    rw [List.map_cons, readLines]
    by_cases hempty : (Text.trim line).isEmpty = true
    · rw [filled_cons_of_blank hempty]
      simp only [if_pos hempty]
      exact ih (number + 1)
    · rw [filled_cons_of_filled hempty, readRecords]
      cases Record.decode (String.ofList (Text.trim line)) with
      | error reason => simp only [if_neg hempty, if_true]
      | ok entry => simp only [if_neg hempty, if_true, ih]

theorem readLines_unheaded (number : Nat) (lines : List (List Char)) :
    readLines false number (lines.map some) = readFilled (filled number lines) := by
  induction lines generalizing number with
  | nil => rfl
  | cons line lines ih =>
    rw [List.map_cons, readLines]
    by_cases hempty : (Text.trim line).isEmpty = true
    · rw [filled_cons_of_blank hempty]
      simp only [if_pos hempty]
      exact ih (number + 1)
    · rw [filled_cons_of_filled hempty, readFilled]
      simp only [if_neg hempty, Bool.false_eq_true, if_false, readLines_headed]

/-- **Reading a text comes to reading its lines that are not blank.** -/
theorem readText_eq (text : String) : readText text = readFilled (filledLines text) :=
  readLines_unheaded 1 _

/-- The records before the first line that is none are read one by one, and that line is the
fault. -/
theorem readRecords_spec (records : List (Nat × List Char)) :
    ∃ front back, records = front ++ back
      ∧ List.Forall₂ (fun p e => Record.decode (String.ofList p.2) = .ok e) front
          (readRecords records).entries
      ∧ (back = [] ∧ (readRecords records).fault = none
        ∨ ∃ number line rest reason, back = (number, line) :: rest
          ∧ Record.decode (String.ofList line) = .error reason
          ∧ (readRecords records).fault = some (.malformedRecord number reason)) := by
  induction records with
  | nil => exact ⟨[], [], rfl, .nil, .inl ⟨rfl, rfl⟩⟩
  | cons p records ih =>
    obtain ⟨number, line⟩ := p
    cases hdecode : Record.decode (String.ofList line) with
    | error reason =>
      refine ⟨[], (number, line) :: records, rfl, ?_, .inr ⟨number, line, records, reason, rfl,
        hdecode, ?_⟩⟩
      · rw [readRecords, hdecode]
        exact .nil
      · rw [readRecords, hdecode]
    | ok entry =>
      obtain ⟨front, back, hparts, hentries, hback⟩ := ih
      rw [readRecords, hdecode]
      exact ⟨(number, line) :: front, back, by rw [hparts]; rfl, .cons hdecode hentries, hback⟩

/-! ### Numbers of lines -/

/-- Lines with the same texts are read alike, but for the number of the line that is no record. -/
theorem readRecords_map {records records' : List (Nat × List Char)}
    (h : records'.map (·.2) = records.map (·.2)) :
    (readRecords records').entries = (readRecords records).entries
      ∧ (readRecords records').fault.map IndexFault.unnumbered
        = (readRecords records).fault.map IndexFault.unnumbered := by
  induction records generalizing records' with
  | nil =>
    rw [List.map_nil, List.map_eq_nil_iff] at h
    rw [h]
    exact ⟨rfl, rfl⟩
  | cons p records ih =>
    obtain ⟨number, line⟩ := p
    obtain ⟨⟨number', line'⟩, records', rfl, hline, hrecords⟩ := List.map_eq_cons_iff.1 h
    cases hline
    obtain ⟨hentries, hfault⟩ := ih hrecords
    rw [readRecords, readRecords]
    cases Record.decode (String.ofList line) with
    | error reason => exact ⟨rfl, rfl⟩
    | ok entry => exact ⟨congrArg (entry :: ·) hentries, hfault⟩

theorem readFilled_map {lines lines' : List (Nat × List Char)}
    (h : lines'.map (·.2) = lines.map (·.2)) :
    (readFilled lines').entries = (readFilled lines).entries
      ∧ (readFilled lines').fault.map IndexFault.unnumbered
        = (readFilled lines).fault.map IndexFault.unnumbered := by
  cases lines with
  | nil =>
    rw [List.map_nil, List.map_eq_nil_iff] at h
    rw [h]
    exact ⟨rfl, rfl⟩
  | cons p lines =>
    obtain ⟨number, line⟩ := p
    obtain ⟨⟨number', line'⟩, lines', rfl, hline, hlines⟩ := List.map_eq_cons_iff.1 h
    cases hline
    rw [readFilled, readFilled]
    split
    · exact readRecords_map hlines
    · exact ⟨rfl, rfl⟩

/-! ### Entry by entry -/

/-- What a reading hands out: its entries, and then its fault. -/
def Reading.items (reading : Reading) : List (Except IndexFault Entry) :=
  reading.entries.map .ok ++ reading.fault.toList.map .error

namespace Reader

/-- What a reader is still to hand out. -/
def left (r : Reader) : List (Except IndexFault Entry) :=
  if r.failed then [] else (readLines r.headed (r.number + 1) r.rest).items

theorem advance_eq (headed : Bool) (number : Nat) (lines : List (Option (List Char))) :
    (advance headed number lines).1 = (readLines headed (number + 1) lines).items.head?
      ∧ (advance headed number lines).2.left
        = (readLines headed (number + 1) lines).items.tail := by
  fun_induction advance headed number lines with
  | case1 number => exact ⟨rfl, rfl⟩
  | case2 number => exact ⟨rfl, rfl⟩
  | case3 headed number rest =>
    rw [readLines]
    exact ⟨rfl, rfl⟩
  | case4 headed number line rest text hempty ih =>
    rw [readLines]
    simp only [text] at hempty
    simp only [if_pos hempty]
    exact ih
  | case5 number line rest text hne reason hdecode =>
    rw [readLines]
    simp only [text] at hne hdecode
    simp only [if_neg hne, hdecode, if_true]
    exact ⟨rfl, rfl⟩
  | case6 number line rest text hne entry hdecode =>
    rw [readLines]
    simp only [text] at hne hdecode
    simp only [if_neg hne, hdecode, if_true]
    exact ⟨rfl, rfl⟩
  | case7 headed number line rest text hne hheaded hheader ih =>
    rw [readLines]
    simp only [text] at hne hheader
    simp only [if_neg hne, if_neg hheaded, if_pos hheader]
    exact ih
  | case8 headed number line rest text hne hheaded hheader =>
    rw [readLines]
    simp only [text] at hne hheader
    simp only [if_neg hne, if_neg hheaded, if_neg hheader]
    exact ⟨rfl, rfl⟩

/-- **A call hands out the first of what is left, and leaves the others.** -/
theorem next_eq (r : Reader) : r.next.1 = r.left.head? ∧ r.next.2.left = r.left.tail := by
  cases hfailed : r.failed with
  | true =>
    rw [next, left, hfailed]
    simp [left, hfailed]
  | false =>
    rw [next, left, hfailed]
    exact advance_eq r.headed r.number r.rest

theorem answer_eq (r : Reader) (n : Nat) : r.answer n = r.left[n]? := by
  induction n generalizing r with
  | zero =>
    rw [answer, r.next_eq.1, List.head?_eq_getElem?]
  | succ n ih => rw [answer, ih, r.next_eq.2, List.getElem?_tail]

end Reader

/-- Bytes are handed out as they are read. -/
theorem answer_ofBytes (bytes : Bytes) (n : Nat) :
    (Reader.ofBytes bytes).answer n = (readBytes bytes).items[n]? := by
  rw [Reader.answer_eq]
  rfl

theorem readBytes_ofString (text : String) :
    readBytes (Bytes.ofString text) = readText text := by
  have hlines : (Bytes.ofString text).splitOn 10
      = (text.toList.splitOn '\n').map Text.encode :=
    Text.splitOn_encode (by decide) (by decide) text.toList
  rw [readBytes, readText, hlines, List.map_map]
  exact congrArg _ (List.map_congr_left fun line _ => Text.decode?_encode line)

/-! ### The format -/

/-- **What is read of a text.** If the first line that is not blank is no header, or all lines are
blank, then the version marker is missing and nothing else is handed out. Otherwise the lines
behind the header that are not blank are records: those before the first that cannot be read are
handed out as entries, in order, and that one as a fault with the number of its line. In either
case nothing is handed out after that, however often a reader is called. The text stands for the
index of the entries if there is no fault, and otherwise for the fault. Texts that differ in blank
lines only are read alike, but for the number of a line that cannot be read. -/
theorem readText_format (text : String) :
    ((∀ number line rest, filledLines text = (number, line) :: rest →
          ¬ (line = versionMarker.toList ∨ (versionMarker ++ " ").toList <+: line)) →
        readText text = ⟨[], some .missingVersionMarker⟩)
      ∧ (∀ number line records, filledLines text = (number, line) :: records →
          (line = versionMarker.toList ∨ (versionMarker ++ " ").toList <+: line) →
          ∃ front back, records = front ++ back
            ∧ List.Forall₂ (fun p e => Record.decode (String.ofList p.2) = .ok e) front
                (readText text).entries
            ∧ (back = [] ∧ (readText text).fault = none
              ∨ ∃ number line rest reason, back = (number, line) :: rest
                ∧ Record.decode (String.ofList line) = .error reason
                ∧ (readText text).fault = some (.malformedRecord number reason)))
      ∧ (∀ n, (Reader.ofBytes (Bytes.ofString text)).answer n
          = ((readText text).entries.map Except.ok
              ++ (readText text).fault.toList.map Except.error)[n]?)
      ∧ (∀ index, deserialize text = .ok index ↔
          (readText text).fault = none ∧ index = ofList (readText text).entries)
      ∧ (∀ fault, deserialize text = .error fault ↔ (readText text).fault = some fault)
      ∧ ∀ text' : String,
          (text'.toList.splitOn '\n').filter (fun line => !line.all Text.isBlank)
            = (text.toList.splitOn '\n').filter (fun line => !line.all Text.isBlank) →
          (readText text').entries = (readText text).entries
            ∧ (readText text').fault.map IndexFault.unnumbered
              = (readText text).fault.map IndexFault.unnumbered := by
  refine ⟨?_, ?_, ?_, ?_, ?_, ?_⟩
  · intro h
    rw [readText_eq]
    cases hlines : filledLines text with
    | nil => rfl
    | cons p rest =>
      obtain ⟨number, line⟩ := p
      rw [readFilled, if_neg fun hheader => h number line rest hlines (isHeader_iff.1 hheader)]
  · intro number line records hlines hheader
    rw [readText_eq, hlines, readFilled, if_pos (isHeader_iff.2 hheader)]
    exact readRecords_spec records
  · intro n
    rw [answer_ofBytes, readBytes_ofString]
    rfl
  · intro index
    rw [deserialize, Reading.toIndex]
    cases (readText text).fault with
    | none => simp [eq_comm]
    | some fault => simp
  · intro fault
    rw [deserialize, Reading.toIndex]
    cases (readText text).fault with
    | none => simp
    | some fault' => simp
  · intro text' hfilled
    rw [readText_eq, readText_eq]
    refine readFilled_map ?_
    rw [filledLines, filledLines, map_filled, map_filled, hfilled]

end Index

end CrossTag
