import CrossTag.Proofs.Scan

/-!
# How lines end

A line ends in a line feed, or in a carriage return and a line feed, and the last line of a file may
end with the file:

    content              lines
    a ↵ b ↵ c            a, b, c      the last line ends with the file
    a ⏎↵ b ↵ c ↵         a, b, c      a return before a feed belongs to the end of the line
    ↵                    (empty)      an empty line, which holds no bracket

Two contents have the same lines if they are made up of the same lines, each ended in its own way
(`SameLines`). One line that is ended comes off the front of a content as it is (`lines_ended`), so
the lines of both contents have the same numbers and hold the same elements
(`SameLines.elementsOf_eq`). Pragmas are carried out on these elements, so both contents are scanned
alike. The lines themselves differ if a feed is put into an empty file.

A content without returns has the same lines if all its feeds are written with returns
(`sameLines_withReturns`), and if a feed is put at its end (`sameLines_closed`).
-/

namespace CrossTag

namespace Scan

/-- How a line ends. -/
inductive LineEnd
  | feed
  | returnFeed
deriving DecidableEq, Repr

/-- The bytes at the end of a line. -/
def LineEnd.bytes : LineEnd → Bytes
  | feed => [10]
  | returnFeed => [13, 10]

/-- A line that is not changed by the end that is put behind it. -/
structure IsLine (line : Bytes) : Prop where
  no_feed : 10 ∉ line
  no_return : line.getLast? ≠ some 13

/-- The second content is made up of the lines of the first, each of them ended in its own way. The
last line may be ended in the second one only. -/
inductive SameLines : Bytes → Bytes → Prop
  | last (line : Bytes) : 10 ∉ line → SameLines line line
  | closed {line : Bytes} (e : LineEnd) : IsLine line → SameLines line (line ++ e.bytes)
  | ended {line rest rest' : Bytes} (e e' : LineEnd) : IsLine line → SameLines rest rest' →
      SameLines (line ++ e.bytes ++ rest) (line ++ e'.bytes ++ rest')

/-! ### Lines and their ends -/

section Line

variable {line : Bytes}

theorem dropReturn_of_isLine (h : IsLine line) : dropReturn line = line := by
  rw [dropReturn_eq, if_neg h.no_return]

theorem dropReturn_concat (line : Bytes) : dropReturn (line ++ [13]) = line := by
  rw [dropReturn_eq, List.getLast?_concat, if_pos rfl, List.dropLast_concat]

theorem linesOf_cons (piece : Bytes) {pieces : List Bytes} (h : pieces ≠ []) :
    linesOf (piece :: pieces) = dropReturn piece :: linesOf pieces := by
  obtain ⟨next, pieces, rfl⟩ := List.exists_cons_of_ne_nil h
  rfl

/-- What stands before the first line feed is a line. -/
theorem lines_append_feed {piece : Bytes} (h : 10 ∉ piece) (rest : Bytes) :
    lines (piece ++ 10 :: rest) = dropReturn piece :: lines rest := by
  rw [lines, List.splitOn_append_cons_self_of_not_mem h, linesOf_cons _ (List.splitOn_ne_nil _ _)]
  rfl

/-- **A line that is ended comes off the front,** whatever its end. -/
theorem lines_ended (h : IsLine line) (e : LineEnd) (rest : Bytes) :
    lines (line ++ e.bytes ++ rest) = line :: lines rest := by
  cases e with
  | feed =>
    rw [LineEnd.bytes, List.append_assoc, List.singleton_append, lines_append_feed h.no_feed,
      dropReturn_of_isLine h]
  | returnFeed =>
    have hpiece : 10 ∉ line ++ [13] := by simpa using h.no_feed
    have hbytes : line ++ [13, 10] ++ rest = (line ++ [13]) ++ 10 :: rest := by simp
    rw [LineEnd.bytes, hbytes, lines_append_feed hpiece, dropReturn_concat]

/-- A line that the file ends with counts if it is not empty. -/
theorem lines_last (h : 10 ∉ line) : lines line = if line.isEmpty then [] else [line] := by
  rw [lines, List.splitOn_eq_singleton h]
  rfl

theorem lines_closed (h : IsLine line) (e : LineEnd) : lines (line ++ e.bytes) = [line] := by
  have hended := lines_ended h e []
  rw [List.append_nil] at hended
  rw [hended, lines_last List.not_mem_nil]
  rfl

end Line

/-! ### The elements of the same lines -/

/-- Nothing is found where nothing stands. -/
theorem allMatches_nil (left right : List Char) (offset : Nat) :
    allMatches left right offset [] = [] := by
  refine allMatches_of_none (firstMatch?_eq_none_iff.2 ?_)
  intro before inner after h
  have hinner := List.length_pos_iff.2 h.inner_ne
  have hlength := congrArg List.length h.parts
  simp only [List.length_append, List.length_nil] at hlength
  omega

/-- An empty line holds no element. -/
theorem elementsOf_empty (b : Bracket) (path : String) (number : Nat) :
    elementsOf b path number [[]] = [] := by
  rw [elementsOf, elementsOf, Text.decodeLossy_nil, allMatches_nil]
  rfl

/-- **The same lines hold the same elements,** at the same numbers. -/
theorem SameLines.elementsOf_eq {data data' : Bytes} (h : SameLines data data') (b : Bracket)
    (path : String) (number : Nat) :
    elementsOf b path number (lines data') = elementsOf b path number (lines data) := by
  induction h generalizing number with
  | last => rfl
  | @closed line e hline =>
    rw [lines_closed hline, lines_last hline.no_feed]
    split
    · -- The file was empty, and now has one empty line.
      rename_i hempty
      rw [List.isEmpty_iff.1 hempty, elementsOf_empty]
      rfl
    · rfl
  | ended e e' hline _ ih =>
    rw [lines_ended hline, lines_ended hline, elementsOf, elementsOf, ih]

/-- Files with the same lines are scanned alike, pragmas and failures included. -/
theorem SameLines.scanText_eq {data data' : Bytes} (h : SameLines data data') (b : Bracket)
    (path : String) : scanText b path data' = scanText b path data := by
  rw [scanText, scanText, scan, scan, h.elementsOf_eq]

/-! ### Other ends for all lines -/

/-- A content in which every line feed is written with a carriage return before it. -/
def withReturns (data : Bytes) : Bytes :=
  data.flatMap fun byte => if byte = 10 then [13, 10] else [byte]

/-- A content with a line feed at its end, if there is none yet. -/
def closed (data : Bytes) : Bytes :=
  if data.getLast? = some 10 then data else data ++ [10]

/-- A content is a line that the file ends with, or one that a feed ends and another content. -/
@[elab_as_elim]
theorem induction_on_lines {motive : Bytes → Prop} (last : ∀ line, 10 ∉ line → motive line)
    (ended : ∀ line rest, 10 ∉ line → motive rest → motive (line ++ 10 :: rest))
    (data : Bytes) : motive data := by
  generalize hn : data.length = n
  induction n using Nat.strongRecOn generalizing data with
  | ind n ih =>
    by_cases hfeed : 10 ∈ data
    · obtain ⟨line, rest, rfl, hline⟩ := List.eq_append_cons_of_mem hfeed
      rw [List.length_append, List.length_cons] at hn
      exact ended line rest hline (ih rest.length (by omega) rest rfl)
    · exact last data hfeed

theorem isLine_of_not_mem {line : Bytes} (hfeed : 10 ∉ line) (hreturn : 13 ∉ line) :
    IsLine line where
  no_feed := hfeed
  no_return hlast := hreturn (List.mem_of_getLast? hlast)

theorem withReturns_of_not_mem {line : Bytes} (h : 10 ∉ line) : withReturns line = line := by
  have hkeep : ∀ byte ∈ line, (if byte = 10 then [13, 10] else [byte]) = [byte] := by
    intro byte hbyte
    refine if_neg ?_
    rintro rfl
    exact h hbyte
  rw [withReturns, List.flatMap_congr hkeep, List.flatMap_singleton']

theorem withReturns_append_feed {line : Bytes} (h : 10 ∉ line) (rest : Bytes) :
    withReturns (line ++ 10 :: rest) = line ++ LineEnd.returnFeed.bytes ++ withReturns rest := by
  have hline : withReturns (line ++ 10 :: rest)
      = withReturns line ++ (LineEnd.returnFeed.bytes ++ withReturns rest) :=
    List.flatMap_append
  rw [hline, withReturns_of_not_mem h, List.append_assoc]

theorem closed_of_not_mem {line : Bytes} (h : 10 ∉ line) : closed line = line ++ [10] :=
  if_neg fun hlast => h (List.mem_of_getLast? hlast)

theorem closed_append_feed (line : Bytes) {rest : Bytes} (h : rest ≠ []) :
    closed (line ++ 10 :: rest) = line ++ LineEnd.feed.bytes ++ closed rest := by
  have hlast : (line ++ 10 :: rest).getLast? = rest.getLast? := by
    obtain ⟨byte, rest, rfl⟩ := List.exists_cons_of_ne_nil h
    rw [List.getLast?_append_cons, List.getLast?_cons_cons]
  rw [closed, closed, hlast, LineEnd.bytes]
  split <;> simp

/-- Writing all feeds with returns keeps the lines of a content that has no returns. -/
theorem sameLines_withReturns {data : Bytes} (h : 13 ∉ data) :
    SameLines data (withReturns data) := by
  induction data using induction_on_lines with
  | last line hline =>
    rw [withReturns_of_not_mem hline]
    exact .last line hline
  | ended line rest hline ih =>
    rw [List.mem_append, List.mem_cons, not_or, not_or] at h
    rw [withReturns_append_feed hline, List.append_cons]
    exact .ended .feed .returnFeed (isLine_of_not_mem hline h.1) (ih h.2.2)

/-- Putting a feed at the end keeps the lines of a content that has no returns. -/
theorem sameLines_closed {data : Bytes} (h : 13 ∉ data) : SameLines data (closed data) := by
  induction data using induction_on_lines with
  | last line hline =>
    rw [closed_of_not_mem hline]
    exact .closed .feed (isLine_of_not_mem hline h)
  | ended line rest hline ih =>
    rw [List.mem_append, List.mem_cons, not_or, not_or] at h
    have hended := isLine_of_not_mem hline h.1
    by_cases hrest : rest = []
    · -- The last line is ended already.
      have hclosed : closed (line ++ [10]) = line ++ [10] := if_pos List.getLast?_concat
      have hsame := SameLines.ended .feed .feed hended (.last [] List.not_mem_nil)
      rw [List.append_nil] at hsame
      rw [hrest, hclosed]
      exact hsame
    · rw [closed_append_feed line hrest, List.append_cons]
      exact .ended .feed .feed hended (ih h.2.2)

/-- A carriage return at the end of a file is part of the last line until a feed follows it. -/
example : lines [97, 13] = [[97, 13]] ∧ lines (closed [97, 13]) = [[97]] := by decide +kernel

/-- **How lines end does not matter.** A content without carriage returns is scanned alike, to the
same elements with the same locations or to the same failure, if all its line feeds are written with
returns before them, and if a line feed is put at its end. -/
theorem scanText_lineEnds (b : Bracket) (path : String) {data : Bytes} (h : 13 ∉ data) :
    scanText b path (withReturns data) = scanText b path data
      ∧ scanText b path (closed data) = scanText b path data := by
  constructor
  · exact (sameLines_withReturns h).scanText_eq b path
  · exact (sameLines_closed h).scanText_eq b path

/-- An empty line, and a last line without an end. -/
def openEnded : Bytes :=
  .ofString "[# a #]\n\n[# %stop #] [# b #]\n[# %cont #]\n[# c #]"

theorem scanText_lineEnds_openEnded :
    13 ∉ openEnded
      ∧ withReturns openEnded
        = .ofString "[# a #]\r\n\r\n[# %stop #] [# b #]\r\n[# %cont #]\r\n[# c #]"
      ∧ closed openEnded = openEnded ++ [10]
      ∧ scanText .standard "f" (withReturns openEnded)
        = .ok [⟨"a", ⟨"f", 1, 1, 7⟩⟩, ⟨"c", ⟨"f", 5, 1, 7⟩⟩]
      ∧ scanText .standard "f" (closed openEnded)
        = .ok [⟨"a", ⟨"f", 1, 1, 7⟩⟩, ⟨"c", ⟨"f", 5, 1, 7⟩⟩] := by
  have hreturn : 13 ∉ openEnded := by decide +kernel
  have hscan : scanText .standard "f" openEnded
      = .ok [⟨"a", ⟨"f", 1, 1, 7⟩⟩, ⟨"c", ⟨"f", 5, 1, 7⟩⟩] := by
    with_unfolding_all rfl
  obtain ⟨hreturns, hclosed⟩ := scanText_lineEnds .standard "f" hreturn
  refine ⟨hreturn, by decide +kernel, by decide +kernel, ?_, ?_⟩
  · rw [hreturns, hscan]
  · rw [hclosed, hscan]

end Scan

end CrossTag
