import CrossTag.Proofs.Scan

/-!
# Columns and bytes

A scan searches a line as it is read, and counts its columns there. Reading adds bytes where the
line is not text, since every part that is none is read as a character of three bytes:

    bytes       FF [ # a # ]
    read        EF BF BD [ # a # ]        the tag starts two bytes later

How many bytes are added is the `drift` (`byteLength_decodeLossy`). What is read can be cut
wherever one likes, and the bytes can be cut at the same place (`exists_cut`), although a part
that is cut off at its end looks different there. So a bracket in the text of a line is a bracket
in its bytes, and the columns of its element are those of the bytes, moved by the drift up to
there.
-/

namespace CrossTag

namespace Text

/-! ### Drift -/

/-- How many bytes reading adds: a part that is not text is read as a character of three bytes. -/
def drift : Bytes → Nat
  | [] => 0
  | b :: rest =>
    match nextPiece b rest with
    | .char _ more => drift (rest.drop more)
    | .illFormed more => 2 - more + drift (rest.drop more)
    | .cutOff => 2 - rest.length
termination_by bs => bs.length
decreasing_by all_goals simp only [List.length_cons, List.length_drop]; omega

theorem byteLength_decodeLossy (bs : Bytes) :
    byteLength (decodeLossy bs) = bs.length + drift bs := by
  have hsize : ('\uFFFD').utf8Size = 3 := rfl
  fun_induction drift bs with
  | case1 =>
    rw [decodeLossy_nil]
    rfl
  | case2 b rest c more h ih =>
    obtain ⟨hmore, hbytes⟩ := encodeChar_of_nextPiece h
    have hlength : c.utf8Size = 1 + more := by
      rw [← String.length_utf8EncodeChar, hbytes, List.length_cons, List.length_take]
      omega
    rw [decodeLossy_char h, byteLength, ih, List.length_cons, List.length_drop]
    omega
  | case3 b rest more h ih =>
    have hmore := le_of_nextPiece_illFormed h
    rw [decodeLossy_illFormed h, byteLength, ih, List.length_cons, List.length_drop]
    omega
  | case4 b rest h =>
    have hrest := length_of_nextPiece_cutOff h
    rw [decodeLossy_cutOff h, byteLength, byteLength, List.length_cons]
    omega

theorem drift_encode (cs : List Char) : drift (encode cs) = 0 := by
  have h := byteLength_decodeLossy (encode cs)
  rw [decodeLossy_encode, length_encode] at h
  omega

/-- Where bytes are cut between what is read in them, the drifts of the parts add up. -/
theorem drift_append {front back : Bytes}
    (h : decodeLossy (front ++ back) = decodeLossy front ++ decodeLossy back) :
    drift (front ++ back) = drift front + drift back := by
  have hlength := congrArg byteLength h
  rw [Scan.byteLength_append] at hlength
  simp only [byteLength_decodeLossy, List.length_append] at hlength
  omega

/-- Bytes of a text that are cut between characters are the bytes of its parts. -/
theorem eq_encode_of_append {front back : Bytes} {cs ds : List Char}
    (h : front ++ back = encode (cs ++ ds)) (hfront : decodeLossy front = cs)
    (hback : decodeLossy back = ds) : front = encode cs ∧ back = encode ds := by
  have hread : decodeLossy (front ++ back) = decodeLossy front ++ decodeLossy back := by
    rw [h, decodeLossy_encode, hfront, hback]
  -- Nothing is added to the bytes, so nothing is added to a part of them.
  have hdrift := drift_append hread
  have hlength := byteLength_decodeLossy front
  rw [h, drift_encode] at hdrift
  rw [hfront, ← length_encode] at hlength
  rw [encode_append] at h
  exact List.append_inj h (by omega)

/-- **Cutting.** Where the text of some bytes is cut, the bytes can be cut too. -/
theorem exists_cut {bs : Bytes} {cs ds : List Char} (h : decodeLossy bs = cs ++ ds) :
    ∃ front back, bs = front ++ back ∧ decodeLossy front = cs ∧ decodeLossy back = ds := by
  induction cs generalizing bs with
  | nil => exact ⟨[], bs, rfl, decodeLossy_nil, h⟩
  | cons c cs ih =>
    cases bs with
    | nil =>
      rw [decodeLossy_nil] at h
      cases h
    | cons b rest =>
      -- Behind a piece of `more + 1` bytes the cut is known, and the piece goes in front of it.
      have behind : ∀ {more : Nat}, decodeLossy (rest.drop more) = cs ++ ds →
          (∀ front, (rest.take (more + front.length)).drop more = front →
            decodeLossy front = cs →
            decodeLossy (b :: rest.take (more + front.length)) = c :: cs) →
          ∃ front back, b :: rest = front ++ back ∧ decodeLossy front = c :: cs
            ∧ decodeLossy back = ds := by
        intro more htail hpiece
        obtain ⟨front, back, hcut, hfront, hback⟩ := ih htail
        have htake : (rest.take (more + front.length)).drop more = front := by
          rw [List.drop_take, hcut, Nat.add_sub_cancel_left, List.take_left]
        refine ⟨b :: rest.take (more + front.length), back, ?_, hpiece front htake hfront, hback⟩
        rw [List.cons_append, List.take_add, List.append_assoc, hcut, List.take_left, ← hcut,
          List.take_append_drop]
      cases hpiece : nextPiece b rest with
      | char c' more =>
        rw [decodeLossy_char hpiece] at h
        obtain ⟨rfl, htail⟩ := List.cons.inj h
        refine behind htail fun front hfront hread => ?_
        rw [decodeLossy_char (nextPiece_take_char hpiece (Nat.le_add_right _ _)), hfront, hread]
      | illFormed more =>
        rw [decodeLossy_illFormed hpiece] at h
        obtain ⟨rfl, htail⟩ := List.cons.inj h
        refine behind htail fun front hfront hread => ?_
        rcases nextPiece_take hpiece (Nat.le_add_right more front.length) with hsame | ⟨hk, hend⟩
        · rw [decodeLossy_illFormed hsame, hfront, hread]
        · have hnil : front = [] := List.length_eq_zero_iff.1 (by omega)
          rw [hnil, decodeLossy_nil] at hread
          rw [decodeLossy_cutOff hend, ← hread]
      | cutOff =>
        rw [decodeLossy_cutOff hpiece] at h
        obtain ⟨rfl, htail⟩ := List.cons.inj h
        obtain ⟨rfl, rfl⟩ := List.append_eq_nil_iff.1 htail.symm
        exact ⟨b :: rest, [], by simp, decodeLossy_cutOff hpiece, decodeLossy_nil⟩

end Text

namespace Scan

/-! ### Brackets in bytes -/

/-- A line of a file, cut at both ends of two delimiters; `number` lines stand before it. -/
structure Excerpt where
  number : Nat
  before : Bytes
  left : Bytes
  inner : Bytes
  right : Bytes
  after : Bytes

namespace Excerpt

/-- The line up to the end of the second delimiter. -/
def upToEnd (x : Excerpt) : Bytes :=
  x.before ++ x.left ++ x.inner ++ x.right

def line (x : Excerpt) : Bytes :=
  x.upToEnd ++ x.after

/-- What is read in the parts of a line, and wherever it is cut. -/
structure Reads (x : Excerpt) (before left inner right after : List Char) : Prop where
  before_eq : Text.decodeLossy x.before = before
  left_eq : Text.decodeLossy x.left = left
  inner_eq : Text.decodeLossy x.inner = inner
  right_eq : Text.decodeLossy x.right = right
  after_eq : Text.decodeLossy x.after = after
  upToLeft_eq : Text.decodeLossy (x.before ++ x.left) = before ++ left
  upToInner_eq : Text.decodeLossy (x.before ++ x.left ++ x.inner) = before ++ left ++ inner
  upToEnd_eq : Text.decodeLossy x.upToEnd = before ++ left ++ inner ++ right
  line_eq : Text.decodeLossy x.line = before ++ left ++ inner ++ right ++ after

/-- A bracket in the text of a line is cut out of its bytes. -/
theorem exists_reads (number : Nat) {line : Bytes} {before left inner right after : List Char}
    (h : Text.decodeLossy line = before ++ left ++ inner ++ right ++ after) :
    ∃ x : Excerpt, x.number = number ∧ x.line = line
      ∧ x.Reads before left inner right after := by
  obtain ⟨upToEnd, after', rfl, hupToEnd, hafter⟩ := Text.exists_cut h
  obtain ⟨upToInner, right', rfl, hupToInner, hright⟩ := Text.exists_cut hupToEnd
  obtain ⟨upToLeft, inner', rfl, hupToLeft, hinner⟩ := Text.exists_cut hupToInner
  obtain ⟨before', left', rfl, hbefore, hleft⟩ := Text.exists_cut hupToLeft
  exact ⟨⟨number, before', left', inner', right', after'⟩, rfl, rfl,
    hbefore, hleft, hinner, hright, hafter, hupToLeft, hupToInner, hupToEnd, h⟩

section Reads

variable {x : Excerpt} {before left inner right after : List Char}

/-- What reading adds before a bracket, it adds up to the end of the bracket. -/
theorem Reads.drift_before_le (h : x.Reads before left inner right after) :
    Text.drift x.before ≤ Text.drift x.upToEnd := by
  have hend : Text.drift x.upToEnd = Text.drift (x.before ++ x.left ++ x.inner)
      + Text.drift x.right :=
    Text.drift_append (by rw [h.upToInner_eq, h.right_eq]; exact h.upToEnd_eq)
  have hinner : Text.drift (x.before ++ x.left ++ x.inner) = Text.drift (x.before ++ x.left)
      + Text.drift x.inner :=
    Text.drift_append (by rw [h.upToLeft_eq, h.inner_eq]; exact h.upToInner_eq)
  have hleft : Text.drift (x.before ++ x.left) = Text.drift x.before + Text.drift x.left :=
    Text.drift_append (by rw [h.before_eq, h.left_eq]; exact h.upToLeft_eq)
  omega

/-- Up to the end of a bracket that is all text, the delimiters are written as such. -/
theorem Reads.eq_encode (h : x.Reads before left inner right after)
    (htext : Text.decode? x.upToEnd ≠ none) :
    x.left = Text.encode left ∧ x.right = Text.encode right ∧ Text.drift x.upToEnd = 0 := by
  obtain ⟨cs, hcs⟩ := Option.ne_none_iff_exists'.1 htext
  have hbytes := Text.encode_of_decode? hcs
  have hread : cs = before ++ left ++ inner ++ right := by
    rw [← h.upToEnd_eq, ← hbytes, Text.decodeLossy_encode]
  have hdrift : Text.drift x.upToEnd = 0 := by rw [← hbytes, Text.drift_encode]
  rw [hread] at hbytes
  obtain ⟨hinner, hright⟩ := Text.eq_encode_of_append hbytes.symm h.upToInner_eq h.right_eq
  obtain ⟨hleft, -⟩ := Text.eq_encode_of_append hinner h.upToLeft_eq h.inner_eq
  obtain ⟨-, hleft⟩ := Text.eq_encode_of_append hleft h.before_eq h.left_eq
  exact ⟨hleft, hright, hdrift⟩

/-- A line that is all text is so up to the end of the bracket. -/
theorem Reads.decode?_upToEnd (h : x.Reads before left inner right after)
    (hline : Text.decode? x.line ≠ none) : Text.decode? x.upToEnd ≠ none := by
  obtain ⟨cs, hcs⟩ := Option.ne_none_iff_exists'.1 hline
  have hbytes := Text.encode_of_decode? hcs
  have hread : cs = before ++ left ++ inner ++ right ++ after := by
    rw [← h.line_eq, ← hbytes, Text.decodeLossy_encode]
  rw [hread] at hbytes
  obtain ⟨hupToEnd, -⟩ := Text.eq_encode_of_append hbytes.symm h.upToEnd_eq h.after_eq
  rw [hupToEnd, Text.decode?_encode]
  exact Option.some_ne_none _

end Reads

/-- The place of an element in a file: its line, its delimiters, and between them its text. The
columns of the element are those of the bytes, moved by what reading adds to them. -/
structure IsOf (x : Excerpt) (b : Bracket) (data : Bytes) (e : Element) : Prop where
  mem : (lines data)[x.number]? = some x.line
  left_eq : Text.decodeLossy x.left = b.left.toList
  right_eq : Text.decodeLossy x.right = b.right.toList
  text_eq : e.text = String.ofList (Text.trim (Text.decodeLossy x.inner))
  line_eq : e.loc.line = (x.number + 1).toUInt32
  startColumn_eq : e.loc.startColumn = (x.before.length + Text.drift x.before).toUInt32 + 1
  endColumn_eq : e.loc.endColumn = (x.upToEnd.length + Text.drift x.upToEnd).toUInt32

end Excerpt

/-! ### Elements in bytes -/

section Elements

variable {b : Bracket} {path : String} {data : Bytes} {elements : List Element} {e : Element}

/-- Where the bracket of a match lies on its line. -/
theorem Brackets.parts {left right front cs : List Char} {found : List Match}
    (h : Brackets left right front cs found) :
    ∀ m ∈ found, ∃ before after, front ++ cs = before ++ left ++ m.inner ++ right ++ after
      ∧ m.start = Text.byteLength before
      ∧ m.stop = Text.byteLength (before ++ left ++ m.inner ++ right) := by
  induction h with
  | done => simp
  | @next front cs before inner after found hfirst hrest ih =>
    intro m hm
    have hcs := hfirst.parts
    rcases List.mem_cons.1 hm with rfl | hm
    · exact ⟨front ++ before, after, by simp [hcs], rfl, rfl⟩
    · obtain ⟨before', after', hparts, hnumbers⟩ := ih m hm
      refine ⟨before', after', ?_, hnumbers⟩
      rw [← hparts, hcs]
      simp

/-- Every element that is reported is that of a match on one of the lines. -/
theorem exists_match_of_scan (h : scan b path data = .ok elements) (he : e ∈ elements) :
    ∃ n line m, (lines data)[n]? = some line
      ∧ m ∈ allMatches b.left.toList b.right.toList 0 (Text.decodeLossy line)
      ∧ e = m.toElement path (n + 1) := by
  obtain ⟨p, hp, rfl⟩ := List.mem_map.1 ((sublist_of_scan h).mem he)
  obtain ⟨ms, hms, hm⟩ := getElem?_of_mem_numbered hp
  rw [foundIn, List.getElem?_map] at hms
  obtain ⟨line, hline, rfl⟩ := Option.map_eq_some_iff.1 hms
  refine ⟨p.1 - 1, line, p.2, hline, hm, ?_⟩
  rw [Nat.sub_add_cancel (number_le_of_mem_numbered hp).1]

theorem exists_excerpt_of_scan (h : scan b path data = .ok elements) (he : e ∈ elements) :
    ∃ (x : Excerpt) (before inner after : List Char), x.IsOf b data e
      ∧ x.Reads before b.left.toList inner b.right.toList after := by
  obtain ⟨n, line, m, hline, hm, rfl⟩ := exists_match_of_scan h he
  have hbrackets : Brackets b.left.toList b.right.toList [] (Text.decodeLossy line) _ :=
    brackets_iff.2 rfl
  obtain ⟨before, after, hparts, hstart, hstop⟩ := hbrackets.parts m hm
  obtain ⟨x, rfl, rfl, hreads⟩ := Excerpt.exists_reads n hparts
  refine ⟨x, before, m.inner, after, ⟨hline, hreads.left_eq, hreads.right_eq, ?_, rfl, ?_, ?_⟩,
    hreads⟩
  · rw [hreads.inner_eq]
    rfl
  · rw [← Text.byteLength_decodeLossy, hreads.before_eq, ← hstart]
    rfl
  · rw [← Text.byteLength_decodeLossy, hreads.upToEnd_eq, ← hstop]
    rfl

/-- The bytes that a location points at are those of the tag: its delimiters, and between them
what is read as its text. -/
def PointsAt (b : Bracket) (data : Bytes) (e : Element) : Prop :=
  ∃ n start line inner, e.loc.line.toNat = n + 1 ∧ e.loc.startColumn.toNat = start + 1
    ∧ (lines data)[n]? = some line
    ∧ (line.take e.loc.endColumn.toNat).drop start
      = Bytes.ofString b.left ++ inner ++ Bytes.ofString b.right
    ∧ e.text = String.ofList (Text.trim (Text.decodeLossy inner))

/-- Without a drift, and with delimiters that are written as such, a location points at its tag. -/
theorem Excerpt.IsOf.pointsAt {x : Excerpt} (h : x.IsOf b data e) (hne : x.left ≠ [])
    (hlines : (lines data).length < UInt32.size)
    (hbytes : ∀ line ∈ lines data, line.length < UInt32.size)
    (hleft : x.left = Bytes.ofString b.left) (hright : x.right = Bytes.ofString b.right)
    (hbefore : Text.drift x.before = 0) (hdrift : Text.drift x.upToEnd = 0) :
    PointsAt b data e := by
  have hpos := List.length_pos_iff.2 hne
  have hnumber : x.number < (lines data).length := (List.getElem?_eq_some_iff.1 h.mem).1
  have hline := hbytes x.line (List.mem_of_getElem? h.mem)
  have hlength : x.line.length = x.upToEnd.length + x.after.length := List.length_append
  have hupToEnd : x.upToEnd.length
      = x.before.length + x.left.length + x.inner.length + x.right.length := by
    simp only [upToEnd, List.length_append]
  refine ⟨x.number, x.before.length, x.line, x.inner, ?_, ?_, h.mem, ?_, h.text_eq⟩
  · rw [h.line_eq, toNat_toUInt32 (by omega)]
  · rw [h.startColumn_eq, hbefore, UInt32.toNat_add, toNat_toUInt32 (by omega)]
    exact Nat.mod_eq_of_lt (show x.before.length + 1 < UInt32.size by omega)
  · rw [h.endColumn_eq, hdrift, toNat_toUInt32 (by omega), Nat.add_zero, line, List.take_left,
      ← hleft, ← hright, upToEnd, List.append_assoc, List.append_assoc, List.drop_left,
      List.append_assoc]

end Elements

/-- **Columns count the bytes of a line as it is read.** Every element that is reported has its
place in the bytes of the file, at its line and its delimiters, and its columns are those of the
bytes there, moved by what reading adds to the bytes before it. Where this is nothing, the location
points at the tag, whatever follows it on its line; in particular where the line is text, be it only
up to the end of the tag. -/
theorem scanText_columns {b : Bracket} {path : String} {data : Bytes} {elements : List Element}
    (h : scanText b path data = .ok elements)
    (hbytes : ∀ line ∈ lines data, line.length < 2 ^ 32) {e : Element} (he : e ∈ elements) :
    ∃ x : Excerpt, x.IsOf b data e
      ∧ ((lines data).length < 2 ^ 32 → '\uFFFD' ∉ b.left.toList → '\uFFFD' ∉ b.right.toList →
          Text.drift x.upToEnd = 0 → PointsAt b data e)
      ∧ ((lines data).length < 2 ^ 32 → Text.decode? x.upToEnd ≠ none → PointsAt b data e)
      ∧ (Text.decode? x.line ≠ none → Text.decode? x.upToEnd ≠ none) := by
  have husable : b.isUsable = true := by
    cases hb : b.isUsable with
    | true => rfl
    | false =>
      rw [scanText, Bracket.check, hb] at h
      cases h
  have hscan : scan b path data = .ok elements := by
    rw [scanText_eq_scan husable] at h
    exact Outcome.mapError_eq_ok_iff.1 h
  obtain ⟨x, before, inner, after, hx, hreads⟩ := exists_excerpt_of_scan hscan he
  have hne : x.left ≠ [] := by
    intro hnil
    have hleft := hx.left_eq
    rw [hnil, Text.decodeLossy_nil] at hleft
    exact left_ne_nil_of_isUsable husable hleft.symm
  have hbefore := hreads.drift_before_le
  refine ⟨x, hx, ?_, ?_, hreads.decode?_upToEnd⟩
  · intro hlines hcleanLeft hcleanRight hdrift
    have hleft : x.left = Bytes.ofString b.left :=
      Text.eq_encode_of_not_mem hx.left_eq hcleanLeft
    have hright : x.right = Bytes.ofString b.right :=
      Text.eq_encode_of_not_mem hx.right_eq hcleanRight
    exact hx.pointsAt hne hlines hbytes hleft hright (by omega) hdrift
  · intro hlines htext
    obtain ⟨hleft, hright, hdrift⟩ := hreads.eq_encode htext
    exact hx.pointsAt hne hlines hbytes hleft hright (by omega) hdrift

/-- A tag behind two bytes of text, with a byte that is none behind it. -/
def marred : Bytes :=
  [0xC3, 0xA9, 0x5B, 0x23, 0x61, 0x23, 0x5D, 0xFF]

theorem scanText_columns_marred :
    ∃ e, scanText .standard "f" marred = .ok [e] ∧ PointsAt .standard marred e := by
  have hscan : scanText .standard "f" marred = .ok [⟨"a", ⟨"f", 1, 3, 7⟩⟩] := by
    with_unfolding_all rfl
  have hlines : lines marred = [marred] := by with_unfolding_all rfl
  obtain ⟨x, hx, -, hpoints, -⟩ :=
    scanText_columns hscan (by rw [hlines]; decide) List.mem_cons_self
  have hline : x.line = marred := by
    have hmem := List.mem_of_getElem? hx.mem
    rwa [hlines, List.mem_singleton] at hmem
  have htake : x.upToEnd = marred.take x.upToEnd.length := by
    rw [← hline, Excerpt.line, List.take_left]
  -- Only the first seven bytes reach the column where the tag ends.
  have hend : ∀ k, k < 9 → (7 : UInt32) = (k + Text.drift (marred.take k)).toUInt32 →
      Text.decode? (marred.take k) ≠ none := by
    decide +kernel
  have hk : x.upToEnd.length < 9 := by
    have hlength := congrArg List.length hline
    rw [Excerpt.line, List.length_append] at hlength
    exact Nat.lt_succ_of_le (Nat.le.intro hlength)
  have hdecode := hend x.upToEnd.length hk (by rw [← htake]; exact hx.endColumn_eq)
  rw [← htake] at hdecode
  exact ⟨_, hscan, hpoints (by rw [hlines]; decide) hdecode⟩

/-- A tag behind a byte that is no text. -/
def displaced : Bytes :=
  0xFF :: Bytes.ofString "[# meow #]"

/-- The columns of such a tag point two bytes behind it. -/
theorem not_scanText_columns :
    ¬ ∀ (b : Bracket) (path : String) (data : Bytes) (elements : List Element),
      (∀ line ∈ lines data, line.length < 2 ^ 32) → scanText b path data = .ok elements →
        ∀ e ∈ elements, PointsAt b data e := by
  intro h
  have hscan : scanText .standard "f" displaced = .ok [⟨"meow", ⟨"f", 1, 4, 13⟩⟩] := by
    with_unfolding_all rfl
  have hlines : lines displaced = [displaced] := by with_unfolding_all rfl
  obtain ⟨n, start, line, inner, hn, hstart, hline, hbytes, -⟩ :=
    h .standard "f" displaced _ (by rw [hlines]; decide) hscan _ List.mem_cons_self
  obtain rfl : n = 0 := by simpa using hn.symm
  obtain rfl : start = 3 := by simpa using hstart.symm
  rw [hlines] at hline
  cases hline
  cases hbytes

end Scan

end CrossTag
