import CrossTag.Build
import CrossTag.Proofs.Utf8

/-!
# Text files are told from others

A file is taken for text by its first 128 bytes, wherever they cut a character:

    first bytes                          read as
    a text                               text
    a text, and a character cut off      text
    anything else, or a zero byte        no text

The second row is the reason why `isIllFormed` does not ask for a text, but for the start of one.
That this is what it does (`isIllFormed_eq_false_iff`) is shown along the pieces of the bytes: a
character may be taken off the front on both sides (`startsText_char`), a part that is cut off can
be completed (`startsText_cutOff`), and an ill-formed part cannot, whatever follows it
(`not_startsText_illFormed`). The first bytes of a text start that text, so no text file is passed
over (`scanFile_sniffed`).
-/

namespace CrossTag

namespace Text

/-- Bytes that some text starts with. -/
def StartsText (bs : Bytes) : Prop :=
  ∃ cs, bs <+: encode cs

/-- Bytes with a part in them, behind some text, that no text goes on with. -/
def HasIllFormed (bs : Bytes) : Prop :=
  ∃ front part rest, bs = encode front ++ part ++ rest ∧ ¬ StartsText part

/-! ### Characters that are cut off -/

section Pieces

variable {b : UInt8} {rest : Bytes} {c : Char} {more : Nat}

/-- A character is cut off in every start of the bytes that does not hold it. -/
theorem nextPiece_take_cutOff {k : Nat} (h : nextPiece b rest = .char c more) (hk : k < more) :
    nextPiece b (rest.take k) = .cutOff := by
  fun_cases nextPiece b rest
  all_goals simp [nextPiece, *] at h
  all_goals obtain ⟨rfl, rfl⟩ := h
  -- Of at most three bytes behind the first one, one at least is missing.
  all_goals obtain rfl | rfl | rfl : k = 0 ∨ k = 1 ∨ k = 2 := by omega
  all_goals simp_all [nextPiece]

/-- The least second byte is one of those that may stand there. -/
theorem isWithin_secondBounds (b : UInt8) :
    isWithin (secondBounds b).1 (secondBounds b).2 (secondBounds b).1 = true := by
  unfold secondBounds
  repeat' split
  all_goals decide

/-- A part that is cut off is the start of some character. -/
theorem exists_char_of_cutOff (h : nextPiece b rest = .cutOff) :
    ∃ c, b :: rest <+: String.utf8EncodeChar c := by
  -- The least byte that may stand there is put in for each one that is missing.
  have hcont : isWithin 0x80 0xBF 0x80 = true := by decide
  have three : ∀ {x : UInt8}, trailing? b = some 2 →
      isWithin (secondBounds b).1 (secondBounds b).2 x = true →
      ∃ c, [b, x] <+: String.utf8EncodeChar c := by
    intro x ht hx
    have hb := trailing?_eq_some_iff.1 ht
    exact ⟨_, [0x80], (encodeChar_three (by omega) hx hcont).symm⟩
  have four : ∀ {n : Nat} {x y : UInt8}, n ≠ 0 → n ≠ 1 → n ≠ 2 → trailing? b = some n →
      isWithin (secondBounds b).1 (secondBounds b).2 x = true → isWithin 0x80 0xBF y = true →
      ∃ c, [b, x, y] <+: String.utf8EncodeChar c := by
    intro n x y h0 h1 h2 ht hx hy
    have hb := trailing?_eq_some_iff.1 ht
    exact ⟨_, [0x80], (encodeChar_four (by omega) hx hy hcont).symm⟩
  have shorter : ∀ front back : Bytes, (∃ c, front ++ back <+: String.utf8EncodeChar c) →
      ∃ c, front <+: String.utf8EncodeChar c := by
    rintro front back ⟨c, hc⟩
    exact ⟨c, (List.prefix_append front back).trans hc⟩
  fun_cases nextPiece b rest
  all_goals simp [nextPiece, *] at h
  case case3 ht =>
    have hb := trailing?_eq_some_iff.1 ht
    exact ⟨_, [0x80], (encodeChar_two (by omega) hcont).symm⟩
  case case6 ht => exact shorter [b] [_] (three ht (isWithin_secondBounds b))
  case case7 ht x hx => exact three ht hx
  case case11 n h0 h1 h2 ht =>
    exact shorter [b] [_, _] (four h0 h1 h2 ht (isWithin_secondBounds b) hcont)
  case case12 n h0 h1 h2 ht x hx => exact shorter [b, x] [_] (four h0 h1 h2 ht hx hcont)
  case case13 n h0 h1 h2 ht x hx y hy => exact four h0 h1 h2 ht hx hy

/-! ### One piece -/

theorem isIllFormed_char (h : nextPiece b rest = .char c more) :
    isIllFormed (b :: rest) = isIllFormed (rest.drop more) := by
  rw [isIllFormed, pieces, h]
  rfl

theorem isIllFormed_illFormed (h : nextPiece b rest = .illFormed more) :
    isIllFormed (b :: rest) = true := by
  rw [isIllFormed, pieces, h]
  rfl

theorem isIllFormed_cutOff (h : nextPiece b rest = .cutOff) : isIllFormed (b :: rest) = false := by
  rw [isIllFormed, pieces, h]
  rfl

/-- A text in front of the bytes does not matter. -/
theorem startsText_encode_append_iff (front : List Char) {bs : Bytes} :
    StartsText (encode front ++ bs) ↔ StartsText bs := by
  constructor
  · rintro ⟨cs, after, h⟩
    -- What follows the text in front is a text again, and it is what is read there.
    refine ⟨decodeLossy (bs ++ after), after, ?_⟩
    have hcs : cs = front ++ decodeLossy (bs ++ after) := by
      rw [← decodeLossy_encode cs, ← h, List.append_assoc, decodeLossy_encode_append]
    rw [hcs, encode_append, List.append_assoc] at h
    exact List.append_cancel_left h
  · rintro ⟨cs, hcs⟩
    refine ⟨front ++ cs, ?_⟩
    rw [encode_append]
    exact (List.prefix_append_right_inj _).2 hcs

theorem startsText_char (h : nextPiece b rest = .char c more) :
    StartsText (b :: rest) ↔ StartsText (rest.drop more) := by
  have hbytes : b :: rest = encode [c] ++ rest.drop more := by
    rw [encode_cons, (encodeChar_of_nextPiece h).2]
    simp [encode]
  rw [hbytes, startsText_encode_append_iff]

theorem startsText_cutOff (h : nextPiece b rest = .cutOff) : StartsText (b :: rest) := by
  obtain ⟨c, hc⟩ := exists_char_of_cutOff h
  exact ⟨[c], hc.trans (List.prefix_append _ _)⟩

theorem not_startsText_illFormed (h : nextPiece b rest = .illFormed more) :
    ¬ StartsText (b :: rest) := by
  rintro ⟨cs, hprefix⟩
  cases cs with
  | nil => exact absurd (List.prefix_nil.1 hprefix) (by simp)
  | cons c cs =>
    -- The first character of the text is found in the bytes, or it is cut off there.
    obtain ⟨b', tail, hbytes, hnext⟩ := nextPiece_encodeChar c (encode cs)
    rw [encode_cons, hbytes, List.cons_append, List.cons_prefix_cons] at hprefix
    obtain ⟨rfl, hrest⟩ := hprefix
    have hpiece : nextPiece b ((tail ++ encode cs).take rest.length) = .illFormed more := by
      rwa [← List.prefix_iff_eq_take.1 hrest]
    rcases Nat.lt_or_ge rest.length tail.length with hshort | hlong
    · cases (nextPiece_take_cutOff hnext hshort).symm.trans hpiece
    · cases (nextPiece_take_char hnext hlong).symm.trans hpiece

end Pieces

/-! ### All pieces -/

/-- **Bytes have no ill-formed part exactly if some text starts with them.** -/
theorem isIllFormed_eq_false_iff {bs : Bytes} : isIllFormed bs = false ↔ StartsText bs := by
  fun_induction pieces bs with
  | case1 =>
    rw [isIllFormed, pieces]
    exact ⟨fun _ => ⟨[], List.prefix_rfl⟩, fun _ => rfl⟩
  | case2 b rest c more h ih => rw [isIllFormed_char h, startsText_char h, ih]
  | case3 b rest more h ih =>
    rw [isIllFormed_illFormed h]
    exact ⟨fun hfalse => absurd hfalse (by decide), fun hstarts =>
      absurd hstarts (not_startsText_illFormed h)⟩
  | case4 b rest h =>
    rw [isIllFormed_cutOff h]
    exact ⟨fun _ => startsText_cutOff h, fun _ => rfl⟩

theorem hasIllFormed_iff {bs : Bytes} : HasIllFormed bs ↔ ¬ StartsText bs := by
  constructor
  · rintro ⟨front, part, rest, rfl, hpart⟩ ⟨cs, hcs⟩
    have hstarts : StartsText (encode front ++ part) := ⟨cs, (List.prefix_append _ rest).trans hcs⟩
    exact hpart ((startsText_encode_append_iff front).1 hstarts)
  · intro h
    exact ⟨[], bs, [], by simp [encode], h⟩

theorem isIllFormed_eq_true_iff {bs : Bytes} : isIllFormed bs = true ↔ HasIllFormed bs := by
  rw [hasIllFormed_iff, ← isIllFormed_eq_false_iff, Bool.not_eq_false]

end Text

/-! ### Files -/

namespace Scan

theorem looksBinary_eq_true_iff {head : Bytes} :
    looksBinary head = true ↔ 0 ∈ head ∨ Text.HasIllFormed head := by
  rw [looksBinary, Bool.or_eq_true, List.contains_iff_mem, Text.isIllFormed_eq_true_iff]

/-- The first bytes of a text look like text, wherever they end. -/
theorem looksBinary_take_ofString {content : String} {n : Nat}
    (h : 0 ∉ (Bytes.ofString content).take n) :
    looksBinary ((Bytes.ofString content).take n) = false := by
  have hstarts : Text.StartsText ((Bytes.ofString content).take n) :=
    ⟨content.toList, List.take_prefix n _⟩
  rw [← Bool.not_eq_true, looksBinary_eq_true_iff, not_or, Text.hasIllFormed_iff]
  exact ⟨h, not_not_intro hstarts⟩

end Scan

section File

variable {t : Tree} {file : SourceFile} {data : Bytes}

/-- A file is scanned if its first bytes look like text, and has no elements otherwise. -/
theorem scanFile_of_content (hdata : t.contentOf file.path = .ok data) (b : Bracket) :
    scanFile t b file
      = if Scan.looksBinary (data.take 128) then .ok [] else scanText b file.display data := by
  rw [scanFile, hdata]
  rfl

/-- **No text file is passed over**: where the content of a file is a text without a zero byte among
its first 128 bytes, these look like text, whichever character they cut, and the file has the
elements of its content. Where there is a zero byte among them, or a part that no text goes on with,
the file has no elements. -/
theorem scanFile_sniffed (hdata : t.contentOf file.path = .ok data) (b : Bracket) :
    (∀ content : String, data = Bytes.ofString content → 0 ∉ data.take 128 →
        Scan.looksBinary (data.take 128) = false
          ∧ scanFile t b file = scanText b file.display data)
      ∧ (0 ∈ data.take 128 ∨ Text.HasIllFormed (data.take 128) → scanFile t b file = .ok [])
      ∧ (Scan.looksBinary (data.take 128) = true ↔
          0 ∈ data.take 128 ∨ Text.HasIllFormed (data.take 128)) := by
  rw [scanFile_of_content hdata]
  refine ⟨?_, ?_, Scan.looksBinary_eq_true_iff⟩
  · rintro content rfl hzero
    have htext := Scan.looksBinary_take_ofString hzero
    exact ⟨htext, if_neg (by rw [htext]; decide)⟩
  · intro h
    exact if_pos (Scan.looksBinary_eq_true_iff.2 h)

end File

/-- A text with a character at its bytes 128 and 129. -/
def accented : List Char :=
  List.replicate 127 'x' ++ ['é', '[', '#', 'a', '#', ']']

/-- A text file, and one with the first byte of a character where no second one follows. -/
def accentedAndBroken : Tree :=
  ⟨[(["f"], .file (Text.encode accented)), (["g"], .file [0x5B, 0xC3, 0x28])], []⟩

theorem scanFile_sniffed_accented :
    ((Text.encode accented).take 128).getLast? = some 0xC3
      ∧ scanFile accentedAndBroken .standard ⟨"f", "f"⟩
        = scanText .standard "f" (Text.encode accented)
      ∧ scanFile accentedAndBroken .standard ⟨"g", "g"⟩ = .ok [] := by
  have htext : accentedAndBroken.contentOf "f" = .ok (Text.encode accented) := by
    with_unfolding_all rfl
  have hbroken : accentedAndBroken.contentOf "g" = .ok [0x5B, 0xC3, 0x28] := by
    with_unfolding_all rfl
  have hstring : Text.encode accented = Bytes.ofString (String.ofList accented) := by
    rw [Bytes.ofString, String.toList_ofList]
  have hpart : Text.HasIllFormed ([0x5B, 0xC3, 0x28] : Bytes) :=
    Text.isIllFormed_eq_true_iff.1 (by with_unfolding_all rfl)
  have hzero : 0 ∉ (Text.encode accented).take 128 := by decide +kernel
  refine ⟨by decide +kernel, ?_, ?_⟩
  · exact ((@scanFile_sniffed _ ⟨"f", "f"⟩ _ htext .standard).1 _ hstring hzero).2
  · exact (@scanFile_sniffed _ ⟨"g", "g"⟩ _ hbroken .standard).2.1 (.inr hpart)

end CrossTag
