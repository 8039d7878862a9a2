import Mathlib.Data.Char
import Mathlib.Data.List.Lex
import Mathlib.Tactic.SplitIfs
import CrossTag.Proofs.Canonical
import CrossTag.Proofs.Record
import CrossTag.Proofs.Tag.WellFormed
import CrossTag.Proofs.Utf8

/-!
# Records and the order of their names

Entries are ordered by their names, and records by their bytes. For entries with different names
the two agree up to what writing a name does to it:

    name         written           compared with others
    bare         name␣             as it is, and its end as a space
    quoted       "escaped name"␣   behind a quote, and its end as a quote and a space

Bytes are no obstacle, since they are ordered like the characters that they stand for
(`Text.encode_lt`), and neither is what follows the name, since no written name is the start of
another one. What is left are the pairs of names that the marks and the escapes put in the wrong
order, of which there are five kinds (`Misplaced`). All of them need a quote, a blank or a control
character, so identifiers are never misplaced (`IsPlain.not_misplaced`).
-/

namespace CrossTag

namespace Text

/-! ### Bytes are ordered like characters -/

/-- The bytes of a smaller character come first, whatever follows. -/
theorem encodeChar_append_lt {c d : Char} (h : c < d) (bs bs' : Bytes) :
    String.utf8EncodeChar c ++ bs < String.utf8EncodeChar d ++ bs' := by
  have hlt : c.toNat < d.toNat := h
  have hbound : d.toNat < 55296 ∨ 57343 < d.toNat ∧ d.toNat < 1114112 := d.valid
  have hshift : ∀ n : Nat, n / 4096 = n / 64 / 64 ∧ n / 262144 = n / 64 / 64 / 64 := by omega
  rw [encodeChar_eq, encodeChar_eq, (hshift c.toNat).1, (hshift c.toNat).2, (hshift d.toNat).1,
    (hshift d.toNat).2]
  -- one case for each pair of lengths; the first bytes decide or are shared
  split_ifs
  all_goals simp only [List.cons_append, List.nil_append, List.cons_lt_cons_iff,
    UInt8.lt_iff_toNat_lt, ← UInt8.toNat_inj]
  all_goals simp (disch := omega) only [toNat_byte]
  all_goals omega

/-- **The bytes of a smaller text are smaller.** -/
theorem encode_lt {cs ds : List Char} (h : cs < ds) : encode cs < encode ds := by
  induction h with
  | nil =>
    rename_i d ds
    obtain ⟨b, more, hbytes, -⟩ := nextPiece_encodeChar d []
    rw [encode_cons, hbytes]
    exact .nil
  | rel hlt => exact encodeChar_append_lt hlt _ _
  | cons _ ih => exact List.Lex.append_left _ ih _

/-- Texts are compared at the first character in which they differ. -/
theorem append_cons_lt {c d : Char} (h : c < d) (front cs ds : List Char) :
    front ++ c :: cs < front ++ d :: ds :=
  List.Lex.append_left _ (.rel h) front

theorem lt_append_cons {cs rest : List Char} {c : Char} : cs < cs ++ c :: rest := by
  have := List.Lex.append_left (· < ·) (.nil : List.Lex (· < ·) [] (c :: rest)) cs
  rwa [List.append_nil] at this

/-- The smaller one of two texts ends first or has the smaller character where they differ. -/
theorem exists_of_lt {cs ds : List Char} (h : cs < ds) :
    (∃ d rest, ds = cs ++ d :: rest)
      ∨ ∃ front c d cs' ds', cs = front ++ c :: cs' ∧ ds = front ++ d :: ds' ∧ c < d := by
  induction h with
  | nil => exact .inl ⟨_, _, rfl⟩
  | rel hlt => exact .inr ⟨[], _, _, _, _, rfl, rfl, hlt⟩
  | cons _ ih =>
    rename_i c cs ds _
    rcases ih with ⟨d, rest, rfl⟩ | ⟨front, c', d, cs', ds', rfl, rfl, hlt⟩
    · exact .inl ⟨d, rest, rfl⟩
    · exact .inr ⟨c :: front, c', d, cs', ds', rfl, rfl, hlt⟩

end Text

namespace Record

open Text

/-! ### Written names -/

/-- A character that is escaped as a letter. -/
def IsLineEnd (c : Char) : Prop :=
  c = '\n' ∨ c = '\r'

/-- Two names of which the first is smaller and its record is larger. -/
inductive Misplaced (name name' : List Char) : Prop
  /-- Both are bare, and the second goes on with a character below the space. -/
  | bareEnd {c : Char} {rest : List Char} (bare : needsQuotes name = false)
    (bare' : needsQuotes name' = false) (goesOn : name' = name ++ c :: rest) (low : c < ' ')
  /-- Both are quoted, and the second goes on with a character below the quote. -/
  | quotedEnd {c : Char} {rest : List Char} (quoted : needsQuotes name = true)
    (quoted' : needsQuotes name' = true) (goesOn : name' = name ++ c :: rest) (low : c < '"')
    (kept : ¬ IsLineEnd c)
  /-- Both are quoted, and the escape of a line end meets a larger character that is kept. -/
  | escape {front rest rest' : List Char} {c d : Char} (quoted : needsQuotes name = true)
    (quoted' : needsQuotes name' = true) (parts : name = front ++ c :: rest)
    (parts' : name' = front ++ d :: rest') (lineEnd : IsLineEnd c) (kept : ¬ IsLineEnd d)
    (larger : c < d) (low : d ≤ '\\')
  /-- The larger one is quoted, and the smaller one starts behind a quote. -/
  | quotedLarger {c : Char} {rest : List Char} (bare : needsQuotes name = false)
    (quoted' : needsQuotes name' = true) (smaller : name < name') (starts : name = c :: rest)
    (high : '"' < c)
  /-- The smaller one is quoted, and the larger one starts before a quote. -/
  | quotedSmaller {c : Char} {rest : List Char} (quoted : needsQuotes name = true)
    (bare' : needsQuotes name' = false) (smaller : name < name') (starts' : name' = c :: rest)
    (low : c < '"')

theorem needsQuotes_eq_false_iff {field : List Char} :
    needsQuotes field = false ↔ field ≠ [] ∧ ∀ c ∈ field, isBlank c = false ∧ c ≠ '"' := by
  simp [needsQuotes]

theorem written_bare {name : List Char} (h : needsQuotes name = false) (rest : List Char) :
    encodeField name ++ ' ' :: rest = name ++ ' ' :: rest := by
  rw [encodeField, h]
  rfl

theorem written_quoted {name : List Char} (h : needsQuotes name = true) (rest : List Char) :
    encodeField name ++ ' ' :: rest
      = ('"' :: name.flatMap escapeChar) ++ '"' :: ' ' :: rest := by
  rw [encodeField, h]
  simp

/-- A quoted name up to one of its characters. -/
theorem written_quoted_at {front more : List Char} {c : Char}
    (h : needsQuotes (front ++ c :: more) = true) (rest : List Char) :
    encodeField (front ++ c :: more) ++ ' ' :: rest
      = ('"' :: front.flatMap escapeChar)
        ++ (escapeChar c ++ (more.flatMap escapeChar ++ '"' :: ' ' :: rest)) := by
  rw [written_quoted h, List.flatMap_append, List.flatMap_cons]
  simp only [List.cons_append, List.append_assoc]

/-! ### Escapes -/

section Escapes

variable {c d : Char}

theorem escapeChar_kept (h : ¬ IsLineEnd c) : ∃ more, escapeChar c = c :: more := by
  obtain ⟨hfeed, hreturn⟩ := not_or.1 h
  rw [escapeChar]
  split_ifs with hquote hback
  · exact ⟨['"'], by rw [hquote]⟩
  · exact ⟨['\\'], by rw [hback]⟩
  · exact ⟨[], rfl⟩

theorem escapeChar_lineEnd (h : IsLineEnd c) :
    ∃ letter, '\\' < letter ∧ escapeChar c = ['\\', letter] := by
  rcases h with rfl | rfl
  · exact ⟨'n', by decide, rfl⟩
  · exact ⟨'r', by decide, rfl⟩

variable (cs ds : List Char)

theorem escapeChar_lt_end (h : c < '"') (hkept : ¬ IsLineEnd c) :
    escapeChar c ++ cs < '"' :: ' ' :: ds := by
  obtain ⟨more, hescape⟩ := escapeChar_kept hkept
  rw [hescape]
  exact .rel h

theorem end_lt_escapeChar (h : ¬ (c < '"' ∧ ¬ IsLineEnd c)) :
    '"' :: ' ' :: ds < escapeChar c ++ cs := by
  by_cases hc : IsLineEnd c
  · obtain ⟨letter, -, hescape⟩ := escapeChar_lineEnd hc
    rw [hescape]
    exact .rel (by decide)
  · obtain ⟨more, hescape⟩ := escapeChar_kept hc
    have hle : '"' ≤ c := not_lt.1 fun hlt => h ⟨hlt, hc⟩
    rcases hle.lt_or_eq with hlt | rfl
    · rw [hescape]
      exact .rel hlt
    · -- A doubled quote is no end, since a space follows the end.
      exact .cons (.rel (by decide))

/-- Escapes keep the order of characters, unless the smaller one is a line end. -/
theorem escapeChar_lt (h : c < d) (hescape : ¬ (IsLineEnd c ∧ ¬ IsLineEnd d ∧ d ≤ '\\')) :
    escapeChar c ++ cs < escapeChar d ++ ds := by
  by_cases hc : IsLineEnd c
  · by_cases hd : IsLineEnd d
    · rcases hc with rfl | rfl <;> rcases hd with rfl | rfl
      · exact absurd h (lt_irrefl _)
      · exact .cons (.rel (by decide))
      · exact absurd h (by decide)
      · exact absurd h (lt_irrefl _)
    · obtain ⟨letter, -, hletter⟩ := escapeChar_lineEnd hc
      obtain ⟨more, hmore⟩ := escapeChar_kept hd
      rw [hletter, hmore]
      exact .rel (not_le.1 fun hle => hescape ⟨hc, hd, hle⟩)
  · obtain ⟨more, hmore⟩ := escapeChar_kept hc
    rw [hmore]
    by_cases hd : IsLineEnd d
    · obtain ⟨letter, -, hletter⟩ := escapeChar_lineEnd hd
      have hback : d < '\\' := by rcases hd with rfl | rfl <;> decide
      rw [hletter]
      exact .rel (h.trans hback)
    · obtain ⟨more', hmore'⟩ := escapeChar_kept hd
      rw [hmore']
      exact .rel h

theorem escapeChar_lt_lineEnd (hc : IsLineEnd c) (hd : ¬ IsLineEnd d) (h : d ≤ '\\') :
    escapeChar d ++ ds < escapeChar c ++ cs := by
  obtain ⟨letter, hlt, hletter⟩ := escapeChar_lineEnd hc
  obtain ⟨more, hmore⟩ := escapeChar_kept hd
  rw [hletter]
  rcases h.lt_or_eq with hlow | rfl
  · rw [hmore]
    exact .rel hlow
  · exact .cons (.rel hlt)

end Escapes

/-! ### Misplaced names -/

namespace Misplaced

variable {name name' : List Char}

theorem lt (h : Misplaced name name') : name < name' := by
  cases h with
  | bareEnd _ _ goesOn _ =>
    rw [goesOn]
    exact lt_append_cons
  | quotedEnd _ _ goesOn _ _ =>
    rw [goesOn]
    exact lt_append_cons
  | escape _ _ parts parts' _ _ larger _ =>
    rw [parts, parts']
    exact append_cons_lt larger _ _ _
  | quotedLarger _ _ smaller _ _ => exact smaller
  | quotedSmaller _ _ smaller _ _ => exact smaller

/-- The record of the smaller name is the larger one. -/
theorem written_lt (h : Misplaced name name') (rest rest' : List Char) :
    encodeField name' ++ ' ' :: rest' < encodeField name ++ ' ' :: rest := by
  cases h with
  | bareEnd bare bare' goesOn low =>
    rw [written_bare bare, written_bare bare', goesOn, List.append_assoc]
    exact append_cons_lt low _ _ _
  | quotedEnd quoted quoted' goesOn low kept =>
    subst goesOn
    rw [written_quoted quoted, written_quoted_at quoted']
    exact List.Lex.append_left _ (escapeChar_lt_end _ _ low kept) _
  | escape quoted quoted' parts parts' lineEnd kept larger low =>
    subst parts parts'
    rw [written_quoted_at quoted, written_quoted_at quoted']
    exact List.Lex.append_left _ (escapeChar_lt_lineEnd _ _ lineEnd kept low) _
  | quotedLarger bare quoted' smaller starts high =>
    rw [written_bare bare, written_quoted quoted', starts]
    exact .rel high
  | quotedSmaller quoted bare' smaller starts' low =>
    rw [written_quoted quoted, written_bare bare', starts']
    exact .rel low

end Misplaced

/-- There are no other names whose records are in the wrong order. -/
theorem written_lt_of_not_misplaced {name name' : List Char} (hlt : name < name')
    (h : ¬ Misplaced name name') (rest rest' : List Char) :
    encodeField name ++ ' ' :: rest < encodeField name' ++ ' ' :: rest' := by
  cases hquotes : needsQuotes name with
  | false =>
    rw [written_bare hquotes]
    obtain ⟨hne, hchars⟩ := needsQuotes_eq_false_iff.1 hquotes
    cases hquotes' : needsQuotes name' with
    | false =>
      -- Both are compared as they are, so only the end of the first one can be in the way.
      rw [written_bare hquotes']
      rcases exists_of_lt hlt with ⟨c, more, rfl⟩ | ⟨front, c, d, more, more', rfl, rfl, hcd⟩
      · have hc : c ≠ ' ' := by
          rintro rfl
          exact absurd ((needsQuotes_eq_false_iff.1 hquotes').2 ' ' (by simp)).1 (by decide)
        have hle : ' ' ≤ c := not_lt.1 fun hlow => h (.bareEnd hquotes hquotes' rfl hlow)
        rw [List.append_assoc]
        exact append_cons_lt (lt_of_le_of_ne hle hc.symm) _ _ _
      · rw [List.append_assoc, List.append_assoc]
        exact append_cons_lt hcd _ _ _
    | true =>
      -- The quote meets the first character of the bare name, and these differ.
      obtain ⟨c, more, rfl⟩ := List.exists_cons_of_ne_nil hne
      have hle : c ≤ '"' := not_lt.1 fun hhigh => h (.quotedLarger hquotes hquotes' hlt rfl hhigh)
      rw [written_quoted hquotes']
      exact .rel (lt_of_le_of_ne hle (hchars c List.mem_cons_self).2)
  | true =>
    cases hquotes' : needsQuotes name' with
    | false =>
      obtain ⟨hne, hchars⟩ := needsQuotes_eq_false_iff.1 hquotes'
      obtain ⟨c, more, rfl⟩ := List.exists_cons_of_ne_nil hne
      have hle : '"' ≤ c := not_lt.1 fun hlow => h (.quotedSmaller hquotes hquotes' hlt rfl hlow)
      rw [written_quoted hquotes, written_bare hquotes']
      exact .rel (lt_of_le_of_ne hle (hchars c List.mem_cons_self).2.symm)
    | true =>
      -- Up to where the names differ, their escapes are the same.
      rcases exists_of_lt hlt with ⟨c, more, rfl⟩ | ⟨front, c, d, more, more', rfl, rfl, hcd⟩
      · have hend : ¬ (c < '"' ∧ ¬ IsLineEnd c) := fun ⟨hlow, hkept⟩ =>
          h (.quotedEnd hquotes hquotes' rfl hlow hkept)
        rw [written_quoted hquotes, written_quoted_at hquotes']
        exact List.Lex.append_left _ (end_lt_escapeChar _ _ hend) _
      · have hescape : ¬ (IsLineEnd c ∧ ¬ IsLineEnd d ∧ d ≤ '\\') := fun ⟨hc, hd, hle⟩ =>
          h (.escape hquotes hquotes' rfl rfl hc hd hcd hle)
        rw [written_quoted_at hquotes, written_quoted_at hquotes']
        exact List.Lex.append_left _ (escapeChar_lt _ _ hcd hescape) _

/-- A name that is written as it is and has no control characters. -/
structure IsPlain (name : List Char) : Prop where
  bare : needsQuotes name = false
  high : ∀ c ∈ name, ¬ c < ' '

theorem IsPlain.not_misplaced {name name' : List Char} (h : IsPlain name) (h' : IsPlain name') :
    ¬ Misplaced name name' := by
  intro hmis
  cases hmis with
  | bareEnd _ _ goesOn low => exact h'.high _ (by simp [goesOn]) low
  | quotedEnd quoted _ _ _ _ => exact absurd (h.bare.symm.trans quoted) (by decide)
  | escape quoted _ _ _ _ _ _ _ => exact absurd (h.bare.symm.trans quoted) (by decide)
  | quotedLarger _ quoted' _ _ _ => exact absurd (h'.bare.symm.trans quoted') (by decide)
  | quotedSmaller quoted _ _ _ _ => exact absurd (h.bare.symm.trans quoted) (by decide)

/-- Identifiers are plain. -/
theorem isPlain_of_isIdentifier {name : String} (h : IsIdentifier [':', '-', '.', '/'] name) :
    IsPlain name.toList := by
  obtain ⟨c, cs, hname, hc, hcs⟩ := h
  have hchars : ∀ d ∈ name.toList, IsWordChar d ∨ d ∈ [':', '-', '.', '/'] := by
    rw [hname]
    exact List.forall_mem_cons.2 ⟨.inl hc, hcs⟩
  have hbounds : ∀ d ∈ name.toList, 45 ≤ d.toNat ∧ d.toNat ≤ 122 := by
    intro d hd
    rcases hchars d hd with (hupper | hlower | hdigit | rfl) | hother
    · exact ⟨le_trans (by decide) hupper.1, le_trans hupper.2 (by decide)⟩
    · exact ⟨le_trans (by decide) hlower.1, hlower.2⟩
    · exact ⟨le_trans (by decide) hdigit.1, le_trans hdigit.2 (by decide)⟩
    · decide
    · simp only [List.mem_cons, List.not_mem_nil, or_false] at hother
      rcases hother with rfl | rfl | rfl | rfl <;> decide
  refine ⟨needsQuotes_eq_false_iff.2 ⟨by simp [hname], fun d hd => ⟨?_, ?_⟩⟩, ?_⟩
  · have := hbounds d hd
    simp only [isBlank, Bool.or_eq_false_iff, Bool.and_eq_false_iff, decide_eq_false_iff_not,
      beq_eq_false_iff_ne, ne_eq]
    omega
  · rintro rfl
    exact absurd (hbounds _ hd).1 (by decide)
  · intro d hd hlow
    have := hbounds d hd
    have hlow : d.toNat < 32 := hlow
    omega

/-! ### Records -/

/-- The bytes of a record. -/
def line (e : Entry) : Bytes :=
  .ofString (encode e)

/-- A record starts with the written name and a space. -/
theorem exists_encode (e : Entry) :
    ∃ rest, line e = Text.encode (encodeField e.name.toList ++ ' ' :: rest) := by
  rw [line, Bytes.ofString, encode, String.toList_ofList, fieldsOf_eq, joinFields_cons_cons]
  exact ⟨_, rfl⟩

section Records

variable {a b : Entry}

theorem line_lt_of_misplaced (h : Misplaced a.name.toList b.name.toList) : line b < line a := by
  obtain ⟨rest, ha⟩ := exists_encode a
  obtain ⟨rest', hb⟩ := exists_encode b
  rw [ha, hb]
  exact encode_lt (h.written_lt rest rest')

theorem line_lt_of_not_misplaced (hlt : a.name < b.name)
    (h : ¬ Misplaced a.name.toList b.name.toList) : line a < line b := by
  obtain ⟨rest, ha⟩ := exists_encode a
  obtain ⟨rest', hb⟩ := exists_encode b
  rw [ha, hb]
  exact encode_lt (written_lt_of_not_misplaced (String.lt_iff.1 hlt) h rest rest')

theorem line_lt_iff (hlt : a.name < b.name) :
    line a < line b ↔ ¬ Misplaced a.name.toList b.name.toList :=
  ⟨fun h hmis => List.lt_asymm h (line_lt_of_misplaced hmis), line_lt_of_not_misplaced hlt⟩

theorem canonicalCmp_eq_lt_iff (h : a.name ≠ b.name) :
    a.canonicalCmp b = .lt ↔ a.name < b.name := by
  have hstring : ∀ {s t : String}, compare s t = .lt ↔ s < t := compareOfLessAndEq_eq_lt
  show (compare a.name b.name).then (compare a.loc b.loc) = .lt ↔ _
  rw [Ordering.then_eq_lt, hstring, Std.compare_eq_iff_eq]
  simp [h]

/-- Records of different names are in the order of the entries exactly if the names are not
misplaced either way. -/
theorem line_lt_iff_canonicalCmp (hne : a.name ≠ b.name) :
    (line a < line b ↔ a.canonicalCmp b = .lt) ↔
      ¬ Misplaced a.name.toList b.name.toList ∧ ¬ Misplaced b.name.toList a.name.toList := by
  rw [canonicalCmp_eq_lt_iff hne]
  rcases lt_trichotomy a.name.toList b.name.toList with hlt | heq | hgt
  · have hlt' : a.name < b.name := String.lt_iff.2 hlt
    have hother : ¬ Misplaced b.name.toList a.name.toList := fun h => List.lt_asymm hlt h.lt
    rw [line_lt_iff hlt', iff_true_right hlt', and_iff_left hother]
  · exact absurd (String.toList_inj.1 heq) hne
  · have hgt' : b.name < a.name := String.lt_iff.2 hgt
    have hother : ¬ Misplaced a.name.toList b.name.toList := fun h => List.lt_asymm hgt h.lt
    have hline : line a < line b ↔ Misplaced b.name.toList a.name.toList := by
      refine ⟨fun h => ?_, line_lt_of_misplaced⟩
      by_contra hmis
      exact List.lt_asymm h (line_lt_of_not_misplaced hgt' hmis)
    rw [hline, iff_false_right (String.lt_asymm hgt'), and_iff_right hother]

/-- The name of a tag that is no query for patterns is plain. -/
theorem isPlain_of_parse {text : String} {loc : Location} (h : Tag.parse text loc = .ok a)
    (hpattern : Tag.namesArePatterns a.attrs = false) : IsPlain a.name.toList := by
  have hsearch : a.search? = a.attrs.get? Entry.searchKey := rfl
  obtain ⟨s, -, hmeans⟩ := Tag.exists_sentence_of_parse h
  rcases (Tag.wellFormed_of_means hmeans).name with hname | hglob | hregexp
  · exact isPlain_of_isIdentifier hname
  · simp [Tag.namesArePatterns, PatternKind.name, ← hsearch, hglob] at hpattern
  · simp [Tag.namesArePatterns, PatternKind.name, ← hsearch, hregexp] at hpattern

/-- **The lines of an index** without repeated names are sorted exactly if no names are misplaced. -/
theorem lines_sorted_iff (index : Index) (h : (index.entries.map (·.name)).Nodup) :
    (index.entries.map line).Pairwise (· < ·) ↔
      index.entries.Pairwise fun a b => ¬ Misplaced a.name.toList b.name.toList := by
  have hlt : index.entries.Pairwise fun a b => a.name < b.name :=
    (index.sorted.and (List.pairwise_map.1 h)).imp fun {a b} hab =>
      (Entry.canonicalLe_iff.1 hab.1).resolve_right fun heq => hab.2 heq.1
  rw [List.pairwise_map]
  constructor
  · intro hlines
    exact (hlt.and hlines).imp fun hab => (line_lt_iff hab.1).1 hab.2
  · intro hplaced
    exact (hlt.and hplaced).imp fun hab => (line_lt_iff hab.1).2 hab.2

end Records

/-- **Where sorting records by their bytes is sorting entries.** The records of entries with
different names are in canonical order exactly if their names are not misplaced. Names that are
written bare and have no control characters never are, and the names of all tags are of this kind
but for queries by glob or regular expression, whose names are patterns. -/
theorem line_order {a b : Entry} (hne : a.name ≠ b.name) :
    ((line a < line b ↔ a.canonicalCmp b = .lt) ↔
        ¬ Misplaced a.name.toList b.name.toList ∧ ¬ Misplaced b.name.toList a.name.toList)
      ∧ (IsPlain a.name.toList → IsPlain b.name.toList →
          (line a < line b ↔ a.canonicalCmp b = .lt))
      ∧ ∀ {text text' : String} {loc loc' : Location}, Tag.parse text loc = .ok a →
          Tag.parse text' loc' = .ok b → Tag.namesArePatterns a.attrs = false →
          Tag.namesArePatterns b.attrs = false → (line a < line b ↔ a.canonicalCmp b = .lt) := by
  have hplain : IsPlain a.name.toList → IsPlain b.name.toList →
      (line a < line b ↔ a.canonicalCmp b = .lt) := fun ha hb =>
    (line_lt_iff_canonicalCmp hne).2 ⟨ha.not_misplaced hb, hb.not_misplaced ha⟩
  refine ⟨line_lt_iff_canonicalCmp hne, hplain, ?_⟩
  intro text text' loc loc' ha hb hpattern hpattern'
  exact hplain (isPlain_of_parse ha hpattern) (isPlain_of_parse hb hpattern')

/-- A tag with an ordinary name. -/
def meowTag : Entry :=
  ⟨"meow", .empty, ⟨"a.rs", 1, 1, 10⟩⟩

/-- A tag whose name goes on where that of `meowTag` ends. -/
def meowsTag : Entry :=
  ⟨"meow-2", .empty, ⟨"a.rs", 2, 1, 10⟩⟩

theorem line_order_meowTag :
    Tag.parse "meow" meowTag.loc = .ok meowTag ∧ Tag.parse "meow-2" meowsTag.loc = .ok meowsTag
      ∧ line meowTag < line meowsTag := by
  have hmeow : Tag.parse "meow" meowTag.loc = .ok meowTag := by with_unfolding_all rfl
  have hmeows : Tag.parse "meow-2" meowsTag.loc = .ok meowsTag := by with_unfolding_all rfl
  have hne : meowTag.name ≠ meowsTag.name := by decide
  exact ⟨hmeow, hmeows, ((line_order hne).2.2 hmeow hmeows rfl rfl).2 (by decide)⟩

/-- A query whose name is a glob with a space. -/
def spacedQuery : Entry :=
  ⟨"z z", Attrs.empty.insert Entry.searchKey "glob", ⟨"a.rs", 2, 1, 14⟩⟩

/-- **Sorting records by their bytes is not sorting entries.** The query `?g "z z"` comes behind the
tag `meow`, but its record starts with a quote and comes before that of `meow`. -/
theorem not_line_order :
    ∃ (text text' : String) (loc loc' : Location) (a b : Entry), Tag.parse text loc = .ok a
      ∧ Tag.parse text' loc' = .ok b ∧ a.name ≠ b.name
      ∧ ¬ (line a < line b ↔ a.canonicalCmp b = .lt) := by
  have hmeow : Tag.parse "meow" meowTag.loc = .ok meowTag := by with_unfolding_all rfl
  have hquery : Tag.parse "?g \"z z\"" spacedQuery.loc = .ok spacedQuery := by
    with_unfolding_all rfl
  have hmis : Misplaced meowTag.name.toList spacedQuery.name.toList :=
    .quotedLarger (by decide) (by decide) (by decide) rfl (by decide)
  refine ⟨_, _, _, _, meowTag, spacedQuery, hmeow, hquery, by decide, fun h => ?_⟩
  exact List.lt_asymm (h.2 (by decide)) (line_lt_of_misplaced hmis)

end Record

end CrossTag
