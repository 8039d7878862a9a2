import CrossTag.Text.Utf8

/-!
# Bytes of texts are read back

A character is written as one to four bytes, and the reader finds it again behind any other:

    number of the character    first byte    bytes after it
    0 to 127                   0 to 127      none
    128 to 2047                194 to 223    one
    2048 to 65535              224 to 239    two, the first within `secondBounds`
    65536 to 1114111           240 to 244    three, the first within `secondBounds`

`nextPiece_encodeChar` says so for one character, `pieces_encode` for a text, and the strict and
the lossy reader both give the text back (`decode?_encode`, `decodeLossy_encode`). Nothing else is
read as a character (`encodeChar_of_nextPiece`), so the strict reader accepts only the bytes of
texts (`encode_of_decode?`). A byte below 128 stands only for the character with its number
(`mem_encodeChar_iff`), so cutting the bytes of a text at such a byte is cutting the text at the
character (`splitOn_encode`).
-/

namespace CrossTag.Text

/-! ### Bounds as numbers -/

theorem isWithin_iff {lo hi b : UInt8} :
    isWithin lo hi b = true ↔ lo.toNat ≤ b.toNat ∧ b.toNat ≤ hi.toNat := by
  simp [isWithin, UInt8.le_iff_toNat_le]

theorem isWithin_continuation_iff {b : UInt8} :
    isWithin 0x80 0xBF b = true ↔ 128 ≤ b.toNat ∧ b.toNat ≤ 191 :=
  isWithin_iff

theorem isWithin_secondBounds_iff {b x : UInt8} :
    isWithin (secondBounds b).1 (secondBounds b).2 x = true ↔
      128 ≤ x.toNat ∧ x.toNat ≤ 191
        ∧ (b.toNat = 224 → 160 ≤ x.toNat) ∧ (b.toNat = 237 → x.toNat ≤ 159)
        ∧ (b.toNat = 240 → 144 ≤ x.toNat) ∧ (b.toNat = 244 → x.toNat ≤ 143) := by
  have hb : ∀ n : UInt8, b = n ↔ b.toNat = n.toNat := fun n => UInt8.toNat_inj.symm
  rw [isWithin_iff, secondBounds]
  simp only [hb, UInt8.reduceToNat]
  split
  · simp only [UInt8.reduceToNat]
    omega
  split
  · simp only [UInt8.reduceToNat]
    omega
  split
  · simp only [UInt8.reduceToNat]
    omega
  split
  · simp only [UInt8.reduceToNat]
    omega
  · simp only [UInt8.reduceToNat]
    omega

theorem trailing?_eq (b : UInt8) :
    trailing? b =
      if b.toNat < 128 then some 0
      else if 194 ≤ b.toNat ∧ b.toNat ≤ 223 then some 1
      else if 224 ≤ b.toNat ∧ b.toNat ≤ 239 then some 2
      else if 240 ≤ b.toNat ∧ b.toNat ≤ 244 then some 3
      else none := by
  simp only [trailing?, isWithin_iff, UInt8.lt_iff_toNat_lt]
  rfl

theorem toNat_byte {n : Nat} (h : n < 256) : (UInt8.ofNat n).toNat = n := by
  rw [UInt8.toNat_ofNat']
  exact Nat.mod_eq_of_lt h

theorem payload_byte {n : Nat} (h : n < 64) : payload (UInt8.ofNat (n + 128)) = n := by
  rw [payload, toNat_byte (by omega)]
  omega

/-! ### Well-formed sequences -/

section Sequences

variable {b x y z : UInt8} (rest : Bytes)

theorem nextPiece_one (hb : b.toNat < 128) :
    nextPiece b rest = .char (Char.ofNat b.toNat) 0 := by
  have ht : trailing? b = some 0 := by
    rw [trailing?_eq, if_pos hb]
  simp only [nextPiece, ht]

theorem nextPiece_two (hb : 194 ≤ b.toNat ∧ b.toNat ≤ 223) (hx : isWithin 0x80 0xBF x = true) :
    nextPiece b (x :: rest) = .char (Char.ofNat (b.toNat % 32 * 64 + payload x)) 1 := by
  have ht : trailing? b = some 1 := by
    rw [trailing?_eq, if_neg (by omega), if_pos hb]
  simp only [nextPiece, ht, hx, if_true]

theorem nextPiece_three (hb : 224 ≤ b.toNat ∧ b.toNat ≤ 239)
    (hx : isWithin (secondBounds b).1 (secondBounds b).2 x = true)
    (hy : isWithin 0x80 0xBF y = true) :
    nextPiece b (x :: y :: rest)
      = .char (Char.ofNat ((b.toNat % 16 * 64 + payload x) * 64 + payload y)) 2 := by
  have ht : trailing? b = some 2 := by
    rw [trailing?_eq, if_neg (by omega), if_neg (by omega), if_pos hb]
  simp only [nextPiece, ht, hx, hy, if_true]

theorem nextPiece_four (hb : 240 ≤ b.toNat ∧ b.toNat ≤ 244)
    (hx : isWithin (secondBounds b).1 (secondBounds b).2 x = true)
    (hy : isWithin 0x80 0xBF y = true) (hz : isWithin 0x80 0xBF z = true) :
    nextPiece b (x :: y :: z :: rest)
      = .char (Char.ofNat
          (((b.toNat % 8 * 64 + payload x) * 64 + payload y) * 64 + payload z)) 3 := by
  have ht : trailing? b = some 3 := by
    rw [trailing?_eq, if_neg (by omega), if_neg (by omega), if_neg (by omega), if_pos hb]
  simp only [nextPiece, ht, hx, hy, hz, if_true]

end Sequences

/-! ### Characters -/

/-- The bytes of a character, by its number. -/
theorem encodeChar_eq (c : Char) :
    String.utf8EncodeChar c =
      if c.toNat ≤ 127 then [UInt8.ofNat c.toNat]
      else if c.toNat ≤ 2047 then
        [UInt8.ofNat (c.toNat / 64 % 32 + 192), UInt8.ofNat (c.toNat % 64 + 128)]
      else if c.toNat ≤ 65535 then
        [UInt8.ofNat (c.toNat / 4096 % 16 + 224), UInt8.ofNat (c.toNat / 64 % 64 + 128),
          UInt8.ofNat (c.toNat % 64 + 128)]
      else
        [UInt8.ofNat (c.toNat / 262144 % 8 + 240), UInt8.ofNat (c.toNat / 4096 % 64 + 128),
          UInt8.ofNat (c.toNat / 64 % 64 + 128), UInt8.ofNat (c.toNat % 64 + 128)] := rfl

/-- The bytes of a character are read as that character, whatever follows them. -/
theorem nextPiece_encodeChar (c : Char) (rest : Bytes) :
    ∃ b more, String.utf8EncodeChar c = b :: more
      ∧ nextPiece b (more ++ rest) = .char c more.length := by
  have hvalid : c.toNat < 55296 ∨ 57343 < c.toNat ∧ c.toNat < 1114112 := c.valid
  have hchar : ∀ n, n = c.toNat → Char.ofNat n = c := fun n hn => hn ▸ Char.ofNat_toNat c
  have hcont : ∀ n, n < 64 → isWithin 0x80 0xBF (UInt8.ofNat (n + 128)) = true := by
    intro n hn
    rw [isWithin_continuation_iff, toNat_byte (by omega)]
    omega
  rw [encodeChar_eq]
  split
  · refine ⟨_, _, rfl, ?_⟩
    rw [nextPiece_one, toNat_byte (by omega), hchar _ rfl]
    · rfl
    · rw [toNat_byte (by omega)]
      omega
  split
  · refine ⟨_, _, rfl, ?_⟩
    rw [List.cons_append, nextPiece_two _ _ (hcont _ (by omega)), payload_byte (by omega),
      toNat_byte (by omega), hchar _ (by omega)]
    · rfl
    · rw [toNat_byte (by omega)]
      omega
  split
  · refine ⟨_, _, rfl, ?_⟩
    rw [List.cons_append, List.cons_append, nextPiece_three _ _ _ (hcont _ (by omega)),
      payload_byte (by omega), payload_byte (by omega), toNat_byte (by omega), hchar _ (by omega)]
    · rfl
    · rw [toNat_byte (by omega)]
      omega
    · -- Surrogates are no characters, so 237 is followed by at most 159.
      rw [isWithin_secondBounds_iff, toNat_byte (by omega), toNat_byte (by omega)]
      omega
  · refine ⟨_, _, rfl, ?_⟩
    rw [List.cons_append, List.cons_append, List.cons_append,
      nextPiece_four _ _ _ (hcont _ (by omega)) (hcont _ (by omega)), payload_byte (by omega),
      payload_byte (by omega), payload_byte (by omega), toNat_byte (by omega), hchar _ (by omega)]
    · rfl
    · rw [toNat_byte (by omega)]
      omega
    · -- No character has a number above 1114111, so 244 is followed by at most 143.
      rw [isWithin_secondBounds_iff, toNat_byte (by omega), toNat_byte (by omega)]
      omega

/-- A byte below 128 stands only for the character with its number. -/
theorem mem_encodeChar_iff {b : UInt8} (hb : b.toNat < 128) {c : Char} :
    b ∈ String.utf8EncodeChar c ↔ c.toNat = b.toNat := by
  rw [encodeChar_eq]
  split
  · rw [List.mem_singleton, ← UInt8.toNat_inj, toNat_byte (by omega), eq_comm]
  split
  · simp only [List.mem_cons, List.not_mem_nil, or_false, ← UInt8.toNat_inj]
    rw [toNat_byte (by omega), toNat_byte (by omega)]
    omega
  split
  · simp only [List.mem_cons, List.not_mem_nil, or_false, ← UInt8.toNat_inj]
    rw [toNat_byte (by omega), toNat_byte (by omega), toNat_byte (by omega)]
    omega
  · simp only [List.mem_cons, List.not_mem_nil, or_false, ← UInt8.toNat_inj]
    rw [toNat_byte (by omega), toNat_byte (by omega), toNat_byte (by omega), toNat_byte (by omega)]
    omega

/-! ### Pieces that are read -/

theorem toNat_char {n : Nat} (h : n < 55296 ∨ 57343 < n ∧ n < 1114112) :
    (Char.ofNat n).toNat = n := by
  have hvalid : n.isValidChar := h
  rw [Char.ofNat, dif_pos hvalid]
  rfl

theorem trailing?_eq_some_iff {b : UInt8} {n : Nat} :
    trailing? b = some n ↔
      n = 0 ∧ b.toNat < 128 ∨ n = 1 ∧ 194 ≤ b.toNat ∧ b.toNat ≤ 223
        ∨ n = 2 ∧ 224 ≤ b.toNat ∧ b.toNat ≤ 239 ∨ n = 3 ∧ 240 ≤ b.toNat ∧ b.toNat ≤ 244 := by
  rw [trailing?_eq]
  grind

theorem byte_eq {n : Nat} {b : UInt8} (h : n = b.toNat) : UInt8.ofNat n = b := by
  rw [h, UInt8.ofNat_toNat]

section Sequences

variable {b x y z : UInt8}

theorem encodeChar_one (hb : b.toNat < 128) : String.utf8EncodeChar (Char.ofNat b.toNat) = [b] := by
  rw [encodeChar_eq, toNat_char (by omega), if_pos (by omega), UInt8.ofNat_toNat]

theorem encodeChar_two (hb : 194 ≤ b.toNat ∧ b.toNat ≤ 223) (hx : isWithin 0x80 0xBF x = true) :
    String.utf8EncodeChar (Char.ofNat (b.toNat % 32 * 64 + payload x)) = [b, x] := by
  rw [isWithin_continuation_iff] at hx
  rw [payload, encodeChar_eq, toNat_char (by omega), if_neg (by omega), if_pos (by omega),
    byte_eq (b := b) (by omega), byte_eq (b := x) (by omega)]

theorem encodeChar_three (hb : 224 ≤ b.toNat ∧ b.toNat ≤ 239)
    (hx : isWithin (secondBounds b).1 (secondBounds b).2 x = true)
    (hy : isWithin 0x80 0xBF y = true) :
    String.utf8EncodeChar (Char.ofNat ((b.toNat % 16 * 64 + payload x) * 64 + payload y))
      = [b, x, y] := by
  rw [isWithin_secondBounds_iff] at hx
  rw [isWithin_continuation_iff] at hy
  rw [payload, payload, encodeChar_eq, toNat_char (by omega), if_neg (by omega),
    if_neg (by omega), if_pos (by omega), byte_eq (b := b) (by omega), byte_eq (b := x) (by omega),
    byte_eq (b := y) (by omega)]

theorem encodeChar_four (hb : 240 ≤ b.toNat ∧ b.toNat ≤ 244)
    (hx : isWithin (secondBounds b).1 (secondBounds b).2 x = true)
    (hy : isWithin 0x80 0xBF y = true) (hz : isWithin 0x80 0xBF z = true) :
    String.utf8EncodeChar (Char.ofNat
      (((b.toNat % 8 * 64 + payload x) * 64 + payload y) * 64 + payload z)) = [b, x, y, z] := by
  rw [isWithin_secondBounds_iff] at hx
  rw [isWithin_continuation_iff] at hy hz
  rw [payload, payload, payload, encodeChar_eq, toNat_char (by omega), if_neg (by omega),
    if_neg (by omega), if_neg (by omega), byte_eq (b := b) (by omega), byte_eq (b := x) (by omega),
    byte_eq (b := y) (by omega), byte_eq (b := z) (by omega)]

end Sequences

/-- A piece that is a character consists of the bytes of the character. -/
theorem encodeChar_of_nextPiece {b : UInt8} {rest : Bytes} {c : Char} {more : Nat}
    (h : nextPiece b rest = .char c more) :
    more ≤ rest.length ∧ String.utf8EncodeChar c = b :: rest.take more := by
  -- Of all the pieces there can be, four are characters, one for each number of bytes.
  fun_cases nextPiece b rest
  all_goals simp [nextPiece, *] at h
  all_goals obtain ⟨rfl, rfl⟩ := h
  case case2 ht =>
    have hb := trailing?_eq_some_iff.1 ht
    exact ⟨Nat.zero_le _, encodeChar_one (by omega)⟩
  case case4 ht x rest hx =>
    have hb := trailing?_eq_some_iff.1 ht
    exact ⟨by simp, encodeChar_two (by omega) hx⟩
  case case8 ht x hx y rest hy =>
    have hb := trailing?_eq_some_iff.1 ht
    exact ⟨by simp, encodeChar_three (by omega) hx hy⟩
  case case14 n h0 h1 h2 ht x hx y hy z rest hz =>
    rcases trailing?_eq_some_iff.1 ht with ⟨hn, -⟩ | ⟨hn, -⟩ | ⟨hn, -⟩ | ⟨-, hb⟩
    · exact absurd hn h0
    · exact absurd hn h1
    · exact absurd hn h2
    · exact ⟨by simp, encodeChar_four hb hx hy hz⟩

/-- A character is found again in every start of the bytes that holds it. -/
theorem nextPiece_take_char {b : UInt8} {rest : Bytes} {c : Char} {more k : Nat}
    (h : nextPiece b rest = .char c more) (hk : more ≤ k) :
    nextPiece b (rest.take k) = .char c more := by
  obtain ⟨hmore, hbytes⟩ := encodeChar_of_nextPiece h
  obtain ⟨b', tail, htail, hnext⟩ := nextPiece_encodeChar c ((rest.drop more).take (k - more))
  rw [hbytes] at htail
  obtain ⟨rfl, rfl⟩ := List.cons.inj htail
  rwa [← List.take_add, Nat.add_sub_cancel' hk, List.length_take, Nat.min_eq_left hmore] at hnext

/-- An ill-formed part is found again in every start of the bytes that holds it, except that it
looks cut off where it ends that start. -/
theorem nextPiece_take {b : UInt8} {rest : Bytes} {more k : Nat}
    (h : nextPiece b rest = .illFormed more) (hk : more ≤ k) :
    nextPiece b (rest.take k) = .illFormed more
      ∨ k = more ∧ nextPiece b (rest.take k) = .cutOff := by
  fun_cases nextPiece b rest
  all_goals simp [nextPiece, *] at h
  all_goals subst h
  -- A piece is settled by at most three bytes, so longer starts need not be told apart.
  all_goals rcases k with _ | _ | _ | k
  all_goals simp_all [nextPiece]

theorem le_of_nextPiece_illFormed {b : UInt8} {rest : Bytes} {more : Nat}
    (h : nextPiece b rest = .illFormed more) : more ≤ 2 ∧ more ≤ rest.length := by
  fun_cases nextPiece b rest
  all_goals simp [nextPiece, *] at h
  all_goals simp [← h]

theorem length_of_nextPiece_cutOff {b : UInt8} {rest : Bytes}
    (h : nextPiece b rest = .cutOff) : rest.length ≤ 2 := by
  fun_cases nextPiece b rest
  all_goals simp [nextPiece, *] at h
  all_goals simp

/-! ### Reading with replacements -/

section Pieces

variable {b : UInt8} {rest : Bytes} {c : Char} {more : Nat}

theorem decodeLossy_nil : decodeLossy [] = [] := by
  rw [decodeLossy, pieces, List.map_nil]

theorem decodeLossy_char (h : nextPiece b rest = .char c more) :
    decodeLossy (b :: rest) = c :: decodeLossy (rest.drop more) := by
  rw [decodeLossy, pieces, h]
  rfl

theorem decodeLossy_illFormed (h : nextPiece b rest = .illFormed more) :
    decodeLossy (b :: rest) = '\uFFFD' :: decodeLossy (rest.drop more) := by
  rw [decodeLossy, pieces, h]
  rfl

theorem decodeLossy_cutOff (h : nextPiece b rest = .cutOff) :
    decodeLossy (b :: rest) = ['\uFFFD'] := by
  rw [decodeLossy, pieces, h]
  rfl

end Pieces

/-! ### Texts -/

theorem encode_cons (c : Char) (cs : List Char) :
    encode (c :: cs) = String.utf8EncodeChar c ++ encode cs := rfl

theorem encode_append (cs ds : List Char) : encode (cs ++ ds) = encode cs ++ encode ds :=
  List.flatMap_append

/-- A text is read as its characters, one piece for each, whatever follows it. -/
theorem pieces_encode_append (cs : List Char) (bs : Bytes) :
    pieces (encode cs ++ bs)
      = (cs.map fun c => .char c ((String.utf8EncodeChar c).length - 1)) ++ pieces bs := by
  induction cs with
  | nil => rfl
  | cons c cs ih =>
    obtain ⟨b, more, hbytes, hnext⟩ := nextPiece_encodeChar c (encode cs ++ bs)
    have hrest : (more ++ (encode cs ++ bs)).drop more.length = encode cs ++ bs := List.drop_left
    rw [encode_cons, hbytes, List.append_assoc, List.cons_append, pieces, hnext]
    simp only [hrest, ih, List.map_cons, hbytes, List.length_cons, Nat.add_sub_cancel,
      List.cons_append]

theorem pieces_encode (cs : List Char) :
    pieces (encode cs) = cs.map fun c => .char c ((String.utf8EncodeChar c).length - 1) := by
  have h := pieces_encode_append cs []
  rwa [pieces, List.append_nil, List.append_nil] at h

theorem decodeLossy_encode_append (cs : List Char) (bs : Bytes) :
    decodeLossy (encode cs ++ bs) = cs ++ decodeLossy bs := by
  rw [decodeLossy, pieces_encode_append, List.map_append, List.map_map]
  exact congrArg (· ++ decodeLossy bs) (List.map_id cs)

theorem decodeLossy_encode (cs : List Char) : decodeLossy (encode cs) = cs := by
  rw [decodeLossy, pieces_encode, List.map_map]
  exact List.map_id cs

theorem decode?_encode (cs : List Char) : decode? (encode cs) = some cs := by
  rw [decode?, pieces_encode]
  induction cs with
  | nil => rfl
  | cons c cs ih =>
    rw [List.map_cons, List.mapM_cons, ih]
    rfl

theorem length_encode (cs : List Char) : (encode cs).length = byteLength cs := by
  induction cs with
  | nil => rfl
  | cons c cs ih =>
    rw [encode_cons, List.length_append, String.length_utf8EncodeChar, ih, byteLength]

/-- Bytes that are strictly read as a text are the bytes of that text. -/
theorem encode_of_decode? {bs : Bytes} {cs : List Char} (h : decode? bs = some cs) :
    encode cs = bs := by
  fun_induction pieces bs generalizing cs with
  | case1 =>
    rw [decode?, pieces] at h
    cases h
    rfl
  | case2 b rest c more hpiece ih =>
    obtain ⟨-, hbytes⟩ := encodeChar_of_nextPiece hpiece
    simp only [decode?, pieces, hpiece, List.mapM_cons] at h
    obtain ⟨_, hc, h⟩ := Option.bind_eq_some_iff.1 h
    obtain ⟨ds, hds, h⟩ := Option.bind_eq_some_iff.1 h
    cases hc
    cases h
    rw [encode_cons, hbytes, ih hds, List.cons_append, List.take_append_drop]
  | case3 b rest more hpiece ih =>
    simp [decode?, pieces, hpiece] at h
  | case4 b rest hpiece =>
    simp [decode?, pieces, hpiece] at h

/-- What is read without a replacement is read strictly. -/
theorem decode?_of_not_mem {bs : Bytes} (h : '\uFFFD' ∉ decodeLossy bs) :
    decode? bs = some (decodeLossy bs) := by
  rw [decodeLossy] at h
  rw [decode?, decodeLossy]
  generalize pieces bs = ps at h ⊢
  induction ps with
  | nil => rfl
  | cons p ps ih =>
    rw [List.map_cons, List.mem_cons, not_or] at h
    rw [List.map_cons, List.mapM_cons, ih h.2]
    cases p with
    | char c more => rfl
    | illFormed more => exact absurd rfl h.1
    | cutOff => exact absurd rfl h.1

theorem eq_encode_of_not_mem {bs : Bytes} {cs : List Char} (h : decodeLossy bs = cs)
    (hclean : '\uFFFD' ∉ cs) : bs = encode cs := by
  subst h
  exact (encode_of_decode? (decode?_of_not_mem hclean)).symm

/-! ### Cutting at a byte -/

section Cutting

variable {b : UInt8} {sep : Char}

/-- What stands before the first separator goes in front of the first piece. -/
theorem splitOn_append_of_not_mem {α : Type} [DecidableEq α] {a : α} {front : List α}
    (h : a ∉ front) (xs : List α) :
    (front ++ xs).splitOn a = (xs.splitOn a).modifyHead (front ++ ·) := by
  induction front with
  | nil =>
    rw [List.nil_append]
    cases xs.splitOn a with
    | nil => rfl
    | cons piece pieces => rfl
  | cons x front ih =>
    have hx : ¬ (x == a) = true := by
      rw [beq_iff_eq]
      exact fun heq => h (heq ▸ List.mem_cons_self)
    rw [List.cons_append, List.splitOn_cons_eq_if_modifyHead, if_neg hx,
      ih fun hmem => h (List.mem_cons_of_mem _ hmem)]
    cases xs.splitOn a with
    | nil => rfl
    | cons piece pieces => rfl

/-- **Cutting the bytes of a text at a byte below 128 is cutting the text at its character.** -/
theorem splitOn_encode (hb : b.toNat < 128) (hsep : sep.toNat = b.toNat) (cs : List Char) :
    (encode cs).splitOn b = (cs.splitOn sep).map encode := by
  induction cs with
  | nil => rfl
  | cons c cs ih =>
    rw [encode_cons, List.splitOn_cons_eq_if_modifyHead]
    by_cases hc : c = sep
    · have hbytes : String.utf8EncodeChar c = [b] := by
        rw [encodeChar_eq, hc, hsep, if_pos (by omega), UInt8.ofNat_toNat]
      rw [if_pos (beq_iff_eq.2 hc), hbytes, List.singleton_append,
        List.splitOn_cons_eq_if_modifyHead, if_pos BEq.rfl, ih]
      rfl
    · have hnot : b ∉ String.utf8EncodeChar c := by
        rw [mem_encodeChar_iff hb, ← hsep]
        exact fun heq => hc (Char.toNat_inj.1 heq)
      rw [if_neg (by simpa using hc), splitOn_append_of_not_mem hnot, ih]
      cases cs.splitOn sep with
      | nil => rfl
      | cons piece pieces => rfl

end Cutting

end CrossTag.Text
