import CrossTag.Record
import CrossTag.Proofs.Attrs
import CrossTag.Proofs.Location
import CrossTag.Proofs.Outcome

/-!
# Records are read back

Writing a record and reading it are inverse to each other on the entries that a record can
stand for. The argument goes through the fields in between:

    entry  --fieldsOf-->  fields  --joinFields-->  line
    entry  <--ofFields--  fields  <--splitFields-- line

The right half needs nothing: any list of fields is found again in its line, because a field
that could be misread is put in quotes (`splitFields_joinFields`). The left half needs a
writable location, and keys that are not empty and hold no equals sign, because an attribute is
divided at its first one (`ofFields_fieldsOf`). Both are needed exactly, since reading answers
no other entries (`writable_of_decode`).
-/

namespace CrossTag

/-- An entry that a record can stand for. -/
structure Entry.Writable (e : Entry) : Prop where
  loc : e.loc.Writable
  keys : ∀ key ∈ e.attrs.keys, key ≠ "" ∧ '=' ∉ key.toList

namespace Record

open Outcome

/-! ### Quoted fields -/

/-- Reading up to the closing quote undoes the escapes, if no second quote follows. -/
theorem readQuoted_escaped (field : List Char) {rest : List Char}
    (hrest : rest.head? ≠ some '"') :
    readQuoted (field.flatMap escapeChar ++ '"' :: rest) = .ok (field, rest) := by
  induction field with
  | nil =>
    cases rest with
    | nil => rfl
    | cons c rest =>
      have hc : c ≠ '"' := fun h => hrest (by rw [h]; rfl)
      simp [readQuoted, hc]
  | cons c field ih =>
    rw [List.flatMap_cons, List.append_assoc]
    by_cases hquote : c = '"'
    · subst hquote
      simp [escapeChar, readQuoted, ih, Except.map]
    · by_cases hback : c = '\\'
      · subst hback
        simp [escapeChar, readQuoted, ih, Except.map]
      · by_cases hfeed : c = '\n'
        · subst hfeed
          simp [escapeChar, readQuoted, ih, Except.map]
        · by_cases hreturn : c = '\r'
          · subst hreturn
            simp [escapeChar, readQuoted, ih, Except.map]
          · simp [escapeChar, hquote, hback, hfeed, hreturn, readQuoted, ih, Except.map]

/-! ### Fields of a line -/

@[simp] theorem splitFields_nil : splitFields [] = .ok [] := by
  rw [splitFields.eq_def]

theorem splitFields_blank {c : Char} (hc : Text.isBlank c = true) (cs : List Char) :
    splitFields (c :: cs) = splitFields cs := by
  rw [splitFields.eq_def]
  exact if_pos hc

theorem splitFields_quoted {cs field rest : List Char} (hread : readQuoted cs = .ok (field, rest))
    (hrest : rest.head?.all Text.isBlank = true) :
    splitFields ('"' :: cs) = (splitFields rest).map (field :: ·) := by
  rw [splitFields.eq_def]
  dsimp only
  rw [if_neg (by decide), if_pos rfl]
  split
  · rename_i fault hfault
    rw [hread] at hfault
    cases hfault
  · rename_i field' rest' hread'
    rw [hread] at hread'
    cases hread'
    rw [if_pos hrest]

theorem splitFields_bare {field rest : List Char} (hne : field ≠ [])
    (hchars : ∀ c ∈ field, Text.isBlank c = false ∧ c ≠ '"')
    (hrest : rest.head?.all Text.isBlank = true) :
    splitFields (field ++ rest) = (splitFields rest).map (field :: ·) := by
  obtain ⟨c, cs, rfl⟩ := List.exists_cons_of_ne_nil hne
  have hc := hchars c List.mem_cons_self
  have hcs : ∀ d ∈ cs, isFieldChar d = true := fun d hd => by
    simp [isFieldChar, (hchars d (List.mem_cons_of_mem _ hd)).1]
  -- The field ends where it should, since a blank or nothing follows it.
  have htake : rest.takeWhile isFieldChar = [] ∧ rest.dropWhile isFieldChar = rest := by
    cases rest with
    | nil => exact ⟨rfl, rfl⟩
    | cons d rest =>
      have hd : isFieldChar d = false := by simpa [isFieldChar] using hrest
      simp [hd]
  have hquote : ¬ (c :: cs).contains '"' = true := by
    rw [List.contains_iff_mem]
    exact fun h => (hchars _ h).2 rfl
  rw [List.cons_append, splitFields.eq_def]
  dsimp only
  rw [if_neg (by simp [hc.1]), if_neg hc.2]
  simp only [List.takeWhile_append_of_pos hcs, List.dropWhile_append_of_pos hcs, htake,
    List.append_nil]
  rw [if_neg hquote]

/-- A written field is found at the front of a line in which nothing or a blank follows. -/
theorem splitFields_encodeField_append (field : List Char) {rest : List Char}
    (hrest : rest.head?.all Text.isBlank = true) :
    splitFields (encodeField field ++ rest) = (splitFields rest).map (field :: ·) := by
  unfold encodeField
  split
  · have hhead : rest.head? ≠ some '"' := by
      intro h
      rw [h] at hrest
      exact absurd hrest (by decide)
    have hread := readQuoted_escaped field hhead
    rw [show '"' :: field.flatMap escapeChar ++ ['"'] ++ rest
        = '"' :: (field.flatMap escapeChar ++ '"' :: rest) by simp]
    exact splitFields_quoted hread hrest
  · rename_i hplain
    simp only [needsQuotes, Bool.or_eq_true, List.isEmpty_iff, List.any_eq_true, beq_iff_eq,
      not_or, not_exists, not_and] at hplain
    exact splitFields_bare hplain.1 (fun c hc => by simpa using hplain.2 c hc) hrest

theorem joinFields_singleton (field : List Char) : joinFields [field] = encodeField field := by
  simp [joinFields]

theorem joinFields_cons_cons (field next : List Char) (fields : List (List Char)) :
    joinFields (field :: next :: fields)
      = encodeField field ++ ' ' :: joinFields (next :: fields) := by
  simp [joinFields, List.intercalate_cons_cons]

/-- **Any list of fields is found again in its line.** -/
theorem splitFields_joinFields (fields : List (List Char)) :
    splitFields (joinFields fields) = .ok fields := by
  induction fields with
  | nil => exact splitFields_nil
  | cons field fields ih =>
    cases fields with
    | nil =>
      rw [joinFields_singleton, ← List.append_nil (encodeField field),
        splitFields_encodeField_append field (by rfl), splitFields_nil]
      rfl
    | cons next fields =>
      have hspace : Text.isBlank ' ' = true := by decide
      have hrest : (' ' :: joinFields (next :: fields)).head?.all Text.isBlank = true := hspace
      rw [joinFields_cons_cons, splitFields_encodeField_append field hrest,
        splitFields_blank hspace, ih]
      rfl

/-! ### Attributes -/

/-- The field of a pair, as `fieldsOf` writes it. -/
def attrField (p : String × String) : List Char :=
  (Attrs.showPair p.1 p.2).toList

/-- An attribute whose key holds no equals sign is divided where it was put together. -/
theorem splitAttr_attrField {p : String × String} (hkey : '=' ∉ p.1.toList) :
    splitAttr (attrField p) = p := by
  obtain ⟨key, value⟩ := p
  by_cases hvalue : value = ""
  · subst hvalue
    have hfield : attrField (key, "") = key.toList := by simp [attrField, Attrs.showPair]
    have hsplit : Text.splitFirst? '=' key.toList = none :=
      Text.splitFirst?_eq_none_iff.2 hkey
    simp [splitAttr, hfield, hsplit]
  · have hfield : attrField (key, value) = key.toList ++ '=' :: value.toList := by
      simp [attrField, Attrs.showPair, hvalue]
    have hsplit : Text.splitFirst? '=' (attrField (key, value))
        = some (key.toList, value.toList) :=
      Text.splitFirst?_eq_some_iff.2 ⟨hfield, hkey⟩
    simp [splitAttr, hsplit]

theorem equals_not_mem_splitAttr (field : List Char) : '=' ∉ (splitAttr field).1.toList := by
  unfold splitAttr
  split
  · rename_i key value hsplit
    simpa using (Text.splitFirst?_eq_some_iff.1 hsplit).2
  · rename_i hsplit
    simpa using Text.splitFirst?_eq_none_iff.1 hsplit

/-- Attributes with keys of their own are all read, in any order, and answer for themselves
beside those that were there. -/
theorem readAttrs_attrFields {ps : List (String × String)} (attrs : Attrs)
    (hkeys : ∀ p ∈ ps, p.1 ≠ "" ∧ '=' ∉ p.1.toList)
    (hnodup : (ps.map (·.1)).Nodup) (hfresh : ∀ p ∈ ps, attrs.get? p.1 = none) :
    ∃ result, readAttrs attrs (ps.map attrField) = .ok result
      ∧ ∀ key, result.get? key = (ps.lookup key).or (attrs.get? key) := by
  induction ps generalizing attrs with
  | nil => exact ⟨attrs, rfl, fun key => by simp⟩
  | cons p ps ih =>
    obtain ⟨key, value⟩ := p
    obtain ⟨hne, hequals⟩ := hkeys (key, value) List.mem_cons_self
    obtain ⟨hout, hnodup⟩ := List.nodup_cons.1 hnodup
    have hnew : attrs.get? key = none := hfresh (key, value) List.mem_cons_self
    have hfresh' : ∀ p ∈ ps, (attrs.insert key value).get? p.1 = none := by
      intro p hp
      have hother : p.1 ≠ key := fun h => hout (List.mem_map.2 ⟨p, hp, h⟩)
      rw [Attrs.get?_insert, if_neg hother]
      exact hfresh p (List.mem_cons_of_mem _ hp)
    obtain ⟨result, hread, hget⟩ :=
      ih (attrs.insert key value) (fun p hp => hkeys p (List.mem_cons_of_mem _ hp)) hnodup hfresh'
    refine ⟨result, ?_, ?_⟩
    · have hempty : key.isEmpty = false := by simpa using hne
      have hcontains : attrs.contains key = false := Attrs.contains_eq_false_iff.2 hnew
      rw [List.map_cons, readAttrs, splitAttr_attrField hequals]
      simp only [hempty, hcontains, Bool.false_eq_true, if_false]
      exact hread
    · intro k
      rw [hget, Attrs.get?_insert, Pairs.lookup_cons]
      by_cases hk : k = key
      · -- The key is set once, so what comes later does not answer for it.
        have hnone : ps.lookup key = none := by
          rw [List.lookup_eq_none_iff]
          intro p hp
          have hother : key ≠ p.1 := fun h => hout (List.mem_map.2 ⟨p, hp, h.symm⟩)
          simpa using hother
        simp [hk, hnone]
      · simp [hk]

/-- What is read has the keys that were there and keys that are not empty and hold no equals
sign. -/
theorem keys_of_readAttrs {fields : List (List Char)} {attrs result : Attrs}
    (h : readAttrs attrs fields = .ok result) {key : String} (hkey : key ∈ result.keys) :
    key ∈ attrs.keys ∨ key ≠ "" ∧ '=' ∉ key.toList := by
  induction fields generalizing attrs with
  | nil =>
    cases h
    exact .inl hkey
  | cons field fields ih =>
    rw [readAttrs] at h
    split at h
    rename_i k v hsplit
    split at h
    · cases h
    · split at h
      · cases h
      · rename_i hne _
        rcases ih h with hold | hgood
        · obtain ⟨value, hvalue⟩ := Attrs.mem_keys_iff.1 hold
          rw [Attrs.get?_insert] at hvalue
          split at hvalue
          · rename_i heq
            subst heq
            have hequals := equals_not_mem_splitAttr field
            rw [hsplit] at hequals
            exact .inr ⟨by simpa using hne, hequals⟩
          · exact .inl (Attrs.mem_keys_iff.2 ⟨value, hvalue⟩)
        · exact .inr hgood

/-! ### Entries -/

/-- The pairs of a map with the scope in front, as `fieldsOf` lists them. -/
def scopeFirst (attrs : Attrs) : List (String × String) :=
  attrs.pairs.filter (·.1 == Entry.scopeKey) ++ attrs.pairs.filter (·.1 != Entry.scopeKey)

theorem fieldsOf_eq (e : Entry) :
    fieldsOf e = e.name.toList :: e.loc.toChars :: (scopeFirst e.attrs).map attrField := rfl

theorem scopeFirst_perm (attrs : Attrs) : (scopeFirst attrs).Perm attrs.pairs :=
  List.filter_append_perm (fun p : String × String => p.1 == Entry.scopeKey) attrs.pairs

/-- Putting the scope in front changes no answer. -/
theorem lookup_scopeFirst (attrs : Attrs) (key : String) :
    (scopeFirst attrs).lookup key = attrs.get? key := by
  have hscope := Pairs.lookup_filter (· == Entry.scopeKey) attrs.pairs key
  have hothers := Pairs.lookup_filter (· != Entry.scopeKey) attrs.pairs key
  rw [scopeFirst, List.lookup_append, hscope, hothers]
  by_cases hkey : key = Entry.scopeKey <;> simp [hkey, Attrs.get?]

theorem nodup_scopeFirst_keys (attrs : Attrs) : ((scopeFirst attrs).map (·.1)).Nodup :=
  ((scopeFirst_perm attrs).map _).nodup_iff.2 attrs.nodup_keys

/-- The fields of a writable entry are read as that entry. -/
theorem ofFields_fieldsOf {e : Entry} (h : e.Writable) : ofFields (fieldsOf e) = .ok e := by
  obtain ⟨name, attrs, loc⟩ := e
  have hkeys : ∀ p ∈ scopeFirst attrs, p.1 ≠ "" ∧ '=' ∉ p.1.toList := fun p hp =>
    h.keys p.1 (List.mem_map.2 ⟨p, (scopeFirst_perm attrs).mem_iff.1 hp, rfl⟩)
  obtain ⟨result, hread, hget⟩ := readAttrs_attrFields Attrs.empty hkeys
    (nodup_scopeFirst_keys attrs) (fun _ _ => rfl)
  have hresult : result = attrs := Attrs.ext_get? fun key => by
    rw [hget, lookup_scopeFirst]
    simp
  have hloc : Location.parse (String.ofList loc.toChars) = .ok loc := Location.parse_render h.loc
  rw [fieldsOf_eq]
  refine bind_eq_ok_iff.2 ⟨loc, mapError_eq_ok_iff.2 hloc, ?_⟩
  refine bind_eq_ok_iff.2 ⟨attrs, hresult ▸ hread, ?_⟩
  rw [String.ofList_toList]
  rfl

theorem writable_of_ofFields {fields : List (List Char)} {e : Entry}
    (h : ofFields fields = .ok e) : e.Writable := by
  unfold ofFields at h
  split at h
  · rename_i name loc fields
    obtain ⟨l, hloc, h⟩ := bind_eq_ok_iff.1 h
    obtain ⟨attrs, hattrs, h⟩ := bind_eq_ok_iff.1 h
    cases h
    refine ⟨Location.writable_of_parse (mapError_eq_ok_iff.1 hloc), ?_⟩
    intro key hkey
    rcases keys_of_readAttrs hattrs hkey with hold | hgood
    · cases hold
    · exact hgood
  · cases h

/-- Whatever is read is writable. -/
theorem writable_of_decode {line : String} {e : Entry} (h : decode line = .ok e) :
    e.Writable := by
  obtain ⟨fields, -, hfields⟩ := bind_eq_ok_iff.1 h
  exact writable_of_ofFields hfields

theorem decode_encode {e : Entry} (h : e.Writable) : decode (encode e) = .ok e := by
  have hsplit : splitFields (encode e).toList = .ok (fieldsOf e) := by
    rw [encode, String.toList_ofList, splitFields_joinFields]
  exact bind_eq_ok_iff.2 ⟨fieldsOf e, mapError_eq_ok_iff.2 hsplit, ofFields_fieldsOf h⟩

/-! ### Lines -/

theorem escapeChar_oneLine {c d : Char} (h : d ∈ escapeChar c) : d ≠ '\n' ∧ d ≠ '\r' := by
  unfold escapeChar at h
  split at h
  · simp only [List.mem_cons, List.not_mem_nil, or_false, or_self] at h
    subst h
    decide
  · split at h
    · simp only [List.mem_cons, List.not_mem_nil, or_false, or_self] at h
      subst h
      decide
    · split at h
      · simp only [List.mem_cons, List.not_mem_nil, or_false] at h
        rcases h with rfl | rfl <;> decide
      · split at h
        · simp only [List.mem_cons, List.not_mem_nil, or_false] at h
          rcases h with rfl | rfl <;> decide
        · rename_i hfeed hreturn
          rw [List.mem_singleton] at h
          subst h
          exact ⟨hfeed, hreturn⟩

theorem encodeField_oneLine {field : List Char} {d : Char} (h : d ∈ encodeField field) :
    d ≠ '\n' ∧ d ≠ '\r' := by
  unfold encodeField at h
  split at h
  · simp only [List.cons_append, List.mem_cons, List.mem_append, List.mem_flatMap,
      List.not_mem_nil, or_false] at h
    rcases h with rfl | ⟨c, -, hd⟩ | rfl
    · decide
    · exact escapeChar_oneLine hd
    · decide
  · -- Both are blank, and a field with a blank is quoted.
    rename_i hplain
    constructor <;>
      (rintro rfl
       exact hplain (by simp only [needsQuotes, Bool.or_eq_true, List.any_eq_true]
                        exact .inr ⟨_, h, .inl (by decide)⟩))

/-- **A record is one line.** -/
theorem encode_oneLine {e : Entry} {d : Char} (h : d ∈ (encode e).toList) :
    d ≠ '\n' ∧ d ≠ '\r' := by
  rw [encode, String.toList_ofList] at h
  generalize fieldsOf e = fields at h
  induction fields with
  | nil => cases h
  | cons field fields ih =>
    cases fields with
    | nil =>
      rw [joinFields_singleton] at h
      exact encodeField_oneLine h
    | cons next fields =>
      rw [joinFields_cons_cons, List.mem_append, List.mem_cons] at h
      rcases h with h | rfl | h
      · exact encodeField_oneLine h
      · decide
      · exact ih h

/-- A written field keeps its ends when a line is trimmed. -/
theorem encodeField_isTight (field : List Char) : Text.IsTight (encodeField field) := by
  have hquote : Text.IsTight ['"'] := by
    refine .of_forall (by simp) ?_
    intro c hc
    rw [List.mem_singleton.1 hc]
    decide
  unfold encodeField
  split
  · exact hquote.append (field.flatMap escapeChar) hquote
  · rename_i hplain
    simp only [needsQuotes, Bool.or_eq_true, List.isEmpty_iff, List.any_eq_true, beq_iff_eq,
      not_or, not_exists, not_and] at hplain
    exact .of_forall hplain.1 fun c hc => by simpa using (hplain.2 c hc).1

theorem joinFields_isTight {fields : List (List Char)} (hne : fields ≠ []) :
    Text.IsTight (joinFields fields) := by
  induction fields with
  | nil => exact absurd rfl hne
  | cons field fields ih =>
    cases fields with
    | nil =>
      rw [joinFields_singleton]
      exact encodeField_isTight field
    | cons next fields =>
      rw [joinFields_cons_cons, ← List.singleton_append, ← List.append_assoc]
      exact (encodeField_isTight field).append [' '] (ih (by simp))

/-- **A record is not blank, and trimming its line leaves it alone.** -/
theorem encode_isTight (e : Entry) : Text.IsTight (encode e).toList := by
  rw [encode, String.toList_ofList, fieldsOf_eq]
  exact joinFields_isTight (by simp)

/-! ### The domain of records -/

/-- **Exactly the writable entries are read back from their records,** and every record is a
single line, whatever it stands for. -/
theorem decode_encode_iff (e : Entry) :
    (decode (encode e) = .ok e ↔ e.Writable)
      ∧ '\n' ∉ (encode e).toList ∧ '\r' ∉ (encode e).toList := by
  refine ⟨⟨writable_of_decode, decode_encode⟩, ?_, ?_⟩
  · intro h
    exact (encode_oneLine h).1 rfl
  · intro h
    exact (encode_oneLine h).2 rfl

end Record

end CrossTag
