import CrossTag.Tag.Element
import CrossTag.Proofs.Record
import CrossTag.Proofs.Store
import CrossTag.Proofs.Tag.Reader

/-!
# Indexes are read back

The text of an index is its header and its records, each ended by a line feed. Reading it back
undoes every part of that:

* cutting at line feeds gives the lines again, since none of them holds one, and an empty line
  behind the last (`splitOn_lines`);
* trimming leaves a record as it is, and leaves a header a header, whatever the comment ends
  with (`isHeader_trim_header`);
* each record is read as the entry that it was written for (`readLines_records`);
* sorting what is sorted changes nothing, so entries that agree in name and location keep their
  order (`ofList_entries`).

This needs entries that a record can stand for. Of that kind are all entries that were read from
a text, however it was spaced and quoted (`writable_of_deserialize`), and all entries of tags at
writable locations (`writable_of_parseAll`).
-/

namespace CrossTag

namespace Index

/-! ### Lines -/

/-- Texts without line feeds are found again between the line feeds put behind them. -/
theorem splitOn_lines {lines : List (List Char)} (h : ∀ line ∈ lines, '\n' ∉ line) :
    (lines.flatMap (· ++ ['\n'])).splitOn '\n' = lines ++ [[]] := by
  induction lines with
  | nil => rfl
  | cons line lines ih =>
    have hline : '\n' ∉ line := h line List.mem_cons_self
    have hlines : ∀ other ∈ lines, '\n' ∉ other := fun other hmem =>
      h other (List.mem_cons_of_mem _ hmem)
    rw [List.flatMap_cons, List.append_assoc, List.singleton_append,
      List.splitOn_append_cons_self_of_not_mem hline, ih hlines, List.cons_append]

theorem toList_serialize (index : Index) (comment : String) :
    (index.serialize comment).toList
      = ((index.lines comment).map String.toList).flatMap (· ++ ['\n']) := by
  simp [serialize, List.flatMap_map]

/-! ### Headers -/

/-- What stands behind the version marker of a header: nothing, or a space and the comment. -/
def headerTail (comment : String) : List Char :=
  if comment.isEmpty then [] else ' ' :: comment.toList

theorem toList_header (comment : String) :
    (header comment).toList = versionMarker.toList ++ headerTail comment := by
  unfold header headerTail
  split
  · rw [List.append_nil]
  · simp

theorem header_oneLine {comment : String} (h : '\n' ∉ comment.toList) :
    '\n' ∉ (header comment).toList := by
  have hmarker : '\n' ∉ versionMarker.toList := by decide
  rw [toList_header, List.mem_append, headerTail]
  split
  · simpa using hmarker
  · simpa using ⟨hmarker, h⟩

/-- Trimming a header takes blanks off its comment only. -/
theorem trim_header (comment : String) :
    Text.trim (header comment).toList
      = versionMarker.toList ++ Text.trimEnd (headerTail comment) := by
  have hmarker : versionMarker.toList = ['#', ' ', 'v'] ++ ['4'] := by decide
  have hstart : Text.trimStart (versionMarker.toList ++ headerTail comment)
      = versionMarker.toList ++ headerTail comment := by
    rw [hmarker]
    exact Text.trimStart_cons_of_not_blank (by decide)
  rw [Text.trim, toList_header, hstart, hmarker, List.append_assoc, List.append_assoc]
  exact Text.trimEnd_append (by decide) (headerTail comment)

theorem isHeader_trim_header (comment : String) :
    isHeader (Text.trim (header comment).toList) = true := by
  rw [trim_header, isHeader, Text.dropStart?_eq_some_iff.2 rfl]
  -- If trimming leaves anything, it leaves the space in front of the comment.
  cases htail : Text.trimEnd (headerTail comment) with
  | nil => rfl
  | cons c cs =>
    obtain ⟨rest, hrest⟩ := Text.trimEnd_prefix (headerTail comment)
    rw [htail, headerTail] at hrest
    split at hrest
    · cases hrest
    · have hc : c = ' ' := (List.cons.inj hrest).1
      exact beq_iff_eq.2 hc

/-! ### Reading -/

/-- Records are read one by one, and the empty line at the end is passed over. -/
theorem readLines_records {entries : List Entry} (h : ∀ e ∈ entries, e.Writable) (number : Nat) :
    readLines true number
        ((entries.map fun e => some (Record.encode e).toList) ++ [some []])
      = ⟨entries, none⟩ := by
  induction entries generalizing number with
  | nil => rfl
  | cons e entries ih =>
    have htight := Record.encode_isTight e
    have hdecode : Record.decode (String.ofList (Record.encode e).toList) = .ok e := by
      rw [String.ofList_toList]
      exact Record.decode_encode (h e List.mem_cons_self)
    have hne : ¬ (Record.encode e).toList.isEmpty = true := by
      rw [List.isEmpty_iff]
      exact htight.ne
    have hrest := ih (fun e he => h e (List.mem_cons_of_mem _ he)) (number + 1)
    rw [List.map_cons, List.cons_append, readLines]
    simp only [htight.trim_eq, if_neg hne, hdecode, hrest, if_true]

theorem readText_serialize {index : Index} (h : ∀ e ∈ index.entries, e.Writable)
    {comment : String} (hcomment : '\n' ∉ comment.toList) :
    readText (index.serialize comment) = ⟨index.entries, none⟩ := by
  have hlines : ∀ line ∈ (index.lines comment).map String.toList, '\n' ∉ line := by
    simp only [lines, List.map_cons, List.map_map, List.mem_cons, List.mem_map,
      Function.comp_apply]
    rintro line (rfl | ⟨e, -, rfl⟩)
    · exact header_oneLine hcomment
    · exact fun hmem => (Record.encode_oneLine hmem).1 rfl
  -- The header is the first line that is not blank, so the records start at line 2.
  have hheader : ¬ (Text.trim (header comment).toList).isEmpty = true := by
    rw [trim_header]
    simp [versionMarker]
  have hrecords := readLines_records h 2
  rw [readText, toList_serialize, splitOn_lines hlines, lines, List.map_cons, List.cons_append,
    List.map_cons, readLines]
  simp only [if_neg hheader, isHeader_trim_header, if_true, Bool.false_eq_true, if_false]
  simpa [Function.comp_def] using hrecords

/-! ### Sorting -/

theorem ofList_entries (index : Index) : ofList index.entries = index := by
  obtain ⟨entries, hsorted⟩ := index
  simp only [ofList, List.mergeSort_of_pairwise hsorted]

theorem mem_ofList {entries : List Entry} {e : Entry} :
    e ∈ (ofList entries).entries ↔ e ∈ entries :=
  List.mem_mergeSort

/-- **An index of writable entries is read back from its text.** -/
theorem deserialize_serialize {index : Index} (h : ∀ e ∈ index.entries, e.Writable)
    {comment : String} (hcomment : '\n' ∉ comment.toList) :
    deserialize (index.serialize comment) = .ok index := by
  rw [deserialize, readText_serialize h hcomment]
  show Except.ok (ofList index.entries) = .ok index
  rw [ofList_entries]

/-! ### Indexes that were read -/

/-- Every entry that was read is what some record says. -/
theorem exists_record_of_mem_readLines {headed : Bool} {number : Nat}
    {lines : List (Option (List Char))} {e : Entry}
    (h : e ∈ (readLines headed number lines).entries) :
    ∃ line, Record.decode line = .ok e := by
  fun_induction readLines headed number lines with
  | case1 => cases h
  | case2 => cases h
  | case3 headed number line rest text hblank ih => exact ih h
  | case4 number line rest text hne reason hdecode => cases h
  | case5 number line rest text hne entry hdecode reading ih =>
    rcases List.mem_cons.1 h with rfl | h
    · exact ⟨_, hdecode⟩
    · exact ih h
  | case6 headed number line rest text hne hheaded hheader ih => exact ih h
  | case7 => cases h

theorem writable_of_deserialize {text : String} {index : Index}
    (h : deserialize text = .ok index) {e : Entry} (he : e ∈ index.entries) : e.Writable := by
  unfold deserialize Reading.toIndex at h
  split at h
  · cases h
  · cases h
    obtain ⟨line, hline⟩ := exists_record_of_mem_readLines (mem_ofList.1 he)
    exact Record.writable_of_decode hline

/-- **Whatever is read can be written, and is read back from what is written.** So writing what was
read brings a text into a form that doing the same again does not change. The entry of any line
that can be read at all is read back from its own record. -/
theorem deserialize_normalizes {text comment : String} (hcomment : '\n' ∉ comment.toList) :
    (∀ index, deserialize text = .ok index → deserialize (index.serialize comment) = .ok index)
      ∧ (∀ written, (deserialize text).map (·.serialize comment) = .ok written →
          (deserialize written).map (·.serialize comment) = .ok written)
      ∧ ∀ line e, Record.decode line = .ok e →
          e.Writable ∧ Record.decode (Record.encode e) = .ok e := by
  have hback : ∀ index, deserialize text = .ok index →
      deserialize (index.serialize comment) = .ok index := by
    intro index hread
    exact deserialize_serialize (fun e he => writable_of_deserialize hread he) hcomment
  refine ⟨hback, ?_, ?_⟩
  · intro written hwritten
    obtain ⟨index, hread, rfl⟩ := Outcome.map_eq_ok_iff.1 hwritten
    exact Outcome.map_eq_ok_iff.2 ⟨index, hback index hread, rfl⟩
  · intro line e hdecode
    have hwritable := Record.writable_of_decode hdecode
    exact ⟨hwritable, Record.decode_encode hwritable⟩

/-- A text that no writer leaves: blanks around the lines and between the fields, quotes that are
not needed, a location of one column, and the records out of order. -/
def byHand : String :=
  "\n  # v4 by hand\n\nb \t\"f.rs:3.5\"  z  \"scope=s t/\" \n a f.rs:1.01-4 \"k\"\"=x=y\"\n"

def byHandEntries : List Entry :=
  [⟨"b", (Attrs.empty.insert "z" "").insert "scope" "s t/", ⟨"f.rs", 3, 5, 6⟩⟩,
    ⟨"a", Attrs.empty.insert "k\"" "x=y", ⟨"f.rs", 1, 1, 4⟩⟩]

theorem deserialize_byHand :
    deserialize byHand = .ok (ofList byHandEntries)
      ∧ '\n' ∉ "by hand".toList
      ∧ deserialize ((ofList byHandEntries).serialize "by hand") = .ok (ofList byHandEntries)
      ∧ ∀ written, (deserialize byHand).map (·.serialize "by hand") = .ok written →
          (deserialize written).map (·.serialize "by hand") = .ok written := by
  have hreading : readText byHand = ⟨byHandEntries, none⟩ := by decide +kernel
  have hread : deserialize byHand = .ok (ofList byHandEntries) := by
    rw [deserialize, hreading]
    rfl
  have hcomment : '\n' ∉ "by hand".toList := by decide
  obtain ⟨hback, hnormal, -⟩ := deserialize_normalizes hcomment
  exact ⟨hread, hcomment, hback _ hread, hnormal⟩

/-! ### Indexes of tags -/

/-- Well-formed keys can stand in a record. -/
theorem writable_of_parse {el : Element} {e : Entry} (h : el.parse = .ok e)
    (hloc : el.loc.Writable) : e.Writable := by
  have hparse : Tag.parse el.text el.loc = .ok e := Outcome.mapError_eq_ok_iff.1 h
  obtain ⟨s, -, hmeans⟩ := Tag.exists_sentence_of_parse hparse
  refine ⟨hmeans.loc_eq ▸ hloc, ?_⟩
  intro key hkey
  obtain ⟨hne, hequals⟩ := Tag.ne_nil_of_isKey (Tag.isKey_of_parse hparse hkey)
  exact ⟨by simpa using hne, hequals⟩

theorem writable_of_parseAll {elements : List Element} {entries : List Entry}
    (h : Element.parseAll elements = .ok entries) (hlocs : ∀ el ∈ elements, el.loc.Writable)
    {e : Entry} (he : e ∈ entries) : e.Writable := by
  obtain ⟨el, hel, hparse⟩ := Outcome.mem_of_mapM h he
  exact writable_of_parse hparse (hlocs el hel)

/-- **The index of any tags at writable locations is read back from its text,** entry for entry,
and written again it gives the same text. What a writer puts into its draft is that text. -/
theorem deserialize_serialize_of_parseAll {elements : List Element} {entries : List Entry}
    (hparse : Element.parseAll elements = .ok entries)
    (hlocs : ∀ el ∈ elements, el.loc.Writable)
    {comment : String} (hcomment : '\n' ∉ comment.toList) :
    deserialize ((ofList entries).serialize comment) = .ok (ofList entries)
      ∧ (deserialize ((ofList entries).serialize comment)).map (·.serialize comment)
        = .ok ((ofList entries).serialize comment)
      ∧ ∀ (job : Store.Job) (t t' : Tree),
        job.run t [.makeDirectory, .startDraft] = (t', .ok ()) →
        ∃ written,
          job.run t (Store.steps (ofList entries) comment) = job.run written [.sync, .publish]
            ∧ job.DraftHolds written (Bytes.ofString ((ofList entries).serialize comment)) := by
  have hwritable : ∀ e ∈ (ofList entries).entries, e.Writable := fun e he =>
    writable_of_parseAll hparse hlocs (mem_ofList.1 he)
  have hread := deserialize_serialize hwritable hcomment
  refine ⟨hread, ?_, ?_⟩
  · rw [hread]
    rfl
  · intro job t t' hstart
    exact Store.Job.run_steps hstart (ofList entries) comment

/-- Three tags, of which the first and the last agree in name and location. -/
def twoAlike : List Element :=
  [⟨"b y", ⟨"f.rs", 3, 5, 9⟩⟩, ⟨"./a k==", ⟨"s t/f.rs", 1, 1, 4⟩⟩, ⟨"b x=1", ⟨"f.rs", 3, 5, 9⟩⟩]

def twoAlikeEntries : List Entry :=
  [⟨"b", Attrs.empty.insert "y" "", ⟨"f.rs", 3, 5, 9⟩⟩,
    ⟨"a", (Attrs.empty.insert "scope" "s t/").insert "k" "=", ⟨"s t/f.rs", 1, 1, 4⟩⟩,
    ⟨"b", Attrs.empty.insert "x" "1", ⟨"f.rs", 3, 5, 9⟩⟩]

theorem deserialize_serialize_twoAlike :
    Element.parseAll twoAlike = .ok twoAlikeEntries ∧ (∀ el ∈ twoAlike, el.loc.Writable)
      ∧ '\n' ∉ "old  ".toList
      ∧ deserialize ((ofList twoAlikeEntries).serialize "old  ") = .ok (ofList twoAlikeEntries)
      ∧ ∃ written : Tree, Store.Job.DraftHolds ⟨"out/index", "draft"⟩ written
          (Bytes.ofString ((ofList twoAlikeEntries).serialize "old  ")) := by
  have hparse : Element.parseAll twoAlike = .ok twoAlikeEntries := by with_unfolding_all rfl
  have hlocs : ∀ el ∈ twoAlike, el.loc.Writable := by decide
  have hcomment : '\n' ∉ "old  ".toList := by decide
  obtain ⟨hread, -, hwrite⟩ := deserialize_serialize_of_parseAll hparse hlocs hcomment
  obtain ⟨written, -, hwritten⟩ := hwrite ⟨"out/index", "draft"⟩ ⟨[], []⟩
    ⟨[(["out"], .dir), (["out", "draft"], .file [])], []⟩ rfl
  exact ⟨hparse, hlocs, hcomment, hread, written, hwritten⟩

end Index

end CrossTag
