import CrossTag.Proofs.Directories
import CrossTag.Proofs.Query

/-!
# Texts as patterns for themselves

A text that is handed to a compiler of patterns is read as a pattern, whatever it was before. Here
it is asked which texts fit themselves when that happens:

    exact     every text
    glob      a plain path without an empty component (`Glob.IsPlain.fits_iff`)
    regexp    a text of characters that stand for themselves, and of dots (`Regex.IsPlain.fits`)

A plain path that has an empty component, such as a path from the root, does not fit itself as a
glob: an empty component of a pattern is passed over, an empty component of a path is not, and so
the two sides come apart behind it.

A regular expression without any marks is read into a row of classes, one for each character
(`readAlternatives_plain`), and a row of classes matches every text whose characters they accept
(`testBit_ends_concat`).
-/

namespace CrossTag

open Outcome

/-! ### Wildcards -/

namespace Wildcard

/-- A character that stands for itself. -/
def IsLiteral (c : Char) : Prop :=
  c ≠ '*' ∧ c ≠ '?' ∧ c ≠ '['

instance : DecidablePred IsLiteral := fun c =>
  inferInstanceAs (Decidable (c ≠ '*' ∧ c ≠ '?' ∧ c ≠ '['))

theorem readItems_literal {cs : List Char} (h : ∀ c ∈ cs, IsLiteral c) (position : Nat) :
    readItems position cs = .ok (cs.map .literal) := by
  induction cs generalizing position with
  | nil =>
    rw [readItems]
    rfl
  | cons c cs ih =>
    have hc := h c List.mem_cons_self
    have hrest := ih (fun d hd => h d (List.mem_cons_of_mem _ hd)) (position + 1)
    rw [readItems.eq_def]
    split <;> rename_i heq
    all_goals cases heq
    case h_8 =>
      rw [hrest]
      rfl
    -- In every other case the text starts with a mark.
    all_goals exact absurd hc (by decide)

theorem matchItems_literal_iff {cs name : List Char} :
    matchItems (cs.map .literal) name = true ↔ cs = name := by
  induction cs generalizing name with
  | nil =>
    rw [List.map_nil, matchItems, List.isEmpty_iff]
    exact eq_comm
  | cons c cs ih =>
    cases name with
    | nil => simp [matchItems]
    | cons d name => simp [matchItems, ih]

end Wildcard

/-! ### Globs -/

namespace Glob

/-- A path that has no mark of a glob: nothing but literal characters, no `!` in front and neither a
space nor a separator at the end. -/
structure IsPlain (path : List Char) : Prop where
  ne_nil : path ≠ []
  literal : ∀ c ∈ path, Wildcard.IsLiteral c
  head : path.head? ≠ some '!'
  last : ∀ c ∈ path.getLast?, c ≠ ' ' ∧ c ≠ separator

/-- The segment of a literal component. -/
def literalSegment (component : List Char) : Segment Wildcard :=
  if component = [] then .root else .one ⟨component.map .literal⟩

theorem literalSegment_nil : literalSegment [] = .root := rfl

theorem literalSegment_of_ne {c : List Char} (h : c ≠ []) :
    literalSegment c = .one ⟨c.map .literal⟩ :=
  if_neg h

theorem readSegment_literal {c : List Char} (h : ∀ a ∈ c, Wildcard.IsLiteral a) :
    readSegment c = .ok (literalSegment c) := by
  by_cases hc : c = []
  · subst hc
    rfl
  · have hstar : '*' ∉ c := fun hmem => (h '*' hmem).1 rfl
    have hcut : Text.cutAt? ['*', '*'] c = none := by
      rw [Text.cutAt?_eq_none_iff]
      rintro before after rfl
      simp at hstar
    have hne : c ≠ ['*', '*'] := by
      rintro rfl
      simp at hstar
    rw [readSegment, literalSegment_of_ne hc]
    simp [hc, hne, hcut, Wildcard.parse, Wildcard.readItems_literal h, Except.map]

/-- The glob of a path all of whose characters are literal. -/
def literalGlob (path : String) : Glob where
  source := path
  shape :=
    if separator ∈ path.toList then .anchored ((components path.toList).map literalSegment)
    else .anywhere ⟨path.toList.map .literal⟩
  dirOnly := false

theorem mergeStars_literal {cs : List Char} (h : ∀ c ∈ cs, Wildcard.IsLiteral c) :
    mergeStars cs = cs := by
  induction cs with
  | nil => rfl
  | cons c cs ih =>
    have hc : c ≠ '*' := (h c List.mem_cons_self).1
    rw [mergeStars.eq_def]
    split <;> rename_i heq
    · cases heq
      exact absurd rfl hc
    · cases heq
      rw [ih fun d hd => h d (List.mem_cons_of_mem _ hd)]
    · cases heq

/-! ### Paths against their own components -/

theorem holds_literal_iff {c d : List Char} :
    Wildcard.isMatch ⟨c.map .literal⟩ d = true ↔ c = d :=
  Wildcard.matchItems_literal_iff

/-- Without an empty component, each component takes itself. -/
theorem consume_literal {cs : List (List Char)} (hcs : [] ∉ cs) {matched : Bool}
    (hmatched : matched = true ∨ cs ≠ []) :
    consume Wildcard.isMatch false matched (cs.map literalSegment) cs = some [] := by
  induction cs generalizing matched with
  | nil =>
    have hmatched : matched = true := by simpa using hmatched
    rw [hmatched]
    rfl
  | cons c cs ih =>
    have hc : c ≠ [] := fun h => hcs (h ▸ List.mem_cons_self)
    have hrest : [] ∉ cs := fun h => hcs (List.mem_cons_of_mem _ h)
    rw [List.map_cons, literalSegment_of_ne hc, consume]
    simp only [holds_literal_iff.2 rfl, if_true]
    exact ih hrest (.inl rfl)

/-- Nothing but an empty component of a pattern gets past an empty component of a path. -/
theorem consume_at_empty {cs : List (List Char)} (hne : ∃ c ∈ cs, c ≠ []) (matched : Bool)
    (rest : List (List Char)) :
    consume Wildcard.isMatch false matched (cs.map literalSegment) ([] :: rest) = none := by
  induction cs with
  | nil =>
    obtain ⟨c, hc, -⟩ := hne
    cases hc
  | cons c cs ih =>
    by_cases hc : c = []
    · subst hc
      rw [List.map_cons, literalSegment_nil, consume]
      apply ih
      obtain ⟨d, hd, hd'⟩ := hne
      rcases List.mem_cons.1 hd with rfl | hd
      · exact absurd rfl hd'
      · exact ⟨d, hd, hd'⟩
    · have hmiss : ¬ Wildcard.isMatch ⟨c.map .literal⟩ [] = true :=
        fun h => hc (holds_literal_iff.1 h)
      rw [List.map_cons, literalSegment_of_ne hc, consume]
      exact if_neg hmiss

/-- With an empty component before the last one, the components do not match themselves. -/
theorem consume_literal_of_empty {cs : List (List Char)} (hcs : [] ∈ cs)
    (hlast : cs.getLast? ≠ some []) (matched : Bool) :
    consume Wildcard.isMatch false matched (cs.map literalSegment) cs = none := by
  induction cs generalizing matched with
  | nil => cases hcs
  | cons c cs ih =>
    -- There is something behind an empty component, since it is not the last one.
    have htail : cs ≠ [] ∧ cs.getLast? ≠ some [] := by
      cases cs with
      | nil =>
        cases List.mem_singleton.1 hcs
        exact absurd rfl hlast
      | cons d ds => exact ⟨by simp, by rwa [List.getLast?_cons_cons] at hlast⟩
    by_cases hc : c = []
    · subst hc
      rw [List.map_cons, literalSegment_nil, consume]
      have hmem := List.getLast?_eq_some_getLast htail.1
      refine consume_at_empty ⟨_, List.mem_of_getLast? hmem, ?_⟩ matched cs
      intro hempty
      exact htail.2 (hmem.trans (congrArg some hempty))
    · have hcs' : [] ∈ cs := (List.mem_cons.1 hcs).resolve_left (Ne.symm hc)
      rw [List.map_cons, literalSegment_of_ne hc, consume]
      simp only [holds_literal_iff.2 rfl, if_true]
      exact ih hcs' htail.2 true

namespace IsPlain

variable {path : String}

/-- Nothing is dropped from a plain path. -/
theorem dropped_eq (h : IsPlain path.toList) :
    dropSeparator (dropSpaces ((Text.dropStart? ['!'] path.toList).getD path.toList))
      = (path.toList, false) := by
  have hstart : Text.dropStart? ['!'] path.toList = none := by
    rw [Option.eq_none_iff_forall_ne_some]
    intro rest hrest
    exact h.head (by rw [Text.dropStart?_eq_some_iff.1 hrest]; rfl)
  obtain ⟨front, c, hpath⟩ := (List.eq_nil_or_concat path.toList).resolve_left h.ne_nil
  have hc : c ≠ ' ' ∧ c ≠ separator := h.last c (by rw [hpath]; simp)
  have hreverse : path.toList.reverse = c :: front.reverse := by rw [hpath]; simp
  have hspaces : dropSpaces path.toList = path.toList := by
    rw [dropSpaces, hreverse]
    split <;> rename_i heq
    · rfl
    · rw [List.dropWhile_cons_of_neg (by simpa using hc.1), ← hreverse, List.reverse_reverse]
  rw [hstart, Option.getD_none, hspaces, dropSeparator, hreverse]
  exact if_neg hc.2

theorem parse_eq (h : IsPlain path.toList) : parse path = .ok (literalGlob path) := by
  have hsegments : (components path.toList).mapM readSegment
      = .ok ((components path.toList).map literalSegment) := by
    rw [mapM_congr fun c hc => readSegment_literal fun a ha =>
      h.literal a (Path.mem_of_mem_components hc ha).1]
    exact List.mapM_pure
  rw [parse, h.dropped_eq, literalGlob]
  by_cases hsep : separator ∈ path.toList
  · simp [hsep, hsegments]
  · have hwildcard : Wildcard.parse (mergeStars path.toList)
        = .ok ⟨path.toList.map .literal⟩ := by
      rw [mergeStars_literal h.literal, Wildcard.parse, Wildcard.readItems_literal h.literal]
      rfl
    simp [hsep, hwildcard]

/-- The last component of a plain path is not empty. -/
theorem getLast?_components (h : IsPlain path.toList) :
    (components path.toList).getLast? ≠ some [] := by
  intro hlast
  obtain ⟨front, hfront⟩ := List.getLast?_eq_some_iff.1 hlast
  have hdir : isDirectory path.toList = false := by
    rw [isDirectory, beq_eq_false_iff_ne]
    intro hsep
    exact (h.last separator hsep).2 rfl
  have hpieces : Path.pieces path = front.map String.ofList ++ [""] := by
    rw [Path.pieces, hfront, List.map_append]
    rfl
  exact Path.last_ne_empty hpieces (fun hempty => h.ne_nil (by rw [hempty]; rfl)) hdir rfl

/-- **A plain path fits itself as a glob exactly if it has no empty component.** -/
theorem fits_iff (h : IsPlain path.toList) :
    PatternKind.glob.Fits path path ↔ [] ∉ components path.toList := by
  have hcompile : Pattern.compile .glob path = .ok (.glob (literalGlob path)) := by
    rw [Pattern.compile, h.parse_eq]
    rfl
  rw [PatternKind.fits_iff_of_compile hcompile]
  show (literalGlob path).isMatch path = true ↔ _
  by_cases hsep : separator ∈ path.toList
  · simp only [isMatch, literalGlob, if_pos hsep, matchSegments]
    by_cases hempty : [] ∈ components path.toList
    · rw [consume_literal_of_empty hempty h.getLast?_components]
      simp [hempty]
    · rw [consume_literal hempty (.inr (List.splitOn_ne_nil _ _))]
      simp [hempty]
  · have hone : components path.toList = [path.toList] := List.splitOn_eq_singleton hsep
    simp only [isMatch, literalGlob, if_neg hsep, hone, matchAny, holds_literal_iff.2 rfl]
    simp [h.ne_nil.symm]

end IsPlain

end Glob

/-! ### Regular expressions -/

namespace Regex

/-- The bits of `marks` for a condition on the next character only. -/
theorem testBit_marks (accepts : Char → Bool) (before : Option Char) (text : List Char) (i : Nat) :
    (marks (fun _ next => next.any accepts) before text).testBit i = text[i]?.any accepts := by
  induction text generalizing before i with
  | nil => simp [marks]
  | cons c cs ih =>
    cases i with
    | zero =>
      rw [marks, Nat.testBit_zero]
      cases h : accepts c <;> simp [h]
    | succ i =>
      have hhalf : (((some c).any accepts).toNat
          + 2 * marks (fun _ next => next.any accepts) (some c) cs) / 2
            = marks (fun _ next => next.any accepts) (some c) cs := by
        have := Bool.toNat_lt ((some c).any accepts)
        omega
      rw [marks, Nat.testBit_succ, hhalf, ih, List.getElem?_cons_succ]

theorem testBit_ends_char {accepts : Char → Bool} {text : List Char} {positions i : Nat} {c : Char}
    (hi : positions.testBit i = true) (hc : text[i]? = some c) (haccepts : accepts c = true) :
    (ends text (char accepts) positions).testBit (i + 1) = true := by
  rw [ends, Nat.testBit_shiftLeft, Nat.testBit_and, testBit_marks]
  simp [hi, hc, haccepts]

/-- A row of classes leads along the characters that they accept. -/
theorem testBit_ends_concat {cs : List Char} {classes : Char → Class}
    (hclasses : ∀ c ∈ cs, classes c c = true) {text before after : List Char}
    (htext : text = before ++ cs ++ after) {positions : Nat}
    (hstart : positions.testBit before.length = true) :
    (ends text (concat (cs.map fun c => char (classes c))) positions).testBit
      (before.length + cs.length) = true := by
  induction cs generalizing before positions with
  | nil => exact hstart
  | cons c cs ih =>
    have hc : text[before.length]? = some c := by simp [htext]
    have hstep := testBit_ends_char hstart hc (hclasses c List.mem_cons_self)
    have hrest := @ih (fun d hd => hclasses d (List.mem_cons_of_mem _ hd)) (before ++ [c])
      (by simp [htext]) (ends text (char (classes c)) positions) (by simpa using hstep)
    have hlength : before.length + (c :: cs).length = (before ++ [c]).length + cs.length := by
      simp
      omega
    rw [hlength]
    exact hrest

/-! ### Reading plain texts -/

/-- A character that makes a part of its own: it has no meaning to regular expressions, or it is the
dot. -/
def IsLiteral (c : Char) : Prop :=
  c ∉ ['\\', '+', '*', '?', '(', ')', '|', '[', '\x7b', '^', '$']

/-- The class that such a character stands for. -/
def ownClass (c : Char) : Class :=
  if c = '.' then dotClass {} else (· == c)

theorem ownClass_self (c : Char) : ownClass c c = true := by
  by_cases hc : c = '.'
  · subst hc
    rfl
  · simp [ownClass, hc]

/-- The part that such a character is read as. -/
def ownPart (c : Char) : Part :=
  if c = '.' then setPart (dotClass {}) 0 else literalPart {} c

theorem ownPart_regex (c : Char) : (ownPart c).regex = char (ownClass c) := by
  by_cases hc : c = '.'
  · simp [ownPart, ownClass, setPart, hc]
  · simp [ownPart, ownClass, literalPart, underFlags, hc]

theorem ownPart_depth (c : Char) : (ownPart c).depth = 0 := by
  by_cases hc : c = '.'
  · simp [ownPart, setPart, hc]
  · simp [ownPart, literalPart, hc]

theorem ownPart_size (c : Char) : (ownPart c).size ≤ 10 := by
  by_cases hc : c = '.'
  · simp [ownPart, setPart, hc]
  · have hsize := c.utf8Size_le_four
    simp only [ownPart, literalPart, if_neg hc]
    omega

/-- Reading a character without a meaning adds its part. -/
theorem readAlternatives_cons {c : Char} (hc : IsLiteral c) (fuel : Nat) (parts : List Part)
    (cs : List Char) (names : List (List Char)) :
    (readAlternatives (fuel + 1) {} [] parts).run ⟨c :: cs, names⟩
      = (readAlternatives fuel {} [] (ownPart c :: parts)).run ⟨cs, names⟩ := by
  rw [readAlternatives]
  simp only [skipSpace, Bool.false_eq_true, if_false, pure_bind, StateT.run_bind, StateT.run_get]
  split <;> rename_i heq
  all_goals cases heq
  -- The dot has a branch of its own, and a character without a meaning has the last one.
  case h_10 => rfl
  case h_14 hdot _ _ _ =>
    rw [ownPart, if_neg hdot]
    rfl
  all_goals exact absurd hc (by simp [IsLiteral])

/-- Reading a text without meaning gives the row of its parts. -/
theorem readAlternatives_plain {cs : List Char} (h : ∀ c ∈ cs, IsLiteral c) {fuel : Nat}
    (hfuel : cs.length < fuel) (parts : List Part) (names : List (List Char)) :
    (readAlternatives fuel {} [] parts).run ⟨cs, names⟩
      = .ok (sequencePart ((cs.map ownPart).reverse ++ parts), ⟨[], names⟩) := by
  induction cs generalizing fuel parts with
  | nil =>
    obtain ⟨fuel, rfl⟩ := Nat.exists_eq_succ_of_ne_zero (Nat.ne_of_gt hfuel)
    rw [readAlternatives]
    rfl
  | cons c cs ih =>
    obtain ⟨fuel, rfl⟩ := Nat.exists_eq_succ_of_ne_zero (Nat.ne_zero_of_lt hfuel)
    have hrest := @ih (fun d hd => h d (List.mem_cons_of_mem _ hd)) fuel
      (Nat.lt_of_succ_lt_succ hfuel) (ownPart c :: parts)
    rw [readAlternatives_cons (h c List.mem_cons_self), hrest]
    simp

theorem ends_sequencePart (text : List Char) (parts : List Part) (positions : Nat) :
    ends text (sequencePart parts).regex positions
      = ends text (concat (parts.reverse.map (·.regex))) positions := by
  unfold sequencePart
  split
  · rfl
  · rfl
  · rfl

theorem sequencePart_depth {parts : List Part} (h : ∀ part ∈ parts, part.depth = 0) :
    (sequencePart parts).depth ≤ 1 := by
  have hmax : (parts.map (·.depth)).foldl max 0 = 0 := by
    induction parts with
    | nil => rfl
    | cons part parts ih =>
      rw [List.map_cons, List.foldl_cons, h part List.mem_cons_self]
      exact ih fun p hp => h p (List.mem_cons_of_mem _ hp)
  unfold sequencePart
  split
  · exact Nat.zero_le 1
  · rename_i part
    rw [h part List.mem_cons_self]
    exact Nat.zero_le 1
  · show (parts.map (·.depth)).foldl max 0 + 1 ≤ 1
    exact Nat.le_of_eq (congrArg (· + 1) hmax)

theorem sequencePart_size {parts : List Part} {n : Nat} (h : ∀ part ∈ parts, part.size ≤ n)
    (hne : parts ≠ []) : (sequencePart parts).size ≤ n * parts.length := by
  have hsum : ∀ start, (parts.map (·.size)).foldl (· + ·) start ≤ start + n * parts.length := by
    clear hne
    induction parts with
    | nil => exact fun start => Nat.le_refl _
    | cons part parts ih =>
      intro start
      have hpart := h part List.mem_cons_self
      have hrest := ih (fun p hp => h p (List.mem_cons_of_mem _ hp)) (start + part.size)
      rw [List.map_cons, List.foldl_cons, List.length_cons, Nat.mul_succ]
      omega
  unfold sequencePart
  split
  · exact absurd rfl hne
  · rename_i part
    simpa using h part List.mem_cons_self
  · simpa using hsum 0

/-- The part that a text is read as if none of its characters has a meaning. -/
def row (text : List Char) : Part :=
  sequencePart (text.map ownPart).reverse

theorem row_depth (text : List Char) : (row text).depth ≤ 1 := by
  apply sequencePart_depth
  intro part hpart
  obtain ⟨c, -, rfl⟩ := List.mem_map.1 (List.mem_reverse.1 hpart)
  exact ownPart_depth c

theorem row_size {text : List Char} (hne : text ≠ []) : (row text).size ≤ 10 * text.length := by
  have hsize : ∀ part ∈ (text.map ownPart).reverse, part.size ≤ 10 := by
    intro part hpart
    obtain ⟨c, -, rfl⟩ := List.mem_map.1 (List.mem_reverse.1 hpart)
    exact ownPart_size c
  have hrow := sequencePart_size hsize (by simpa using hne)
  rwa [List.length_reverse, List.length_map] at hrow

/-- A text that is read as the row of its characters and is not too long to be compiled. -/
structure IsPlain (text : List Char) : Prop where
  ne_nil : text ≠ []
  literal : ∀ c ∈ text, IsLiteral c
  length_le : text.length ≤ 32768

namespace IsPlain

theorem parse_eq {text : List Char} (h : IsPlain text) : parse text = .ok (row text).regex := by
  have hread : (readAlternatives (2 * text.length + 2) {} [] []).run ⟨text, []⟩
      = .ok (row text, ⟨[], []⟩) := by
    rw [readAlternatives_plain h.literal (by omega), List.append_nil]
    rfl
  have hdepth : ¬ depthLimit < (row text).depth := by
    have hrow := row_depth text
    simp only [depthLimit]
    omega
  have hsize : ¬ sizeLimit < (row text).size * stateSize := by
    have hrow := row_size h.ne_nil
    have hlength := h.length_le
    simp only [sizeLimit, stateSize]
    omega
  rw [parse, hread]
  simp [hdepth, hsize, bind, Except.bind, pure, Except.pure]

/-- **A plain text fits itself as a regular expression.** -/
theorem fits {text : String} (h : IsPlain text.toList) : PatternKind.regexp.Fits text text := by
  have hcompile : Pattern.compile .regexp text = .ok (.regexp (row text.toList).regex) := by
    rw [Pattern.compile, h.parse_eq]
    rfl
  rw [PatternKind.fits_iff_of_compile hcompile]
  show isMatch (row text.toList).regex text.toList = true
  have hstart : ((1 <<< (text.toList.length + 1)) - 1).testBit ([] : List Char).length = true := by
    simp [Nat.one_shiftLeft]
  have hend := testBit_ends_concat (fun c _ => ownClass_self c)
    (show text.toList = [] ++ text.toList ++ [] by simp) hstart
  have hregexes : (text.toList.map ownPart).reverse.reverse.map (·.regex)
      = text.toList.map fun c => char (ownClass c) := by
    rw [List.reverse_reverse, List.map_map]
    exact List.map_congr_left fun c _ => ownPart_regex c
  rw [isMatch, row, ends_sequencePart, hregexes, bne_iff_ne]
  intro hzero
  rw [hzero] at hend
  simp at hend

end IsPlain

end Regex

end CrossTag
