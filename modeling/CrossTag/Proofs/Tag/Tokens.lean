import CrossTag.Proofs.Tag.Quoted
import Mathlib.Data.List.TakeWhile

/-!
# Texts as sequences of tokens

A text is divided into tokens from the left, and what is left over after a token is divided in turn.
So a text that can be divided does not depend on what is put behind it, as long as its last word
ends there:

    text behind                   last word
    nothing                       ends
    blank, quote, equals sign     ends
    any other character           goes on

This is `tokenize_append`. Two things follow from it. Wherever a quoted string starts, it is the
token of the text that it spells, or the whole text is refused with the reason why the string cannot
go on (`tokenize_quoted`). And blanks between tokens are of no account, how many they are and
whichever they are (`parse_respaced`).
-/

namespace CrossTag.Tag

open Outcome

/-! ### One token -/

/-- A text that does not go on with a character of a word. -/
def EndsWord (cs : List Char) : Prop :=
  ∀ c ∈ cs.head?, isWordChar c = false

section Tokens

variable {cs rest front back : List Char} {tokens : List Token}

theorem tokenize_blank {w : Char} (h : Text.isBlank w = true) (cs : List Char) :
    tokenize (w :: cs) = tokenize cs := by
  rw [tokenize.eq_def]
  exact if_pos h

theorem tokenize_equals (cs : List Char) :
    tokenize ('=' :: cs) = (tokenize cs).map (.equals :: ·) := by
  rw [tokenize.eq_def]
  exact (if_neg (by decide)).trans (if_pos rfl)

theorem tokenize_string {content : List Char} (h : readString cs = .ok (content, rest)) :
    tokenize ('"' :: cs) = (tokenize rest).map (.quoted content :: ·) := by
  rw [tokenize.eq_def]
  refine (if_neg (by decide)).trans ((if_neg (by decide)).trans ((if_pos rfl).trans ?_))
  split
  · rename_i fault herror
    cases h.symm.trans herror
  · rename_i content' rest' hok
    cases h.symm.trans hok
    rfl

theorem tokenize_string_error {fault : QuotingFault} (h : readString cs = .error fault) :
    tokenize ('"' :: cs) = .error fault := by
  rw [tokenize.eq_def]
  refine (if_neg (by decide)).trans ((if_neg (by decide)).trans ((if_pos rfl).trans ?_))
  split
  · rename_i fault' herror
    cases h.symm.trans herror
    rfl
  · rename_i hok
    cases h.symm.trans hok

theorem isWordChar_iff {c : Char} :
    isWordChar c = true ↔ Text.isBlank c = false ∧ c ≠ '=' ∧ c ≠ '"' := by
  simp [isWordChar, and_assoc]

theorem EndsWord.append (hfront : EndsWord front) (hback : EndsWord back) :
    EndsWord (front ++ back) := by
  cases front with
  | nil => exact hback
  | cons c front => exact hfront

theorem endsWord_dropWhile (cs : List Char) : EndsWord (cs.dropWhile isWordChar) := by
  intro c hc
  have hhead := List.head?_dropWhile_not isWordChar cs
  rw [hc] at hhead
  exact hhead

/-- A word is taken up to where it ends. -/
theorem takeWhile_word {word : List Char} (hword : ∀ c ∈ word, isWordChar c = true)
    (hrest : EndsWord rest) :
    (word ++ rest).takeWhile isWordChar = word ∧ (word ++ rest).dropWhile isWordChar = rest := by
  rw [List.takeWhile_append_of_pos hword, List.dropWhile_append_of_pos hword]
  cases rest with
  | nil => simp
  | cons c rest =>
    have hc : isWordChar c = false := hrest c rfl
    simp [hc]

theorem tokenize_word {word : List Char} (hne : word ≠ []) (hword : ∀ c ∈ word, isWordChar c = true)
    (hrest : EndsWord rest) : tokenize (word ++ rest) = (tokenize rest).map (.word word :: ·) := by
  obtain ⟨c, word, rfl⟩ := List.exists_cons_of_ne_nil hne
  obtain ⟨hc, hword⟩ := List.forall_mem_cons.1 hword
  obtain ⟨hblank, hequals, hquote⟩ := isWordChar_iff.1 hc
  obtain ⟨htake, hdrop⟩ := takeWhile_word hword hrest
  rw [List.cons_append, tokenize.eq_def]
  simp only [hblank, hequals, hquote, htake, hdrop, if_false, Bool.false_eq_true]

/-! ### Texts one after the other -/

theorem map_map_append (x : Except QuotingFault (List Token)) (token : Token)
    (tokens : List Token) :
    (x.map (tokens ++ ·)).map (token :: ·) = x.map (token :: tokens ++ ·) :=
  (comp_map (tokens ++ ·) (token :: ·) x).symm

/-- **Behind a text that can be divided, what follows is divided for itself**, if it does not go on
with a word. -/
theorem tokenize_append (h : tokenize front = .ok tokens) (hback : EndsWord back) :
    tokenize (front ++ back) = (tokenize back).map (tokens ++ ·) := by
  fun_induction tokenize front generalizing tokens with
  | case1 =>
    cases h
    exact (id_map (tokenize back)).symm
  | case2 w cs hblank ih => rw [List.cons_append, tokenize_blank hblank, ih h]
  | case3 cs _ ih =>
    obtain ⟨more, hmore, rfl⟩ := map_eq_ok_iff.1 h
    rw [List.cons_append, tokenize_equals, ih hmore, map_map_append]
  | case4 cs fault => cases h
  | case5 cs content rest hread _ _ _ ih =>
    obtain ⟨more, hmore, rfl⟩ := map_eq_ok_iff.1 h
    -- The string ends within the text, so it ends there whatever follows.
    have hlonger : readString (cs ++ back) = .ok (content, rest ++ back) := by
      obtain ⟨body, hbody, rfl⟩ := readString_eq_ok_iff.1 hread
      exact readString_eq_ok_iff.2 ⟨body, hbody, by simp⟩
    rw [List.cons_append, tokenize_string hlonger, ih hmore, map_map_append]
  | case6 c cs hblank hequals hquote ih =>
    obtain ⟨more, hmore, rfl⟩ := map_eq_ok_iff.1 h
    have hc : isWordChar c = true :=
      isWordChar_iff.2 ⟨Bool.eq_false_of_not_eq_true hblank, hequals, hquote⟩
    have hword : ∀ d ∈ c :: cs.takeWhile isWordChar, isWordChar d = true :=
      List.forall_mem_cons.2 ⟨hc, fun d hd => List.mem_takeWhile_imp hd⟩
    -- A word that ends with the text ends at what follows it.
    have hends := (endsWord_dropWhile cs).append hback
    have hcs : c :: cs ++ back
        = (c :: cs.takeWhile isWordChar) ++ (cs.dropWhile isWordChar ++ back) := by
      rw [List.cons_append, List.cons_append, ← List.append_assoc, List.takeWhile_append_dropWhile]
    rw [hcs, tokenize_word (List.cons_ne_nil _ _) hword hends, ih hmore, map_map_append]

end Tokens

/-! ### Quoted strings -/

/-- Every text is refused whose tokens are refused, and for the same reason. -/
theorem parse_of_tokenize_error {cs : List Char} {fault : QuotingFault}
    (h : tokenize cs = .error fault) (loc : Location) :
    parse (String.ofList cs) loc = .error (.invalidQuoting fault) := by
  rw [parse, String.toList_ofList, h]
  rfl

/-- **Quoted strings express every text**: a text has spellings, and any of them between quotes is
one token, the quoted text. A string that starts behind readable tokens and, after a spelling, goes
on with something that no string goes on with is refused for this, whatever follows: a line feed,
the end of the text, or an escape that is cut short, unknown, or stands for no character or for one
that it cannot stand for. -/
theorem tokenize_quoted :
    (∀ text, ∃ body, Spells body text)
      ∧ (∀ body text, Spells body text → tokenize ('"' :: body ++ ['"']) = .ok [.quoted text])
      ∧ ∀ front tokens body text tail fault, tokenize front = .ok tokens → Spells body text →
          Breaks tail fault →
          tokenize (front ++ '"' :: body ++ tail) = .error fault
            ∧ ∀ loc, parse (String.ofList (front ++ '"' :: body ++ tail)) loc
                = .error (.invalidQuoting fault) := by
  refine ⟨exists_spells, ?_, ?_⟩
  · intro body text hbody
    rw [List.cons_append, tokenize_string (readString_spelled hbody []), tokenize.eq_def []]
    rfl
  · intro front tokens body text tail fault hfront hbody htail
    have hquote : EndsWord ('"' :: (body ++ tail)) := by
      rintro _ ⟨rfl⟩
      decide
    have herror : tokenize (front ++ '"' :: body ++ tail) = .error fault := by
      rw [List.append_assoc, List.cons_append, tokenize_append hfront hquote,
        tokenize_string_error (readString_broken hbody htail)]
      rfl
    exact ⟨herror, parse_of_tokenize_error herror⟩

/-- `é`, a tab and a quote, each as the number of a character. -/
theorem spells_numbers :
    Spells ['\\', 'u', '0', '0', 'E', '9', '\\', '0', '1', '1', '\\', 'x', '2', '2']
      ['é', '\t', '"'] := by
  have hshort : Numeral 16 4 ['0', '0', 'E', '9'] 'é'.toNat :=
    ⟨rfl, [0, 0, 14, 9], .cons (by decide) (.cons (by decide) (.cons (by decide)
      (.cons (by decide) .nil))), by decide⟩
  have hoctal : Numeral 8 3 ['0', '1', '1'] '\t'.toNat :=
    ⟨rfl, [0, 1, 1], .cons (by decide) (.cons (by decide) (.cons (by decide) .nil)), by decide⟩
  have hhex : Numeral 16 2 ['2', '2'] '"'.toNat :=
    ⟨rfl, [2, 2], .cons (by decide) (.cons (by decide) .nil), by decide⟩
  exact .escape (.number (l := 'u') (by decide) hshort)
    (.escape (.octal hoctal (by decide)) (.escape (.hex hhex (by decide)) .nil))

/-- A surrogate is no character. -/
theorem breaks_surrogate (rest : List Char) :
    Breaks ('\\' :: 'u' :: ['d', '8', '0', '0'] ++ rest) (.notAChar 'u' 4 0xD800) := by
  have hdigits : Numeral 16 4 ['d', '8', '0', '0'] 0xD800 :=
    ⟨rfl, [13, 8, 0, 0], .cons (by decide) (.cons (by decide) (.cons (by decide)
      (.cons (by decide) .nil))), by decide⟩
  exact .escape (.notAChar rest (by decide) hdigits (by decide))

theorem tokenize_quoted_numbers :
    tokenize "\"\\u00E9\\011\\x22\"".toList = .ok [.quoted ['é', '\t', '"']]
      ∧ tokenize "x=\"\\u00E9\\011\\x22\\ud800\"".toList
        = .error (.notAChar 'u' 4 0xD800) := by
  have hfront : tokenize ['x', '='] = .ok [.word ['x'], .equals] := by with_unfolding_all rfl
  exact ⟨tokenize_quoted.2.1 _ _ spells_numbers,
    (tokenize_quoted.2.2 _ _ _ _ _ _ hfront spells_numbers (breaks_surrogate ['"'])).1⟩

/-! ### Blanks -/

/-- Texts that differ in the blanks between their tokens. At the end of a token blanks may be put in
or left out on either side; the tokens are the same, and a word ends on both sides where it ends on
one. From any such place on, the texts may also agree, as they have to from the quote of a string on
that cannot be read and therefore has no end. -/
inductive Respaced : List Char → List Char → Prop
  | same (cs : List Char) : Respaced cs cs
  | left {w : Char} {a b : List Char} : Text.isBlank w = true → Respaced a b → Respaced (w :: a) b
  | right {w : Char} {a b : List Char} : Text.isBlank w = true → Respaced a b → Respaced a (w :: b)
  | equals {a b : List Char} : Respaced a b → Respaced ('=' :: a) ('=' :: b)
  | string {body text a b : List Char} : Spells body text → Respaced a b →
      Respaced ('"' :: body ++ '"' :: a) ('"' :: body ++ '"' :: b)
  | word {word a b : List Char} : word ≠ [] → (∀ c ∈ word, isWordChar c = true) → EndsWord a →
      EndsWord b → Respaced a b → Respaced (word ++ a) (word ++ b)

theorem Respaced.tokenize_eq {a b : List Char} (h : Respaced a b) : tokenize a = tokenize b := by
  induction h with
  | same cs => rfl
  | left hw _ ih => rw [tokenize_blank hw, ih]
  | right hw _ ih => rw [tokenize_blank hw, ih]
  | equals _ ih => rw [tokenize_equals, tokenize_equals, ih]
  | string hbody _ ih =>
    rw [List.cons_append, List.cons_append, tokenize_string (readString_spelled hbody _),
      tokenize_string (readString_spelled hbody _), ih]
  | word hne hword ha hb _ ih => rw [tokenize_word hne hword ha, tokenize_word hne hword hb, ih]

theorem endsWord_blank {w : Char} (h : Text.isBlank w = true) (cs : List Char) :
    EndsWord (w :: cs) := by
  rintro _ ⟨rfl⟩
  rw [isWordChar, h]
  rfl

/-- **Blanks between tokens are of no account**: a text whose front can be divided at a blank has
the tokens of the front and then those of the rest, or is refused as the rest is; and texts that
differ in the blanks between their tokens are the same tag, or none for the same reason. -/
theorem parse_respaced :
    (∀ front back w tokens, Text.isBlank w = true → tokenize front = .ok tokens →
        tokenize (front ++ w :: back) = (tokenize back).map (tokens ++ ·))
      ∧ ∀ a b : String, Respaced a.toList b.toList → ∀ loc, parse a loc = parse b loc := by
  constructor
  · intro front back w tokens hw hfront
    rw [tokenize_append hfront (endsWord_blank hw back), tokenize_blank hw]
  · intro a b h loc
    rw [parse, parse, h.tokenize_eq]

theorem respaced_meow :
    Respaced ['m', 'e', 'o', 'w', ' ', 'k', '=', '"', 'a', ' ', '"']
      ['\t', 'm', 'e', 'o', 'w', '\u3000', ' ', 'k', ' ', '=', '"', 'a', ' ', '"', ' '] := by
  have hends : ∀ {c : Char} (cs : List Char), isWordChar c = false → EndsWord (c :: cs) := by
    rintro c cs hc _ ⟨rfl⟩
    exact hc
  have hmeow : ∀ c ∈ ['m', 'e', 'o', 'w'], isWordChar c = true := List.all_eq_true.1 rfl
  have hkey : ∀ c ∈ ['k'], isWordChar c = true := List.all_eq_true.1 rfl
  have hvalue : Spells ['a', ' '] ['a', ' '] :=
    .plain (by decide) (by decide) (by decide) (.plain (by decide) (by decide) (by decide) .nil)
  have hend : Respaced ['=', '"', 'a', ' ', '"'] [' ', '=', '"', 'a', ' ', '"', ' '] :=
    .right (by decide) (.equals (.string hvalue (.right (by decide) (.same []))))
  have hrest : Respaced [' ', 'k', '=', '"', 'a', ' ', '"']
      ['\u3000', ' ', 'k', ' ', '=', '"', 'a', ' ', '"', ' '] :=
    .left (by decide) (.right (by decide) (.right (by decide)
      (.word (List.cons_ne_nil _ _) hkey (hends _ (by decide)) (hends _ (by decide)) hend)))
  exact .right (by decide)
    (.word (List.cons_ne_nil _ _) hmeow (hends _ (by decide)) (hends _ (by decide)) hrest)

theorem parse_respaced_meow :
    tokenize ("meow a=".toList ++ '\u3000' :: ['"']) = .error .unterminated
      ∧ ∀ loc, parse "meow k=\"a \"" loc = parse "\tmeow\u3000 k =\"a \" " loc := by
  have hfront : tokenize "meow a=".toList = .ok [.word "meow".toList, .word ['a'], .equals] := by
    with_unfolding_all rfl
  have hback : tokenize ['"'] = .error .unterminated := by with_unfolding_all rfl
  refine ⟨?_, parse_respaced.2 _ _ respaced_meow⟩
  rw [parse_respaced.1 _ ['"'] '\u3000' _ (by decide) hfront, hback]
  rfl

end CrossTag.Tag
