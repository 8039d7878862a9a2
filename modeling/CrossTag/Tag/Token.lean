import CrossTag.Tag.Escape
import CrossTag.Text.Blank

/-!
# Tokens of a tag

The text of a tag is a sequence of words, quoted strings and equals signs. Blanks separate
tokens and are otherwise of no account, so an equals sign may stand apart from what it joins.
A word goes on up to a blank, an equals sign or a quote.
-/

namespace CrossTag

namespace Tag

/-- A unit of the text of a tag. -/
inductive Token
  | word (text : List Char)
  | quoted (text : List Char)
  | equals
deriving DecidableEq, Repr

/-- A character that can stand in a word. -/
def isWordChar (c : Char) : Bool :=
  !Text.isBlank c && c != '=' && c != '"'

/-- The tokens of a text. -/
def tokenize (cs : List Char) : Except QuotingFault (List Token) :=
  match cs with
  | [] => .ok []
  | c :: cs =>
    if Text.isBlank c then tokenize cs
    else if c = '=' then (tokenize cs).map (.equals :: ·)
    else if c = '"' then
      match h : readString cs with
      | .error fault => .error fault
      | .ok (content, rest) =>
        have := length_after_readString h
        (tokenize rest).map (.quoted content :: ·)
    else
      (tokenize (cs.dropWhile isWordChar)).map (.word (c :: cs.takeWhile isWordChar) :: ·)
termination_by cs.length
decreasing_by
  all_goals simp only [List.length_cons]
  · omega
  · omega
  · omega
  · have := (List.dropWhile_sublist (l := cs) isWordChar).length_le
    omega

end Tag

end CrossTag
