/-!
# Regular expressions

A regular expression is built from character classes and conditions on the two characters
around a position by sequence, choice and repetition. Classes and conditions are predicates,
so flags, case and negation are settled when an expression is read and leave no trace here.

The only question ever asked is whether a text contains a match. It is answered by following
sets of positions: an expression maps the set of positions where a match may begin to the set
of positions where one may end. A set of positions is a natural number whose bit `i` is set
if position `i` is a member. A repetition without upper bound grows its set until it is
stable; since a text of `n` characters has `n + 1` positions, `n + 1` rounds are enough.
-/

namespace CrossTag

/-- A regular expression. -/
inductive Regex
  /-- Matches the empty text. -/
  | empty
  /-- Matches one character of a class. -/
  | char (accepts : Char → Bool)
  /-- Matches the empty text where a condition on the characters before and after holds. -/
  | look (holds : Option Char → Option Char → Bool)
  | seq (first second : Regex)
  | alt (left right : Regex)
  /-- Matches at least `least` and at most `most` times in a row. -/
  | times (r : Regex) (least : Nat) (most : Option Nat)

namespace Regex

/-- The positions of a text at which a condition on the neighbouring characters holds;
`before` is the character in front of the text. -/
def marks (holds : Option Char → Option Char → Bool) : (before : Option Char) → List Char → Nat
  | before, [] => (holds before none).toNat
  | before, c :: cs => (holds before (some c)).toNat + 2 * marks holds (some c) cs

/-- Applies a step `n` times. -/
def iterate (step : Nat → Nat) : Nat → Nat → Nat
  | 0, positions => positions
  | n + 1, positions => iterate step n (step positions)

/-- Adds what up to `n` steps can reach. -/
def spread (step : Nat → Nat) : Nat → Nat → Nat
  | 0, positions => positions
  | n + 1, positions =>
    let grown := positions ||| step positions
    if grown = positions then positions else spread step n grown

/-- The positions at which a match that begins at one of `positions` can end. -/
def ends (text : List Char) : Regex → (positions : Nat) → Nat
  | empty, positions => positions
  | char accepts, positions =>
    (positions &&& marks (fun _ next => next.any accepts) none text) <<< 1
  | look holds, positions => positions &&& marks holds none text
  | seq first second, positions => ends text second (ends text first positions)
  | alt left right, positions => ends text left positions ||| ends text right positions
  | times r least most, positions =>
    -- After more rounds than there are positions nothing changes any more.
    let bound := text.length + 2
    let from_ := iterate (ends text r) (min least bound) positions
    match most with
    | none => spread (ends text r) bound from_
    | some most => spread (ends text r) (min (most - least) bound) from_

/-- True if some part of the text matches. -/
def isMatch (r : Regex) (text : List Char) : Bool :=
  ends text r ((1 <<< (text.length + 1)) - 1) != 0

/-- True if the whole text matches. -/
def isFullMatch (r : Regex) (text : List Char) : Bool :=
  (ends text r 1).testBit text.length

/-! ### Building blocks -/

/-- Matches a single character. -/
def literal (c : Char) : Regex :=
  char (· == c)

/-- Any number of times, zero included. -/
def star (r : Regex) : Regex :=
  times r 0 none

/-- All of the given expressions in a row. -/
def concat (rs : List Regex) : Regex :=
  rs.foldr seq empty

/-- One of the given expressions. -/
def choice : List Regex → Regex
  | [] => char fun _ => false
  | [r] => r
  | r :: rs => alt r (choice rs)

end Regex

end CrossTag
