import CrossTag.Text.Cut

/-!
# Wildcard patterns

A wildcard pattern describes the name of one component of a path, a text without
separators. `?` stands for any character, `*` for any run of characters, the empty one
included, `[abc]` and `[a-z]` for one of the characters listed and `[!abc]` for one that is
not listed. The first character of a list is always a member, even a closing bracket.
There are no escapes.

Two stars in a row are a pattern of their own: alone they match every name, next to other
text they are refused, as are three stars and a bracket that is never closed. A refusal
names the position, in characters, at which the pattern goes wrong.
-/

namespace CrossTag

/-- What is wrong with a wildcard pattern. -/
inductive WildcardFault
  /-- A bracket without members or without an end. -/
  | badRange
  /-- Three or more stars in a row. -/
  | tooManyStars
  /-- Two stars next to other text. -/
  | mixedStars
deriving DecidableEq, Repr

def WildcardFault.message : WildcardFault → String
  | badRange => "invalid range pattern"
  | tooManyStars => "wildcards are either regular `*` or recursive `**`"
  | mixedStars => "recursive wildcards must form a single path component"

/-- A refused pattern: the position and what is wrong there. -/
structure WildcardError where
  position : Nat
  fault : WildcardFault
deriving DecidableEq, Repr

def WildcardError.message (e : WildcardError) : String :=
  "Pattern syntax error near position " ++ toString e.position ++ ": " ++ e.fault.message

namespace Wildcard

/-- A member of a bracket. -/
inductive Member
  | single (c : Char)
  | range (first last : Char)
deriving DecidableEq, Repr

def Member.holds (c : Char) : Member → Bool
  | single d => c == d
  | range first last => first ≤ c && c ≤ last

/-- One item of a pattern. -/
inductive Item
  | literal (c : Char)
  | anyChar
  | oneOf (members : List Member)
  | noneOf (members : List Member)
  | run
deriving DecidableEq, Repr

end Wildcard

/-- A pattern for one component of a path. -/
structure Wildcard where
  items : List Wildcard.Item
deriving DecidableEq, Repr

namespace Wildcard

/-! ### Reading patterns -/

/-- The members listed in a bracket. -/
def readMembers : List Char → List Member
  | a :: '-' :: b :: rest => .range a b :: readMembers rest
  | a :: rest => .single a :: readMembers rest
  | [] => []

/-- Reads what follows an opening bracket: the item and the text after the closing one. -/
def readBracket (cs : List Char) : Option (Item × List Char) :=
  match cs with
  | '!' :: c :: more => do
    let (body, after) ← Text.splitFirst? ']' more
    some (.noneOf (readMembers (c :: body)), after)
  | '!' :: [] => none
  | c :: more => do
    let (body, after) ← Text.splitFirst? ']' more
    some (.oneOf (readMembers (c :: body)), after)
  | [] => none

/-- A bracket takes up characters. -/
theorem length_after_readBracket {cs : List Char} {u : Item} {after : List Char}
    (h : readBracket cs = some (u, after)) : after.length < cs.length := by
  unfold readBracket at h
  split at h
  · simp only [Option.bind_eq_bind, Option.bind_eq_some_iff, Prod.exists] at h
    obtain ⟨body, rest, hsplit, heq⟩ := h
    have := Text.length_after_splitFirst? hsplit
    cases heq
    simp only [List.length_cons]
    omega
  · cases h
  · simp only [Option.bind_eq_bind, Option.bind_eq_some_iff, Prod.exists] at h
    obtain ⟨body, rest, hsplit, heq⟩ := h
    have := Text.length_after_splitFirst? hsplit
    cases heq
    simp only [List.length_cons]
    omega
  · cases h

/-- Reads a pattern; `position` is the number of characters before `cs`. -/
def readItems (position : Nat) (cs : List Char) : Except WildcardError (List Item) :=
  match cs with
  | [] => .ok []
  | '*' :: '*' :: '*' :: _ => .error ⟨position + 2, .tooManyStars⟩
  | ['*', '*'] => if position = 0 then .ok [.run] else .error ⟨position - 1, .mixedStars⟩
  | '*' :: '*' :: _ =>
    .error ⟨if position = 0 then 2 else position - 1, .mixedStars⟩
  | '*' :: rest => do
    let items ← readItems (position + 1) rest
    return .run :: items
  | '?' :: rest => do
    let items ← readItems (position + 1) rest
    return .anyChar :: items
  | '[' :: rest =>
    match h : readBracket rest with
    | none => .error ⟨position, .badRange⟩
    | some (u, after) => do
      have := length_after_readBracket h
      let items ← readItems (position + 1 + (rest.length - after.length)) after
      return u :: items
  | c :: rest => do
    let items ← readItems (position + 1) rest
    return .literal c :: items
termination_by cs.length

/-- Reads a wildcard pattern. -/
def parse (cs : List Char) : Except WildcardError Wildcard :=
  (readItems 0 cs).map fun items => ⟨items⟩

/-! ### Matching names -/

/-- The text and everything it ends with. -/
def suffixes : List Char → List (List Char)
  | [] => [[]]
  | c :: cs => (c :: cs) :: suffixes cs

/-- Matches the items against the whole of a name. -/
def matchItems : List Item → List Char → Bool
  | [], cs => cs.isEmpty
  | .run :: rest, cs => (suffixes cs).any (matchItems rest)
  | _ :: _, [] => false
  | .literal d :: rest, c :: cs => d == c && matchItems rest cs
  | .anyChar :: rest, _ :: cs => matchItems rest cs
  | .oneOf members :: rest, c :: cs => members.any (·.holds c) && matchItems rest cs
  | .noneOf members :: rest, c :: cs => !members.any (·.holds c) && matchItems rest cs

/-- True if the pattern describes the name. -/
def isMatch (w : Wildcard) (name : List Char) : Bool :=
  matchItems w.items name

end Wildcard

end CrossTag
