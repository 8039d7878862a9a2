import CrossTag.Text.Digits
import CrossTag.Text.Quoted

/-!
# Quoted strings in tags

A quoted string in a tag ends at the next double quote and must not hold a line feed. A
backslash starts an escape: a letter for one of the usual controls, a quote or backslash for
itself, `x` with two hexadecimal digits or three octal digits for an ASCII character, `u`
with four and `U` with eight digits for any character. Everything else stands for itself.

An escape is read by looking at what follows the backslash, and answers the character and the
number of characters it takes up.
-/

namespace CrossTag

/-- What is wrong with a quoted string. -/
inductive QuotingFault
  /-- The closing quote is missing. -/
  | unterminated
  | lineFeed
  /-- The characters found where hexadecimal digits belong. -/
  | badHex (found : List Char)
  | highHex (value : Nat)
  | highOctal (value : Nat)
  | truncatedOctal
  /-- A number that is no character, with the letter and width of its escape. -/
  | notAChar (letter : Char) (width value : Nat)
  | unknown (c : Char)
deriving DecidableEq, Repr

def QuotingFault.message : QuotingFault → String
  | unterminated => "unterminated string"
  | lineFeed => "newline in string"
  | badHex found => "invalid hex escape " ++ Text.quote (String.ofList found)
  | highHex value =>
    "non-ASCII byte escape \\x" ++ String.ofList (Text.padZeros 2 (Text.hexDigits value))
  | highOctal value =>
    "non-ASCII byte escape \\" ++ String.ofList (Text.padZeros 3 (Nat.toDigits 8 value))
  | truncatedOctal => "truncated octal escape"
  | notAChar letter width value =>
    "invalid code point " ++
      String.ofList ('\\' :: letter :: Text.padZeros width (Text.hexDigits value))
  | unknown c => "unknown escape sequence " ++ String.ofList ['\\', c]

namespace Tag

/-! ### Digits -/

/-- Exactly `width` hexadecimal digits at the front of a text. -/
def readHex (width : Nat) (cs : List Char) : Except QuotingFault Nat :=
  let found := cs.take width
  if found.length = width then
    match Text.digitsValue? 16 Text.hexDigit? 0 found with
    | some value => .ok value
    | none => .error (.badHex found)
  else .error (.badHex found)

/-- The character with a given number. -/
def scalar (letter : Char) (width value : Nat) : Except QuotingFault Char :=
  if value.isValidChar then .ok (Char.ofNat value) else .error (.notAChar letter width value)

/-- The ASCII character of three octal digits, the first of which is given. -/
def readOctal (first : Nat) (cs : List Char) : Except QuotingFault Char :=
  match cs with
  | b :: c :: _ =>
    match Text.octalDigit? b, Text.octalDigit? c with
    | some second, some third =>
      let value := (first * 8 + second) * 8 + third
      if value ≤ 0x7F then .ok (Char.ofNat value) else .error (.highOctal value)
    | _, _ => .error .truncatedOctal
  | _ => .error .truncatedOctal

/-! ### Escapes -/

/-- The letters that stand for a single character. -/
def letterEscape? : Char → Option Char
  | 'a' => some '\x07'
  | 'b' => some '\x08'
  | 'f' => some '\x0c'
  | 'n' => some '\n'
  | 'r' => some '\r'
  | 't' => some '\t'
  | 'v' => some '\x0b'
  | '\\' => some '\\'
  | '"' => some '"'
  | '\'' => some '\''
  | _ => none

/-- Reads what follows a backslash: the character and how many characters it takes up. -/
def readEscape : List Char → Except QuotingFault (Char × Nat)
  | [] => .error .unterminated
  | c :: cs =>
    match letterEscape? c with
    | some d => .ok (d, 1)
    | none =>
      if c = 'x' then
        match readHex 2 cs with
        | .error fault => .error fault
        | .ok value =>
          if value ≤ 0x7F then .ok (Char.ofNat value, 3) else .error (.highHex value)
      else if c = 'u' then
        match readHex 4 cs with
        | .error fault => .error fault
        | .ok value => (scalar c 4 value).map fun d => (d, 5)
      else if c = 'U' then
        match readHex 8 cs with
        | .error fault => .error fault
        | .ok value => (scalar c 8 value).map fun d => (d, 9)
      else
        match Text.octalDigit? c with
        | some first => (readOctal first cs).map fun d => (d, 3)
        | none => .error (.unknown c)

/-! ### Strings -/

/-- Reads a string after its opening quote: its content and what follows the closing quote. -/
def readString (cs : List Char) : Except QuotingFault (List Char × List Char) :=
  match cs with
  | [] => .error .unterminated
  | c :: cs =>
    if c = '"' then .ok ([], cs)
    else if c = '\\' then
      match readEscape cs with
      | .error fault => .error fault
      | .ok (d, n) => (readString (cs.drop n)).map fun (content, rest) => (d :: content, rest)
    else if c = '\n' then .error .lineFeed
    else (readString cs).map fun (content, rest) => (c :: content, rest)
termination_by cs.length
decreasing_by all_goals simp only [List.length_cons, List.length_drop]; omega

/-- What follows a string is shorter than the text. -/
theorem length_after_readString {cs content rest : List Char}
    (h : readString cs = .ok (content, rest)) : rest.length < cs.length := by
  fun_induction readString cs generalizing content rest with
  | case1 => cases h
  | case2 cs => cases h; simp
  | case3 cs fault he hq => cases h
  | case4 cs d n he hq ih =>
    cases hr : readString (cs.drop n) with
    | error fault =>
      rw [hr] at h
      cases h
    | ok p =>
      obtain ⟨inner, after⟩ := p
      rw [hr] at h
      cases h
      have := ih hr
      simp only [List.length_drop, List.length_cons] at *
      omega
  | case5 cs hq hb => cases h
  | case6 c cs hq hb hn ih =>
    cases hr : readString cs with
    | error fault =>
      rw [hr] at h
      cases h
    | ok p =>
      obtain ⟨inner, after⟩ := p
      rw [hr] at h
      cases h
      have := ih hr
      simp only [List.length_cons]
      omega

end Tag

end CrossTag
