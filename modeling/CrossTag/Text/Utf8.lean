/-!
# Bytes and characters

Files are bytes; tags are characters. A byte sequence is read from left to right into
pieces: a character, an ill-formed part, or a sequence that is well-formed so far and cut
off by the end of the input. An ill-formed part is as long as the longest start of some
well-formed sequence found there, and at least one byte.

Three readings are built on the pieces. `decode?` accepts only well-formed input,
`decodeLossy` puts U+FFFD for every ill-formed or cut-off part, and `isIllFormed` tells an
ill-formed part from one that is merely cut off.
-/

namespace CrossTag

/-- The content of a file. -/
abbrev Bytes := List UInt8

namespace Text

/-- What stands at the front of a byte sequence. -/
inductive Piece
  /-- A character, encoded in the first byte and `more` bytes after it. -/
  | char (c : Char) (more : Nat)
  /-- An ill-formed part: the first byte and `more` bytes after it. -/
  | illFormed (more : Nat)
  /-- The start of a character whose other bytes are missing: all bytes up to the end. -/
  | cutOff
deriving DecidableEq, Repr

/-- A continuation byte within the given bounds. -/
def isWithin (lo hi b : UInt8) : Bool :=
  lo ≤ b && b ≤ hi

/-- The six bits a continuation byte carries. -/
def payload (b : UInt8) : Nat :=
  b.toNat % 64

/-- The bounds of the second byte after a first byte of a sequence of three or four. -/
def secondBounds (b : UInt8) : UInt8 × UInt8 :=
  if b = 0xE0 then (0xA0, 0xBF)
  else if b = 0xED then (0x80, 0x9F)
  else if b = 0xF0 then (0x90, 0xBF)
  else if b = 0xF4 then (0x80, 0x8F)
  else (0x80, 0xBF)

/-- The number of bytes a sequence starting with `b` has after it, if `b` can start one. -/
def trailing? (b : UInt8) : Option Nat :=
  if b < 0x80 then some 0
  else if isWithin 0xC2 0xDF b then some 1
  else if isWithin 0xE0 0xEF b then some 2
  else if isWithin 0xF0 0xF4 b then some 3
  else none

/-- The piece at the front of `b :: rest`. -/
def nextPiece (b : UInt8) (rest : Bytes) : Piece :=
  match trailing? b with
  | none => .illFormed 0
  | some 0 => .char (Char.ofNat b.toNat) 0
  | some 1 =>
    match rest with
    | [] => .cutOff
    | x :: _ =>
      if isWithin 0x80 0xBF x then .char (Char.ofNat (b.toNat % 32 * 64 + payload x)) 1
      else .illFormed 0
  | some 2 =>
    match rest with
    | [] => .cutOff
    | x :: rest =>
      if isWithin (secondBounds b).1 (secondBounds b).2 x then
        match rest with
        | [] => .cutOff
        | y :: _ =>
          if isWithin 0x80 0xBF y then
            .char (Char.ofNat ((b.toNat % 16 * 64 + payload x) * 64 + payload y)) 2
          else .illFormed 1
      else .illFormed 0
  | some _ =>
    match rest with
    | [] => .cutOff
    | x :: rest =>
      if isWithin (secondBounds b).1 (secondBounds b).2 x then
        match rest with
        | [] => .cutOff
        | y :: rest =>
          if isWithin 0x80 0xBF y then
            match rest with
            | [] => .cutOff
            | z :: _ =>
              if isWithin 0x80 0xBF z then
                .char (Char.ofNat
                  (((b.toNat % 8 * 64 + payload x) * 64 + payload y) * 64 + payload z)) 3
              else .illFormed 2
          else .illFormed 1
      else .illFormed 0

/-- The pieces of a byte sequence, from left to right. -/
def pieces : Bytes → List Piece
  | [] => []
  | b :: rest =>
    match nextPiece b rest with
    | .char c more => .char c more :: pieces (rest.drop more)
    | .illFormed more => .illFormed more :: pieces (rest.drop more)
    | .cutOff => [.cutOff]
termination_by bs => bs.length
decreasing_by all_goals simp only [List.length_cons, List.length_drop]; omega

/-- The characters of a byte sequence, with U+FFFD for each part that is none. -/
def decodeLossy (bs : Bytes) : List Char :=
  (pieces bs).map fun
    | .char c _ => c
    | _ => '\uFFFD'

/-- The characters of a well-formed byte sequence. -/
def decode? (bs : Bytes) : Option (List Char) :=
  (pieces bs).mapM fun
    | .char c _ => some c
    | _ => none

/-- True if a byte sequence has an ill-formed part; one that is only cut off at the end does
not count. -/
def isIllFormed (bs : Bytes) : Bool :=
  (pieces bs).any fun
    | .illFormed _ => true
    | _ => false

/-- The bytes of a text. -/
def encode (cs : List Char) : Bytes :=
  cs.flatMap String.utf8EncodeChar

/-- The number of bytes of a text. -/
def byteLength : List Char → Nat
  | [] => 0
  | c :: cs => c.utf8Size + byteLength cs

end Text

/-- The bytes of a string. -/
def Bytes.ofString (s : String) : Bytes :=
  Text.encode s.toList

/-- The string a byte sequence encodes, if it encodes one. -/
def Bytes.toString? (bs : Bytes) : Option String :=
  (Text.decode? bs).map String.ofList

end CrossTag
