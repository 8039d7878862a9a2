import CrossTag.Text.Blank
import CrossTag.Text.CaseFold
import CrossTag.Text.Category

/-!
# Character classes

The classes that regular expressions can name: the one-letter classes of digits, blanks and
word characters, the ASCII classes written in bracket and colon, and the classes given by a
property of the Unicode standard. A property is found by its name, in which case, blanks,
hyphens and underscores do not matter.
-/

namespace CrossTag.Regex

/-- A set of characters. -/
abbrev Class := Char → Bool

namespace Class

def none : Class := fun _ => false

def all : Class := fun _ => true

def compl (s : Class) : Class := fun c => !s c

def union (s t : Class) : Class := fun c => s c || t c

def inter (s t : Class) : Class := fun c => s c && t c

def diff (s t : Class) : Class := fun c => s c && !t c

def symmDiff (s t : Class) : Class := fun c => s c != t c

def range (first last : Char) : Class := fun c => first ≤ c && c ≤ last

/-- Adds every character equal to a member up to case. -/
def foldCase (s : Class) : Class := fun c => (Text.caseVariants c).any s

/-! ### Classes of one letter -/

def isAsciiWord : Class := fun c => c.isAlphanum || c == '_'

def isAsciiBlank : Class := fun c => c == ' ' || (9 ≤ c.toNat && c.toNat ≤ 13)

/-- `d`, `s` and `w`, over all characters or over ASCII only. -/
def ofLetter? (unicode : Bool) : Char → Option Class
  | 'd' => some (if unicode then fun c => Text.category c == .decimalNumber else Char.isDigit)
  | 's' => some (if unicode then Text.isBlank else isAsciiBlank)
  | 'w' => some (if unicode then Text.isWordChar else isAsciiWord)
  | _ => Option.none

/-! ### ASCII classes -/

/-- The classes written as `[:name:]`. -/
def ofAsciiName? : String → Option Class
  | "alnum" => some Char.isAlphanum
  | "alpha" => some Char.isAlpha
  | "ascii" => some fun c => c.toNat < 128
  | "blank" => some fun c => c == ' ' || c == '\t'
  | "cntrl" => some fun c => c.toNat < 32 || c.toNat == 127
  | "digit" => some Char.isDigit
  | "graph" => some fun c => 33 ≤ c.toNat && c.toNat ≤ 126
  | "lower" => some Char.isLower
  | "print" => some fun c => 32 ≤ c.toNat && c.toNat ≤ 126
  | "punct" => some fun c => 33 ≤ c.toNat && c.toNat ≤ 126 && !c.isAlphanum
  | "space" => some isAsciiBlank
  | "upper" => some Char.isUpper
  | "word" => some isAsciiWord
  | "xdigit" => some fun c => c.isDigit || ('a' ≤ c && c ≤ 'f') || ('A' ≤ c && c ≤ 'F')
  | _ => Option.none

/-! ### Properties -/

/-- The general categories by their short and long names, in lower case. -/
def ofCategoryName? : String → Option (Text.Category → Bool)
  | "l" | "letter" => some (·.isLetter)
  | "lc" | "casedletter" =>
    some (· matches .uppercaseLetter | .lowercaseLetter | .titlecaseLetter)
  | "lu" | "uppercaseletter" => some (· == .uppercaseLetter)
  | "ll" | "lowercaseletter" => some (· == .lowercaseLetter)
  | "lt" | "titlecaseletter" => some (· == .titlecaseLetter)
  | "lm" | "modifierletter" => some (· == .modifierLetter)
  | "lo" | "otherletter" => some (· == .otherLetter)
  | "m" | "mark" | "combiningmark" => some (·.isMark)
  | "mn" | "nonspacingmark" => some (· == .nonspacingMark)
  | "mc" | "spacingmark" => some (· == .spacingMark)
  | "me" | "enclosingmark" => some (· == .enclosingMark)
  | "n" | "number" => some (·.isNumber)
  | "nd" | "decimalnumber" | "digit" => some (· == .decimalNumber)
  | "nl" | "letternumber" => some (· == .letterNumber)
  | "no" | "othernumber" => some (· == .otherNumber)
  | "p" | "punctuation" | "punct" => some (·.isPunctuation)
  | "pc" | "connectorpunctuation" => some (· == .connectorPunctuation)
  | "pd" | "dashpunctuation" => some (· == .dashPunctuation)
  | "ps" | "openpunctuation" => some (· == .openPunctuation)
  | "pe" | "closepunctuation" => some (· == .closePunctuation)
  | "pi" | "initialpunctuation" => some (· == .initialPunctuation)
  | "pf" | "finalpunctuation" => some (· == .finalPunctuation)
  | "po" | "otherpunctuation" => some (· == .otherPunctuation)
  | "s" | "symbol" => some (·.isSymbol)
  | "sm" | "mathsymbol" => some (· == .mathSymbol)
  | "sc" | "currencysymbol" => some (· == .currencySymbol)
  | "sk" | "modifiersymbol" => some (· == .modifierSymbol)
  | "so" | "othersymbol" => some (· == .otherSymbol)
  | "z" | "separator" => some (·.isSeparator)
  | "zs" | "spaceseparator" => some (· == .spaceSeparator)
  | "zl" | "lineseparator" => some (· == .lineSeparator)
  | "zp" | "paragraphseparator" => some (· == .paragraphSeparator)
  | "c" | "other" => some (·.isOther)
  | "cc" | "control" | "cntrl" => some (· == .control)
  | "cf" | "format" => some (· == .format)
  | "cs" | "surrogate" => some (· == .surrogate)
  | "co" | "privateuse" => some (· == .privateUse)
  | "cn" | "unassigned" => some (· == .unassigned)
  | "any" => some fun _ => true
  | "assigned" => some (· != .unassigned)
  | _ => Option.none

/-- The scripts by their names, as closed ranges of code points. -/
def ofScriptName? : String → Option (List (Nat × Nat))
  | "latin" | "latn" =>
    some [(0x41, 0x5A), (0x61, 0x7A), (0xAA, 0xAA), (0xBA, 0xBA), (0xC0, 0xD6), (0xD8, 0xF6),
      (0xF8, 0x2B8), (0x2E0, 0x2E4), (0x1D00, 0x1D25), (0x1D2C, 0x1D5C), (0x1D62, 0x1D65),
      (0x1D6B, 0x1D77), (0x1D79, 0x1DBE), (0x1E00, 0x1EFF), (0x2071, 0x2071), (0x207F, 0x207F),
      (0x2090, 0x209C), (0x212A, 0x212B), (0x2132, 0x2132), (0x214E, 0x214E), (0x2160, 0x2188),
      (0x2C60, 0x2C7F), (0xA722, 0xA787), (0xA78B, 0xA7CA), (0xA7D0, 0xA7D1), (0xA7D3, 0xA7D3),
      (0xA7D5, 0xA7D9), (0xA7F2, 0xA7FF), (0xAB30, 0xAB5A), (0xAB5C, 0xAB64), (0xAB66, 0xAB69),
      (0xFB00, 0xFB06), (0xFF21, 0xFF3A), (0xFF41, 0xFF5A), (0x10780, 0x10785), (0x10787, 0x107B0),
      (0x107B2, 0x107BA), (0x1DF00, 0x1DF1E), (0x1DF25, 0x1DF2A)]
  | "greek" | "grek" =>
    some [(0x370, 0x373), (0x375, 0x377), (0x37A, 0x37D), (0x37F, 0x37F), (0x384, 0x384),
      (0x386, 0x386), (0x388, 0x38A), (0x38C, 0x38C), (0x38E, 0x3A1), (0x3A3, 0x3E1),
      (0x3F0, 0x3FF), (0x1D26, 0x1D2A), (0x1D5D, 0x1D61), (0x1D66, 0x1D6A), (0x1DBF, 0x1DBF),
      (0x1F00, 0x1F15), (0x1F18, 0x1F1D), (0x1F20, 0x1F45), (0x1F48, 0x1F4D), (0x1F50, 0x1F57),
      (0x1F59, 0x1F59), (0x1F5B, 0x1F5B), (0x1F5D, 0x1F5D), (0x1F5F, 0x1F7D), (0x1F80, 0x1FB4),
      (0x1FB6, 0x1FC4), (0x1FC6, 0x1FD3), (0x1FD6, 0x1FDB), (0x1FDD, 0x1FEF), (0x1FF2, 0x1FF4),
      (0x1FF6, 0x1FFE), (0x2126, 0x2126), (0xAB65, 0xAB65), (0x10140, 0x1018E), (0x101A0, 0x101A0),
      (0x1D200, 0x1D245)]
  | "cyrillic" | "cyrl" =>
    some [(0x400, 0x484), (0x487, 0x52F), (0x1C80, 0x1C88), (0x1D2B, 0x1D2B), (0x1D78, 0x1D78),
      (0x2DE0, 0x2DFF), (0xA640, 0xA69F), (0xFE2E, 0xFE2F), (0x1E030, 0x1E06D), (0x1E08F, 0x1E08F)]
  | "han" | "hani" =>
    some [(0x2E80, 0x2E99), (0x2E9B, 0x2EF3), (0x2F00, 0x2FD5), (0x3005, 0x3005), (0x3007, 0x3007),
      (0x3021, 0x3029), (0x3038, 0x303B), (0x3400, 0x4DBF), (0x4E00, 0x9FFF), (0xF900, 0xFA6D),
      (0xFA70, 0xFAD9), (0x16FE2, 0x16FE3), (0x16FF0, 0x16FF1), (0x20000, 0x2A6DF),
      (0x2A700, 0x2B739), (0x2B740, 0x2B81D), (0x2B820, 0x2CEA1), (0x2CEB0, 0x2EBE0),
      (0x2EBF0, 0x2EE5D), (0x2F800, 0x2FA1D), (0x30000, 0x3134A), (0x31350, 0x323AF)]
  | "hiragana" | "hira" =>
    some [(0x3041, 0x3096), (0x309D, 0x309F), (0x1B001, 0x1B11F), (0x1B132, 0x1B132),
      (0x1B150, 0x1B152), (0x1F200, 0x1F200)]
  | "katakana" | "kana" =>
    some [(0x30A1, 0x30FA), (0x30FD, 0x30FF), (0x31F0, 0x31FF), (0x32D0, 0x32FE), (0x3300, 0x3357),
      (0xFF66, 0xFF6F), (0xFF71, 0xFF9D), (0x1AFF0, 0x1AFF3), (0x1AFF5, 0x1AFFB),
      (0x1AFFD, 0x1AFFE), (0x1B000, 0x1B000), (0x1B120, 0x1B122), (0x1B155, 0x1B155),
      (0x1B164, 0x1B167)]
  | "hangul" | "hang" =>
    some [(0x1100, 0x11FF), (0x302E, 0x302F), (0x3131, 0x318E), (0x3200, 0x321E), (0x3260, 0x327E),
      (0xA960, 0xA97C), (0xAC00, 0xD7A3), (0xD7B0, 0xD7C6), (0xD7CB, 0xD7FB), (0xFFA0, 0xFFBE),
      (0xFFC2, 0xFFC7), (0xFFCA, 0xFFCF), (0xFFD2, 0xFFD7), (0xFFDA, 0xFFDC)]
  | "hebrew" | "hebr" =>
    some [(0x591, 0x5C7), (0x5D0, 0x5EA), (0x5EF, 0x5F4), (0xFB1D, 0xFB36), (0xFB38, 0xFB3C),
      (0xFB3E, 0xFB3E), (0xFB40, 0xFB41), (0xFB43, 0xFB44), (0xFB46, 0xFB4F)]
  | "arabic" | "arab" =>
    some [(0x600, 0x604), (0x606, 0x60B), (0x60D, 0x61A), (0x61C, 0x61E), (0x620, 0x63F),
      (0x641, 0x64A), (0x656, 0x66F), (0x671, 0x6DC), (0x6DE, 0x6FF), (0x750, 0x77F),
      (0x870, 0x88E), (0x890, 0x891), (0x898, 0x8E1), (0x8E3, 0x8FF), (0xFB50, 0xFBC2),
      (0xFBD3, 0xFD3D), (0xFD40, 0xFD8F), (0xFD92, 0xFDC7), (0xFDCF, 0xFDCF), (0xFDF0, 0xFDFF),
      (0xFE70, 0xFE74), (0xFE76, 0xFEFC), (0x10E60, 0x10E7E), (0x10EFD, 0x10EFF),
      (0x1EE00, 0x1EE03), (0x1EE05, 0x1EE1F), (0x1EE21, 0x1EE22), (0x1EE24, 0x1EE24),
      (0x1EE27, 0x1EE27), (0x1EE29, 0x1EE32), (0x1EE34, 0x1EE37), (0x1EE39, 0x1EE39),
      (0x1EE3B, 0x1EE3B), (0x1EE42, 0x1EE42), (0x1EE47, 0x1EE47), (0x1EE49, 0x1EE49),
      (0x1EE4B, 0x1EE4B), (0x1EE4D, 0x1EE4F), (0x1EE51, 0x1EE52), (0x1EE54, 0x1EE54),
      (0x1EE57, 0x1EE57), (0x1EE59, 0x1EE59), (0x1EE5B, 0x1EE5B), (0x1EE5D, 0x1EE5D),
      (0x1EE5F, 0x1EE5F), (0x1EE61, 0x1EE62), (0x1EE64, 0x1EE64), (0x1EE67, 0x1EE6A),
      (0x1EE6C, 0x1EE72), (0x1EE74, 0x1EE77), (0x1EE79, 0x1EE7C), (0x1EE7E, 0x1EE7E),
      (0x1EE80, 0x1EE89), (0x1EE8B, 0x1EE9B), (0x1EEA1, 0x1EEA3), (0x1EEA5, 0x1EEA9),
      (0x1EEAB, 0x1EEBB), (0x1EEF0, 0x1EEF1)]
  | "thai" =>
    some [(0xE01, 0xE3A), (0xE40, 0xE5B)]
  | "devanagari" | "deva" =>
    some [(0x900, 0x950), (0x955, 0x963), (0x966, 0x97F), (0xA8E0, 0xA8FF), (0x11B00, 0x11B09)]
  | "armenian" | "armn" =>
    some [(0x531, 0x556), (0x559, 0x58A), (0x58D, 0x58F), (0xFB13, 0xFB17)]
  | "georgian" | "geor" =>
    some [(0x10A0, 0x10C5), (0x10C7, 0x10C7), (0x10CD, 0x10CD), (0x10D0, 0x10FA), (0x10FC, 0x10FF),
      (0x1C90, 0x1CBA), (0x1CBD, 0x1CBF), (0x2D00, 0x2D25), (0x2D27, 0x2D27), (0x2D2D, 0x2D2D)]
  | _ => Option.none

/-- A name without the characters that do not matter. -/
def normalName (name : List Char) : List Char :=
  let kept := (name.filter fun c => !(Text.isBlank c || c == '_' || c == '-')).map Char.toLower
  match kept with
  | 'i' :: 's' :: rest => if rest.isEmpty then kept else rest
  | _ => kept

/-- The properties that are not general categories, by their short and long names. -/
def ofBinaryName? : String → Option Class
  | "alphabetic" | "alpha" => some fun c =>
    (Text.category c).isLetter || Text.category c == .letterNumber
      || Text.inRanges Text.letterlikeSymbols c.toNat
  | "uppercase" | "upper" => some fun c => Text.category c == .uppercaseLetter
      || (0x2160 ≤ c.toNat && c.toNat ≤ 0x216F)
  | "lowercase" | "lower" => some fun c => Text.category c == .lowercaseLetter
      || c == 'ª' || c == 'º' || (0x2170 ≤ c.toNat && c.toNat ≤ 0x217F)
  | "whitespace" | "space" | "wspace" => some Text.isBlank
  | "graphemeextend" | "grext" => some Text.isExtending
  | _ => Option.none

/-- The class of a property given by one name. -/
def ofProperty? (name : List Char) : Option Class :=
  let name := String.ofList (normalName name)
  if name == "ascii" then some fun c => c.toNat < 128
  else
    match ofBinaryName? name with
    | some s => some s
    | Option.none =>
      match ofCategoryName? name with
      | some p => some fun c => p (Text.category c)
      | Option.none => (ofScriptName? name).map fun ranges c => Text.inRanges ranges c.toNat

/-- The class of a property given by its name and one of its values. -/
def ofPropertyValue? (property value : List Char) : Option Class :=
  let value := String.ofList (normalName value)
  match String.ofList (normalName property) with
  | "generalcategory" | "gc" => (ofCategoryName? value).map fun p c => p (Text.category c)
  | "script" | "sc" | "scriptextensions" | "scx" =>
    (ofScriptName? value).map fun ranges c => Text.inRanges ranges c.toNat
  | _ => Option.none

end Class

end CrossTag.Regex
