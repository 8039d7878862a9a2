/-!
# General categories

Every code point has one of thirty general categories. The table is a run-length code of
the whole code space: a decimal count (left out when it is one) and a letter for the
category, so the runs in order cover the code points from zero to the last one. Decoding
turns it into the list of run starts, and a look-up is a binary search for the last start
that does not exceed the code point.

Which characters are shown as they are in quoted text, and what the classes of regular
expressions contain, is read from this one table.
-/

namespace CrossTag.Text

/-- The general categories of the Unicode standard. -/
inductive Category
  | uppercaseLetter
  | lowercaseLetter
  | titlecaseLetter
  | modifierLetter
  | otherLetter
  | nonspacingMark
  | spacingMark
  | enclosingMark
  | decimalNumber
  | letterNumber
  | otherNumber
  | connectorPunctuation
  | dashPunctuation
  | openPunctuation
  | closePunctuation
  | initialPunctuation
  | finalPunctuation
  | otherPunctuation
  | mathSymbol
  | currencySymbol
  | modifierSymbol
  | otherSymbol
  | spaceSeparator
  | lineSeparator
  | paragraphSeparator
  | control
  | format
  | surrogate
  | privateUse
  | unassigned
deriving DecidableEq, Repr

namespace Category

/-- The letter that stands for a category in the run-length code. -/
def ofCode? : Char → Option Category
  | 'a' => some .uppercaseLetter
  | 'b' => some .lowercaseLetter
  | 'c' => some .titlecaseLetter
  | 'd' => some .modifierLetter
  | 'e' => some .otherLetter
  | 'f' => some .nonspacingMark
  | 'g' => some .spacingMark
  | 'h' => some .enclosingMark
  | 'i' => some .decimalNumber
  | 'j' => some .letterNumber
  | 'k' => some .otherNumber
  | 'l' => some .connectorPunctuation
  | 'm' => some .dashPunctuation
  | 'n' => some .openPunctuation
  | 'o' => some .closePunctuation
  | 'p' => some .initialPunctuation
  | 'q' => some .finalPunctuation
  | 'r' => some .otherPunctuation
  | 's' => some .mathSymbol
  | 't' => some .currencySymbol
  | 'u' => some .modifierSymbol
  | 'v' => some .otherSymbol
  | 'w' => some .spaceSeparator
  | 'x' => some .lineSeparator
  | 'y' => some .paragraphSeparator
  | 'z' => some .control
  | 'A' => some .format
  | 'B' => some .surrogate
  | 'C' => some .privateUse
  | 'D' => some .unassigned
  | _ => none

/-- The run-length code of the code space. -/
def runs : String :=
  String.join [
    "32zw3rt3rnorsrm2r10i2r3s2r26anroulu26bnsos33zwr4tvruvepsAvuvs2kub2rukeq3kr23as7a24bs8bababab",
    "ababababababababababababababababababababababababa2babababababababa2babababababababababababab",
    "ababababababababababab2ababa3b2abab2ab3a2b4ab2ab3a3b2ab2ababab2aba2bab2ab3abab2a2bea3b4eacba",
    "cbacbabababababababa2bababababababababa2bacbab3ababababababababababababababababababababababa",
    "bababababababa7b2ab2a2bab4ababababa69be27b18d4u12d14u5d7udud17u112fababduab2Dd3bra4D2uar3aDa",
    "D2ab17aD9a35ba2b3a3babababababababababababa5babsab2a2b51a48babababababababababababababababab",
    "abv5f2hababababababababababababababababababababababababababab2ababababababa2babababababababa",
    "bababababababababababababababababababababababababababababababababababababababababD38a2Dd6r41",
    "brm2D2vtD45fmfr2fr2frf8D27e4D4e2r11D6A3s2rt2r2v11frA3r32ed10e21f10i4r2ef99ere7fAv6f2d2fv4f2e",
    "10i3e2ve14rDAef30e27f2D89e11fe14D10i33e9f2dv3rd2Df2t22e4fd9fd3fd5f2D15rD25e3f2DrD11e5D24eu6e",
    "D2A5D9f41ed24fA32fg54efgfe3g8f4gf2ge7f10e2f2r10ird15ef2gD8e2D2e2D22eD7eDe3D4e2Dfe3g4f2D2g2D2",
    "gfe8Dg4D2eD3e2f2D10i2e2t6kvterf2D2fgD6e4D2e2D22eD7eD2eD2eD2e2DfD3g2f4D2f2D3f3Df7D4eDe7D10i2f",
    "3efr10D2fgD9eD3eD22eD7eD2eD5e2Dfe3g5fD2fgD2gf2De15D2e2f2D10irt7De6fDf2gD8e2D2e2D22eD7eD2eD5e",
    "2Dfegfg4f2D2g2D2gf7D2fg4D2eD3e2f2D10ive6k10DfeD6e3D3eD4e3D2eDeD2e3D2e3D3e3D12e4D2gf2g3D3gD3g",
    "f2De6Dg14D10i3k6vtv5Df3gf8eD3eD23eD16e2Dfe3f4gD3fD4f7D2fD3e2De2D2e2f2D10i7Dr7kvef2gr8eD3eD23",
    "eD10eD5e2Dfegf5gDf2gD2g2f7D2g6D2eD2e2f2D10iD2eg12D2f2g9eD3eD41e2fe3g4fD3gD3gfev4D3eg7k3e2f2D",
    "10i9kv6eDf2gD18e3D24eD9eDe2D7e3Df4D3g3fDfD8g6D10i2D2gr12D48ef2e7f4Dt6ed8fr10i2r37D2eDeD5eD24",
    "eDeD10ef2e9fe2D5eDdD7fD10i2D4e32De3v15rvr3v2f6v10i10kvfvfvfnono2g8eD36e4D14fg5fr2f5e11fD36fD",
    "8vf6vD2v5r4v2r37D43e2g4fg6fg2f2g2fe10i6r6e2g2f4e3fe3g2e7g3e4f13ef2g2f6gfeg10i3gf2v38aDa5Da2D",
    "43brd3b329eD4e2D7eDeD4e2D41eD4e2D33eD4e2D7eDeD4e2D15eD57eD4e2D67e2D3f9r20k3D16e10v6D86a2D6b2",
    "Dm620evr17ew26eno3D75e3r3j8e7D18e3fg9D19e2fg2r9D18e2f12D13eD3eD2f12D52e2fg7f8gf2g11f3rd3rtef",
    "2D10i6D10k6D6rm4r3fAf10i6D35ed53e7D5e2f34efe5D70e10D31eD3f4g2f3g4D2gf6g3f4Dv3D2r10i30e2D5e11",
    "D44e4D26e6D10ik3D34v23e2f2gf2D2r53egfg7fDfgf2g8f6g10f2Df10i6D10i6D7rd6r2D14fh16f49D4fg47efg5",
    "fgf5gf2g8e3D10i7r10v9f9v2rD2fg30eg4f2g2fg3f2e10i44efg2f3gfg3f2g8D4r36e8g8f2g2f3D5r10i3D3e10i",
    "30e6d2r9bab5D43a2D3a8r8D3fr13fg7f4ef6ef2eg2fe5D44b63d13bd34b37d64fababababababababababababab",
    "abababababababababababababababababababababababababababababababababababababababababababababab",
    "abababababababababababababababa9babababababababababababababababababababababababababababababa",
    "bababababababababababababababababababa9b8a6b2D6a2D8b8a8b8a6b2D6a2D8bDaDaDaDa8b8a14b2D8b8c8b8",
    "c8b8c5bD2b4acub3u3bD2b4ac3u4b2D2b4aD3u8b5a3u2D3bD2b4ac2uD11w5A6m2rpqn2pqnp8rxy5Aw9rpq4r2l3rs",
    "no11rsrl10rw5AD10Akd2D6k3snod10k3snoD13d3D33t15D13f4hf3h12f15D2va4va2vb3a2b3abva2vs5a6vavava",
    "v4avb4ab4eb2v2b2a5sa4bvs2vbv16k35jab4jk2v4D5s5v2s4vs2vs2vs7vs31v2s2vsvs31v268s8vnono20v2s7vn",
    "o81vs30v25s40v6s72v22D11v21D60k78v22k183vs9vs54v8s111vs248vnonononononono30k44v5sno31snonono",
    "nono16s256v131snonononononononononono63snono32sno258s48v21s2v6s39v2D32vD105v48a48bab3a2babab",
    "ab4aba2ba6b2d3ababababababababababababababababababababababababababababababababababababababab",
    "ababababababababababa2b6vabab3fab5D4rk2r38bDb5Db2D56e7Ddr14Df23e9D7eD7eD7eD7eD7eD7eD7eD7eD32",
    "f2rpqpq3rpqrpq9rm2rmrpq2rpqnononono5rd10r2m4rmrn13r2v3rnonononom34D26vD89v12D214v26D16vw3rvd",
    "ejnonononono2vnonononomn2ov9j4f2gm5d2v3jder2vD86e2D2f2u2dem90er3de5D43eD94eD2v4k10v32e38v9Dv",
    "16e31vD10k30v8kv15k32v10k39v15k320v6592e64v21013ed1143e3D55v9D40e6d2r268ed3r16e10i2e20Dababa",
    "bababababababababababababababababababababef3hr10frdabababababababababababababab2d2f70e10j2f6",
    "r8D23u9d2uababababababa3babababababababababababababababababababababababababababababababd8bab",
    "ab2abababababd2uababeaba3babababababababababab5ab5abababababababab4abab2ab2DabDbDbabababa21D",
    "3dabe2db7ef3ef4ef23e2g2fg4vf3D6k2vtv6D52e4r8D2g50e16g2f8D2r10i6D18f6e3rer2ef10i28e8f2r23e11f",
    "2g11Dr29e3D3fg47ef2g4f2g2f3g13rDd10i4D2r5efd9e10i5eD41e6f2g2f2g2f9D3ef8efg2D10i2D4r16ed6e3ve",
    "gfg50efe3f2e2f5e2fefe24D2ed2r11eg2f2g2re2dgf10D6e2D6e2D6e9D7eD7eD43bu4d9bd2u4D80b35e2gf2gf2g",
    "rgf2D10i6D11172e12D23e4D49e4D2048B6400C366e2D106e38D7b12D5b5Def10es13eD5eDeD2eD2eD108e17u16D",
    "363eon16v64e2D54e7Dv32D12et3v16f7rnor6D16fr2m2lnononononononono2rno4r3l3rD4rmnonono3rsm3sDrt",
    "2r4D5eD135e2DAD3rt3rnorsrm2r10i2r3s2r26anroulu26bnsosnorno2r10ed45e2d31e3D6e2D6e2D6e2D3e3D2t",
    "suv2tDv4s2v10D3A2v2D12eD26eD19eD2eD15e2D14e34D123e5D3r4D45k3D9v53j4k17v2k3vD13v3Dv47D45vf130",
    "D29e3D49e15Df27k4D32e4k9D20ej8ej5D38e5f5D30eDr36e4D8er5j42D40a40b78e2D10i6D36a4D36b4D40e8D52",
    "e11Dr11aD15aD7aD2aD11bD15bD7bD2b67D311e9D22e10D8e24D6dD42dD9d69D6e2DeD44eD2e3De2D23eDr8k23e2",
    "v7k31e8D9k48D19eD2e5D5k22e6k3Dr26e5Dr64D56e4D2k2e16k2D46ke3fD2f5D4f4eD3eD29e2D3f4Df9k7D9r7D2",
    "9e2kr29e3k32D8ev28e2f4D5k7r9D54e3D7r22e2D8k19e5D8k18e7D4r12D7k80D73e55D51a13D51b7D6k36e4f8D1",
    "0i6D10i4ede22a3D5fmd22b8D2s208D31kD42eD2fm2D2e75D3f29e10ke8D22e11f4k5r22D18e4f4r38D21e7k20D2",
    "3e9Dgfg53e15f7r4D20k10if2e2fe9D3fg45e3g4f2g2f2rA4rf10DA2D25e7D10i6D3f36e5fg8fD10i4re2ge8D35e",
    "f2re9D2fg48e3g9f2g4e4r4frgf10iere3rD20k11D18eD25e3g3f2gfg2f6rf2ef62D7eDeD4eD15eD10er6D47ef3g",
    "8f5D10i6D2f2gD8e2D2e2D22eD7eD2eD5eD2fe2gf4g2D2g2D3g2De6Dg5D5e2g2D7f3D5f139D53e3g8f2g3fgf4e5r",
    "10i2rDrf3e30D48e3g6fgf4g2fg2f2ere8D10i166D47e3g4f2D4g2fg2f23r4e2f34D48e3g8f2gfg2f3re11D10i6D",
    "13r19D43efgf2g6fgfer6D10i6D20i28D27e2D3f2g4fg5f4D10i2k3rv7e185D44e3g9fg2fr100D32a32b10i9k12D",
    "8e2De2D8eD2eD24e6gD2g2D2fgfegegf3r9D10i70D8e2D39e3g4f2D2f4gfereg27De10f40e6fge4f8rf8De6f2g3f",
    "46e13fg2f3re5r13D73e7D10r182D33er14D10i6D9eD37eg7fD6fgfe5r10D10i19k3D2r30e2D22fDg7fg2fg2f73D",
    "7eD2eD38e6f3DfD2fD7fef8D10i6D6eD2eD32e5gD2fD2gfgfe7D10i310D19e2f2g2r7D2feg13eD34e2g5f3D2gfgf",
    "13r10i86De15D21k8v4t17v13Dr922e102D111jD5r11D196e2636D97e2r13D1072e16Af6e15f10D3995e5D583e86",
    "33D569e7D31eD10i4D2r79eD10i6D30e2D5fr10D48e7f5r4v4drv10D10iD7kD21e5D19e688D32a32b23k4r101D75",
    "e4Dfe55g7D4f13d64D2drdf11D2g14D6136e8D1238e42D9e8935D4dD7dD2dD291e15De29D3e2De14D4e8D396e230",
    "8D107e5D13e3D9e7D10e2Dv2fr4A3932D240v10i6D436v76D46f2D23f9D116v60D246v10D39v2D60v2g3f3v6g8A8",
    "f2v7f30v4f61v21D66v3fv122D20k12D20k12D87v9D25k135D26a26b26a7bD18b26a26baD2a2Da2D2a2D4aD8a4bD",
    "bD7bD11b26a26b2aD4a2D8aD7aD26b2aD4aD5aDa3D7aD26b26a26b26a26b26a26b26a26b26a26b26a28b2D25as25",
    "bs6b25as25bs6b25as25bs6b25as25bs6b25as25bs6bab2D50i512v55f4v50f8vf14vf2v5r15D5fD15f1104D10be",
    "20b6D6b213D7fD17f2D7fD2fD5f5D62d33Df112D45e3D7f7d2D10i4Dev320D30ef17D44e4f10i5Dt464D27ed4f10",
    "i742D7eD4eD2eD15eD197e2D9k7f41D34a34b7fd4D10i4D2r785D59kv3kt4k76D45kv15k194D4eD27eD2eDe2DeD1",
    "0eD4eDeDe6De4DeDeDeD3eD2eDe2DeDeDeDeDeD2eDe2D4eD7eD4eD4eDeD10eD17e5D3eD5eD17e52D2s270D44v4D1",
    "00v12D15v2D15vD15vD37v10D13k161v56D29v13D44v4D9v7D2v14D6v154D251v5u728v4D17v3D13v3D119v4D95v",
    "6D12v4Dv15D12v4D56v8D10v6D40v8D30v2D12v4D2v62D340v12D14v2D13v3D10v5D56v7D15v2D11v6D9v7D147vD",
    "92v10i1030D42720e32D4154e6D222e2D5762e14D7473e15D622e2466D542e1506D4939e5D4192e711761DA30D96",
    "A128D240f65040D65534C2D65534C2D"]

/-- Reads a run-length code: `start` is the code point where the next run begins and
`count` the digits of its length read so far. -/
def decodeRuns : (start : Nat) → (count : Option Nat) → List Char → List (Nat × Category)
  | _, _, [] => []
  | start, count, c :: cs =>
    match ofCode? c with
    | some category => (start, category) :: decodeRuns (start + count.getD 1) none cs
    | none => decodeRuns start (some (count.getD 0 * 10 + (c.toNat - '0'.toNat))) cs

/-- The starts of the runs, in ascending order, with the category of each. -/
def table : Array (Nat × Category) :=
  (decodeRuns 0 none runs.toList).toArray

/-- Binary search in `runs[lo .. hi)` for the category of the last run that starts at or
before `n`; `found` is the category of the last such run seen so far. -/
def search (runs : Array (Nat × Category)) (n lo hi : Nat) (found : Category) : Category :=
  if lo < hi then
    let mid := (lo + hi) / 2
    match runs[mid]? with
    | some (start, category) =>
      if start ≤ n then search runs n (mid + 1) hi category else search runs n lo mid found
    | none => found
  else found
termination_by hi - lo

end Category

/-- The general category of a character. -/
def category (c : Char) : Category :=
  Category.search Category.table c.toNat 0 Category.table.size .unassigned

/-! ### Groups of categories -/

namespace Category

def isLetter (k : Category) : Bool :=
  k matches .uppercaseLetter | .lowercaseLetter | .titlecaseLetter | .modifierLetter | .otherLetter

def isMark (k : Category) : Bool :=
  k matches .nonspacingMark | .spacingMark | .enclosingMark

def isNumber (k : Category) : Bool :=
  k matches .decimalNumber | .letterNumber | .otherNumber

def isPunctuation (k : Category) : Bool :=
  k matches .connectorPunctuation | .dashPunctuation | .openPunctuation | .closePunctuation
    | .initialPunctuation | .finalPunctuation | .otherPunctuation

def isSymbol (k : Category) : Bool :=
  k matches .mathSymbol | .currencySymbol | .modifierSymbol | .otherSymbol

def isSeparator (k : Category) : Bool :=
  k matches .spaceSeparator | .lineSeparator | .paragraphSeparator

/-- Controls, formats, surrogates, private use and what is not assigned. -/
def isOther (k : Category) : Bool :=
  k matches .control | .format | .surrogate | .privateUse | .unassigned

end Category

/-! ### Derived properties -/

/-- True if `n` lies in one of the closed ranges. -/
def inRanges (ranges : List (Nat × Nat)) (n : Nat) : Bool :=
  ranges.any fun r => r.1 ≤ n && n ≤ r.2

/-- Spacing marks and other characters that extend the character before them although they
are neither nonspacing nor enclosing marks. -/
def otherExtending : List (Nat × Nat) :=
  [(0x9BE, 0x9BE), (0x9D7, 0x9D7), (0xB3E, 0xB3E), (0xB57, 0xB57), (0xBBE, 0xBBE),
   (0xBD7, 0xBD7), (0xCC0, 0xCC0), (0xCC2, 0xCC2), (0xCC7, 0xCC8), (0xCCA, 0xCCB),
   (0xCD5, 0xCD6), (0xD3E, 0xD3E), (0xD57, 0xD57), (0xDCF, 0xDCF), (0xDDF, 0xDDF),
   (0x1715, 0x1715), (0x1734, 0x1734), (0x1B35, 0x1B35), (0x1B3B, 0x1B3B), (0x1B3D, 0x1B3D),
   (0x1B43, 0x1B44), (0x1BAA, 0x1BAA), (0x1BF2, 0x1BF3), (0x200C, 0x200C), (0x302E, 0x302F),
   (0xA953, 0xA953), (0xA9C0, 0xA9C0), (0xFF9E, 0xFF9F), (0x111C0, 0x111C0),
   (0x11235, 0x11235), (0x1133E, 0x1133E), (0x1134D, 0x1134D), (0x11357, 0x11357),
   (0x114B0, 0x114B0), (0x114BD, 0x114BD), (0x115AF, 0x115AF), (0x11930, 0x11930),
   (0x1193D, 0x1193D), (0x11F41, 0x11F41), (0x16FF0, 0x16FF1), (0x1D165, 0x1D166),
   (0x1D16D, 0x1D172), (0xE0020, 0xE007F)]

/-- The property Grapheme_Extend: combining characters, which have no place of their own. -/
def isExtending (c : Char) : Bool :=
  (category c matches .nonspacingMark | .enclosingMark) || inRanges otherExtending c.toNat

/-- Symbols that count as letters: circled and squared ones. -/
def letterlikeSymbols : List (Nat × Nat) :=
  [(0x24B6, 0x24E9), (0x1F130, 0x1F149), (0x1F150, 0x1F169), (0x1F170, 0x1F189)]

/-- The characters of words: letters, marks, decimal digits, letter numbers, connectors, the
letter-like symbols and the two joiners. -/
def isWordChar (c : Char) : Bool :=
  let k := category c
  k.isLetter || k.isMark || k == .decimalNumber || k == .letterNumber
    || k == .connectorPunctuation || inRanges letterlikeSymbols c.toNat
    || c.toNat == 0x200C || c.toNat == 0x200D

end CrossTag.Text
