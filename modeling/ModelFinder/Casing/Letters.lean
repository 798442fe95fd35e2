/-!
# Capital and small letters

The letters of the Unicode standard, version 17, that come as a capital and a small one.  Most of
them do so in pairs (`pairs`), each of the two letters standing for the other.  The others have
something else on the far side: a letter which is paired already, or several letters
(`capitals`, `smalls`).

`capital` and `small` write a character in capitals or in small letters.  They leave alone what has
no case, and do not look at what is around the character.
-/

namespace ModelFinder.Casing

/-- A number of pairs of letters; the capital letters are `step` code points apart, and so are the
small ones. -/
structure PairRun where
  firstCapital : Nat
  firstSmall : Nat
  step : Nat
  count : Nat

namespace PairRun

/-- The distance of a code point from the first letter of its kind, if it is one of the letters. -/
def offset? (r : PairRun) (first n : Nat) : Option Nat :=
  if n < first then none
  else if r.step * r.count ≤ n - first then none
  else if (n - first) % r.step = 0 then some (n - first)
  else none

/-- The capital letter of a small one. -/
def capital? (r : PairRun) (n : Nat) : Option Nat :=
  (r.offset? r.firstSmall n).map fun k => r.firstCapital + k

/-- The small letter of a capital one. -/
def small? (r : PairRun) (n : Nat) : Option Nat :=
  (r.offset? r.firstCapital n).map fun k => r.firstSmall + k

end PairRun

/-! ### The letters -/

/-- The pairs of letters. -/
def pairs : List PairRun :=
  [
    ⟨0x41, 0x61, 1, 26⟩, ⟨0xC0, 0xE0, 1, 23⟩, ⟨0xD8, 0xF8, 1, 7⟩, ⟨0x100, 0x101, 2, 24⟩,
    ⟨0x132, 0x133, 2, 3⟩, ⟨0x139, 0x13A, 2, 8⟩, ⟨0x14A, 0x14B, 2, 23⟩, ⟨0x178, 0xFF, 1, 1⟩,
    ⟨0x179, 0x17A, 2, 3⟩, ⟨0x181, 0x253, 1, 1⟩, ⟨0x182, 0x183, 2, 2⟩, ⟨0x186, 0x254, 1, 1⟩,
    ⟨0x187, 0x188, 1, 1⟩, ⟨0x189, 0x256, 1, 2⟩, ⟨0x18B, 0x18C, 1, 1⟩, ⟨0x18E, 0x1DD, 1, 1⟩,
    ⟨0x18F, 0x259, 1, 1⟩, ⟨0x190, 0x25B, 1, 1⟩, ⟨0x191, 0x192, 1, 1⟩, ⟨0x193, 0x260, 1, 1⟩,
    ⟨0x194, 0x263, 1, 1⟩, ⟨0x196, 0x269, 1, 1⟩, ⟨0x197, 0x268, 1, 1⟩, ⟨0x198, 0x199, 1, 1⟩,
    ⟨0x19C, 0x26F, 1, 1⟩, ⟨0x19D, 0x272, 1, 1⟩, ⟨0x19F, 0x275, 1, 1⟩, ⟨0x1A0, 0x1A1, 2, 3⟩,
    ⟨0x1A6, 0x280, 1, 1⟩, ⟨0x1A7, 0x1A8, 1, 1⟩, ⟨0x1A9, 0x283, 1, 1⟩, ⟨0x1AC, 0x1AD, 1, 1⟩,
    ⟨0x1AE, 0x288, 1, 1⟩, ⟨0x1AF, 0x1B0, 1, 1⟩, ⟨0x1B1, 0x28A, 1, 2⟩, ⟨0x1B3, 0x1B4, 2, 2⟩,
    ⟨0x1B7, 0x292, 1, 1⟩, ⟨0x1B8, 0x1B9, 1, 1⟩, ⟨0x1BC, 0x1BD, 1, 1⟩, ⟨0x1C4, 0x1C6, 1, 1⟩,
    ⟨0x1C7, 0x1C9, 1, 1⟩, ⟨0x1CA, 0x1CC, 1, 1⟩, ⟨0x1CD, 0x1CE, 2, 8⟩, ⟨0x1DE, 0x1DF, 2, 9⟩,
    ⟨0x1F1, 0x1F3, 1, 1⟩, ⟨0x1F4, 0x1F5, 1, 1⟩, ⟨0x1F6, 0x195, 1, 1⟩, ⟨0x1F7, 0x1BF, 1, 1⟩,
    ⟨0x1F8, 0x1F9, 2, 20⟩, ⟨0x220, 0x19E, 1, 1⟩, ⟨0x222, 0x223, 2, 9⟩, ⟨0x23A, 0x2C65, 1, 1⟩,
    ⟨0x23B, 0x23C, 1, 1⟩, ⟨0x23D, 0x19A, 1, 1⟩, ⟨0x23E, 0x2C66, 1, 1⟩, ⟨0x241, 0x242, 1, 1⟩,
    ⟨0x243, 0x180, 1, 1⟩, ⟨0x244, 0x289, 1, 1⟩, ⟨0x245, 0x28C, 1, 1⟩, ⟨0x246, 0x247, 2, 5⟩,
    ⟨0x370, 0x371, 2, 2⟩, ⟨0x376, 0x377, 1, 1⟩, ⟨0x37F, 0x3F3, 1, 1⟩, ⟨0x386, 0x3AC, 1, 1⟩,
    ⟨0x388, 0x3AD, 1, 3⟩, ⟨0x38C, 0x3CC, 1, 1⟩, ⟨0x38E, 0x3CD, 1, 2⟩, ⟨0x391, 0x3B1, 1, 17⟩,
    ⟨0x3A3, 0x3C3, 1, 9⟩, ⟨0x3CF, 0x3D7, 1, 1⟩, ⟨0x3D8, 0x3D9, 2, 12⟩, ⟨0x3F7, 0x3F8, 1, 1⟩,
    ⟨0x3F9, 0x3F2, 1, 1⟩, ⟨0x3FA, 0x3FB, 1, 1⟩, ⟨0x3FD, 0x37B, 1, 3⟩, ⟨0x400, 0x450, 1, 16⟩,
    ⟨0x410, 0x430, 1, 32⟩, ⟨0x460, 0x461, 2, 17⟩, ⟨0x48A, 0x48B, 2, 27⟩, ⟨0x4C0, 0x4CF, 1, 1⟩,
    ⟨0x4C1, 0x4C2, 2, 7⟩, ⟨0x4D0, 0x4D1, 2, 48⟩, ⟨0x531, 0x561, 1, 38⟩, ⟨0x10A0, 0x2D00, 1, 38⟩,
    ⟨0x10C7, 0x2D27, 1, 1⟩, ⟨0x10CD, 0x2D2D, 1, 1⟩, ⟨0x13A0, 0xAB70, 1, 80⟩, ⟨0x13F0, 0x13F8, 1, 6⟩,
    ⟨0x1C89, 0x1C8A, 1, 1⟩, ⟨0x1C90, 0x10D0, 1, 43⟩, ⟨0x1CBD, 0x10FD, 1, 3⟩,
    ⟨0x1E00, 0x1E01, 2, 75⟩, ⟨0x1EA0, 0x1EA1, 2, 48⟩, ⟨0x1F08, 0x1F00, 1, 8⟩,
    ⟨0x1F18, 0x1F10, 1, 6⟩, ⟨0x1F28, 0x1F20, 1, 8⟩, ⟨0x1F38, 0x1F30, 1, 8⟩, ⟨0x1F48, 0x1F40, 1, 6⟩,
    ⟨0x1F59, 0x1F51, 2, 4⟩, ⟨0x1F68, 0x1F60, 1, 8⟩, ⟨0x1FB8, 0x1FB0, 1, 2⟩, ⟨0x1FBA, 0x1F70, 1, 2⟩,
    ⟨0x1FC8, 0x1F72, 1, 4⟩, ⟨0x1FD8, 0x1FD0, 1, 2⟩, ⟨0x1FDA, 0x1F76, 1, 2⟩, ⟨0x1FE8, 0x1FE0, 1, 2⟩,
    ⟨0x1FEA, 0x1F7A, 1, 2⟩, ⟨0x1FEC, 0x1FE5, 1, 1⟩, ⟨0x1FF8, 0x1F78, 1, 2⟩, ⟨0x1FFA, 0x1F7C, 1, 2⟩,
    ⟨0x2132, 0x214E, 1, 1⟩, ⟨0x2160, 0x2170, 1, 16⟩, ⟨0x2183, 0x2184, 1, 1⟩,
    ⟨0x24B6, 0x24D0, 1, 26⟩, ⟨0x2C00, 0x2C30, 1, 48⟩, ⟨0x2C60, 0x2C61, 1, 1⟩, ⟨0x2C62, 0x26B, 1, 1⟩,
    ⟨0x2C63, 0x1D7D, 1, 1⟩, ⟨0x2C64, 0x27D, 1, 1⟩, ⟨0x2C67, 0x2C68, 2, 3⟩, ⟨0x2C6D, 0x251, 1, 1⟩,
    ⟨0x2C6E, 0x271, 1, 1⟩, ⟨0x2C6F, 0x250, 1, 1⟩, ⟨0x2C70, 0x252, 1, 1⟩, ⟨0x2C72, 0x2C73, 1, 1⟩,
    ⟨0x2C75, 0x2C76, 1, 1⟩, ⟨0x2C7E, 0x23F, 1, 2⟩, ⟨0x2C80, 0x2C81, 2, 50⟩, ⟨0x2CEB, 0x2CEC, 2, 2⟩,
    ⟨0x2CF2, 0x2CF3, 1, 1⟩, ⟨0xA640, 0xA641, 2, 23⟩, ⟨0xA680, 0xA681, 2, 14⟩,
    ⟨0xA722, 0xA723, 2, 7⟩, ⟨0xA732, 0xA733, 2, 31⟩, ⟨0xA779, 0xA77A, 2, 2⟩, ⟨0xA77D, 0x1D79, 1, 1⟩,
    ⟨0xA77E, 0xA77F, 2, 5⟩, ⟨0xA78B, 0xA78C, 1, 1⟩, ⟨0xA78D, 0x265, 1, 1⟩, ⟨0xA790, 0xA791, 2, 2⟩,
    ⟨0xA796, 0xA797, 2, 10⟩, ⟨0xA7AA, 0x266, 1, 1⟩, ⟨0xA7AB, 0x25C, 1, 1⟩, ⟨0xA7AC, 0x261, 1, 1⟩,
    ⟨0xA7AD, 0x26C, 1, 1⟩, ⟨0xA7AE, 0x26A, 1, 1⟩, ⟨0xA7B0, 0x29E, 1, 1⟩, ⟨0xA7B1, 0x287, 1, 1⟩,
    ⟨0xA7B2, 0x29D, 1, 1⟩, ⟨0xA7B3, 0xAB53, 1, 1⟩, ⟨0xA7B4, 0xA7B5, 2, 8⟩, ⟨0xA7C4, 0xA794, 1, 1⟩,
    ⟨0xA7C5, 0x282, 1, 1⟩, ⟨0xA7C6, 0x1D8E, 1, 1⟩, ⟨0xA7C7, 0xA7C8, 2, 2⟩, ⟨0xA7CB, 0x264, 1, 1⟩,
    ⟨0xA7CC, 0xA7CD, 2, 8⟩, ⟨0xA7DC, 0x19B, 1, 1⟩, ⟨0xA7F5, 0xA7F6, 1, 1⟩, ⟨0xFF21, 0xFF41, 1, 26⟩,
    ⟨0x10400, 0x10428, 1, 40⟩, ⟨0x104B0, 0x104D8, 1, 36⟩, ⟨0x10570, 0x10597, 2, 19⟩,
    ⟨0x10571, 0x10598, 2, 5⟩, ⟨0x1057D, 0x105A4, 2, 7⟩, ⟨0x1058D, 0x105B4, 2, 3⟩,
    ⟨0x10595, 0x105BC, 1, 1⟩, ⟨0x10C80, 0x10CC0, 1, 51⟩, ⟨0x10D50, 0x10D70, 1, 22⟩,
    ⟨0x118A0, 0x118C0, 1, 32⟩, ⟨0x16E40, 0x16E60, 1, 32⟩, ⟨0x16EA0, 0x16EBB, 1, 25⟩,
    ⟨0x1E900, 0x1E922, 1, 34⟩
  ]

/-- What is written in capitals for letters which are not the small ones of a pair. -/
def capitals : List (Nat × List Nat) :=
  [
    (0xB5, [0x39C]), (0xDF, [0x53, 0x53]), (0x131, [0x49]), (0x149, [0x2BC, 0x4E]), (0x17F, [0x53]),
    (0x1C5, [0x1C4]), (0x1C8, [0x1C7]), (0x1CB, [0x1CA]), (0x1F0, [0x4A, 0x30C]), (0x1F2, [0x1F1]),
    (0x345, [0x399]), (0x390, [0x399, 0x308, 0x301]), (0x3B0, [0x3A5, 0x308, 0x301]),
    (0x3C2, [0x3A3]), (0x3D0, [0x392]), (0x3D1, [0x398]), (0x3D5, [0x3A6]), (0x3D6, [0x3A0]),
    (0x3F0, [0x39A]), (0x3F1, [0x3A1]), (0x3F5, [0x395]), (0x587, [0x535, 0x552]),
    (0x1C80, [0x412]), (0x1C81, [0x414]), (0x1C82, [0x41E]), (0x1C83, [0x421]), (0x1C84, [0x422]),
    (0x1C85, [0x422]), (0x1C86, [0x42A]), (0x1C87, [0x462]), (0x1C88, [0xA64A]),
    (0x1E96, [0x48, 0x331]), (0x1E97, [0x54, 0x308]), (0x1E98, [0x57, 0x30A]),
    (0x1E99, [0x59, 0x30A]), (0x1E9A, [0x41, 0x2BE]), (0x1E9B, [0x1E60]), (0x1F50, [0x3A5, 0x313]),
    (0x1F52, [0x3A5, 0x313, 0x300]), (0x1F54, [0x3A5, 0x313, 0x301]),
    (0x1F56, [0x3A5, 0x313, 0x342]), (0x1F80, [0x1F08, 0x399]), (0x1F81, [0x1F09, 0x399]),
    (0x1F82, [0x1F0A, 0x399]), (0x1F83, [0x1F0B, 0x399]), (0x1F84, [0x1F0C, 0x399]),
    (0x1F85, [0x1F0D, 0x399]), (0x1F86, [0x1F0E, 0x399]), (0x1F87, [0x1F0F, 0x399]),
    (0x1F88, [0x1F08, 0x399]), (0x1F89, [0x1F09, 0x399]), (0x1F8A, [0x1F0A, 0x399]),
    (0x1F8B, [0x1F0B, 0x399]), (0x1F8C, [0x1F0C, 0x399]), (0x1F8D, [0x1F0D, 0x399]),
    (0x1F8E, [0x1F0E, 0x399]), (0x1F8F, [0x1F0F, 0x399]), (0x1F90, [0x1F28, 0x399]),
    (0x1F91, [0x1F29, 0x399]), (0x1F92, [0x1F2A, 0x399]), (0x1F93, [0x1F2B, 0x399]),
    (0x1F94, [0x1F2C, 0x399]), (0x1F95, [0x1F2D, 0x399]), (0x1F96, [0x1F2E, 0x399]),
    (0x1F97, [0x1F2F, 0x399]), (0x1F98, [0x1F28, 0x399]), (0x1F99, [0x1F29, 0x399]),
    (0x1F9A, [0x1F2A, 0x399]), (0x1F9B, [0x1F2B, 0x399]), (0x1F9C, [0x1F2C, 0x399]),
    (0x1F9D, [0x1F2D, 0x399]), (0x1F9E, [0x1F2E, 0x399]), (0x1F9F, [0x1F2F, 0x399]),
    (0x1FA0, [0x1F68, 0x399]), (0x1FA1, [0x1F69, 0x399]), (0x1FA2, [0x1F6A, 0x399]),
    (0x1FA3, [0x1F6B, 0x399]), (0x1FA4, [0x1F6C, 0x399]), (0x1FA5, [0x1F6D, 0x399]),
    (0x1FA6, [0x1F6E, 0x399]), (0x1FA7, [0x1F6F, 0x399]), (0x1FA8, [0x1F68, 0x399]),
    (0x1FA9, [0x1F69, 0x399]), (0x1FAA, [0x1F6A, 0x399]), (0x1FAB, [0x1F6B, 0x399]),
    (0x1FAC, [0x1F6C, 0x399]), (0x1FAD, [0x1F6D, 0x399]), (0x1FAE, [0x1F6E, 0x399]),
    (0x1FAF, [0x1F6F, 0x399]), (0x1FB2, [0x1FBA, 0x399]), (0x1FB3, [0x391, 0x399]),
    (0x1FB4, [0x386, 0x399]), (0x1FB6, [0x391, 0x342]), (0x1FB7, [0x391, 0x342, 0x399]),
    (0x1FBC, [0x391, 0x399]), (0x1FBE, [0x399]), (0x1FC2, [0x1FCA, 0x399]),
    (0x1FC3, [0x397, 0x399]), (0x1FC4, [0x389, 0x399]), (0x1FC6, [0x397, 0x342]),
    (0x1FC7, [0x397, 0x342, 0x399]), (0x1FCC, [0x397, 0x399]), (0x1FD2, [0x399, 0x308, 0x300]),
    (0x1FD3, [0x399, 0x308, 0x301]), (0x1FD6, [0x399, 0x342]), (0x1FD7, [0x399, 0x308, 0x342]),
    (0x1FE2, [0x3A5, 0x308, 0x300]), (0x1FE3, [0x3A5, 0x308, 0x301]), (0x1FE4, [0x3A1, 0x313]),
    (0x1FE6, [0x3A5, 0x342]), (0x1FE7, [0x3A5, 0x308, 0x342]), (0x1FF2, [0x1FFA, 0x399]),
    (0x1FF3, [0x3A9, 0x399]), (0x1FF4, [0x38F, 0x399]), (0x1FF6, [0x3A9, 0x342]),
    (0x1FF7, [0x3A9, 0x342, 0x399]), (0x1FFC, [0x3A9, 0x399]), (0xFB00, [0x46, 0x46]),
    (0xFB01, [0x46, 0x49]), (0xFB02, [0x46, 0x4C]), (0xFB03, [0x46, 0x46, 0x49]),
    (0xFB04, [0x46, 0x46, 0x4C]), (0xFB05, [0x53, 0x54]), (0xFB06, [0x53, 0x54]),
    (0xFB13, [0x544, 0x546]), (0xFB14, [0x544, 0x535]), (0xFB15, [0x544, 0x53B]),
    (0xFB16, [0x54E, 0x546]), (0xFB17, [0x544, 0x53D])
  ]

/-- What is written in small letters for letters which are not the capital ones of a pair. -/
def smalls : List (Nat × List Nat) :=
  [
    (0x130, [0x69, 0x307]), (0x1C5, [0x1C6]), (0x1C8, [0x1C9]), (0x1CB, [0x1CC]), (0x1F2, [0x1F3]),
    (0x3F4, [0x3B8]), (0x1E9E, [0xDF]), (0x1F88, [0x1F80]), (0x1F89, [0x1F81]), (0x1F8A, [0x1F82]),
    (0x1F8B, [0x1F83]), (0x1F8C, [0x1F84]), (0x1F8D, [0x1F85]), (0x1F8E, [0x1F86]),
    (0x1F8F, [0x1F87]), (0x1F98, [0x1F90]), (0x1F99, [0x1F91]), (0x1F9A, [0x1F92]),
    (0x1F9B, [0x1F93]), (0x1F9C, [0x1F94]), (0x1F9D, [0x1F95]), (0x1F9E, [0x1F96]),
    (0x1F9F, [0x1F97]), (0x1FA8, [0x1FA0]), (0x1FA9, [0x1FA1]), (0x1FAA, [0x1FA2]),
    (0x1FAB, [0x1FA3]), (0x1FAC, [0x1FA4]), (0x1FAD, [0x1FA5]), (0x1FAE, [0x1FA6]),
    (0x1FAF, [0x1FA7]), (0x1FBC, [0x1FB3]), (0x1FCC, [0x1FC3]), (0x1FFC, [0x1FF3]),
    (0x2126, [0x3C9]), (0x212A, [0x6B]), (0x212B, [0xE5])
  ]

/-! ### Writing a character -/

/-- The characters with some code points. -/
def characters (ns : List Nat) : List Char := ns.map Char.ofNat

/-- A character in capitals. -/
def capital (c : Char) : List Char :=
  match pairs.findSome? (·.capital? c.toNat), capitals.lookup c.toNat with
  | some n, _ => characters [n]
  | none, some ns => characters ns
  | none, none => [c]

/-- A character in small letters. -/
def small (c : Char) : List Char :=
  match pairs.findSome? (·.small? c.toNat), smalls.lookup c.toNat with
  | some n, _ => characters [n]
  | none, some ns => characters ns
  | none, none => [c]

end ModelFinder.Casing
