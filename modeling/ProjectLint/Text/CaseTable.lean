/-
Case data of the Unicode standard: the one-to-one lower-case mappings, written as runs, and the two
classes of characters that decide the form of a final sigma.
-/

namespace ProjectLint
namespace Text
namespace Case

structure Shift where
  first : Nat
  count : Nat
  distance : Int

def shifts : List Shift := [
  ⟨0x41, 26, 32⟩, ⟨0xC0, 23, 32⟩, ⟨0xD8, 7, 32⟩, ⟨0x178, 1, -121⟩, ⟨0x181, 1, 210⟩, ⟨0x186, 1, 206⟩,
  ⟨0x189, 2, 205⟩, ⟨0x18E, 1, 79⟩, ⟨0x18F, 1, 202⟩, ⟨0x190, 1, 203⟩, ⟨0x193, 1, 205⟩,
  ⟨0x194, 1, 207⟩, ⟨0x196, 1, 211⟩, ⟨0x197, 1, 209⟩, ⟨0x19C, 1, 211⟩, ⟨0x19D, 1, 213⟩,
  ⟨0x19F, 1, 214⟩, ⟨0x1A6, 1, 218⟩, ⟨0x1A9, 1, 218⟩, ⟨0x1AE, 1, 218⟩, ⟨0x1B1, 2, 217⟩,
  ⟨0x1B7, 1, 219⟩, ⟨0x1C4, 1, 2⟩, ⟨0x1C7, 1, 2⟩, ⟨0x1CA, 1, 2⟩, ⟨0x1F1, 1, 2⟩, ⟨0x1F6, 1, -97⟩,
  ⟨0x1F7, 1, -56⟩, ⟨0x220, 1, -130⟩, ⟨0x23A, 1, 10795⟩, ⟨0x23D, 1, -163⟩, ⟨0x23E, 1, 10792⟩,
  ⟨0x243, 1, -195⟩, ⟨0x244, 1, 69⟩, ⟨0x245, 1, 71⟩, ⟨0x37F, 1, 116⟩, ⟨0x386, 1, 38⟩, ⟨0x388, 3, 37⟩,
  ⟨0x38C, 1, 64⟩, ⟨0x38E, 2, 63⟩, ⟨0x391, 17, 32⟩, ⟨0x3A3, 9, 32⟩, ⟨0x3CF, 1, 8⟩, ⟨0x3F4, 1, -60⟩,
  ⟨0x3F9, 1, -7⟩, ⟨0x3FD, 3, -130⟩, ⟨0x400, 16, 80⟩, ⟨0x410, 32, 32⟩, ⟨0x4C0, 1, 15⟩,
  ⟨0x531, 38, 48⟩, ⟨0x10A0, 38, 7264⟩, ⟨0x10C7, 1, 7264⟩, ⟨0x10CD, 1, 7264⟩, ⟨0x13A0, 80, 38864⟩,
  ⟨0x13F0, 6, 8⟩, ⟨0x1C90, 43, -3008⟩, ⟨0x1CBD, 3, -3008⟩, ⟨0x1E9E, 1, -7615⟩, ⟨0x1F08, 8, -8⟩,
  ⟨0x1F18, 6, -8⟩, ⟨0x1F28, 8, -8⟩, ⟨0x1F38, 8, -8⟩, ⟨0x1F48, 6, -8⟩, ⟨0x1F59, 1, -8⟩,
  ⟨0x1F5B, 1, -8⟩, ⟨0x1F5D, 1, -8⟩, ⟨0x1F5F, 1, -8⟩, ⟨0x1F68, 8, -8⟩, ⟨0x1F88, 8, -8⟩,
  ⟨0x1F98, 8, -8⟩, ⟨0x1FA8, 8, -8⟩, ⟨0x1FB8, 2, -8⟩, ⟨0x1FBA, 2, -74⟩, ⟨0x1FBC, 1, -9⟩,
  ⟨0x1FC8, 4, -86⟩, ⟨0x1FCC, 1, -9⟩, ⟨0x1FD8, 2, -8⟩, ⟨0x1FDA, 2, -100⟩, ⟨0x1FE8, 2, -8⟩,
  ⟨0x1FEA, 2, -112⟩, ⟨0x1FEC, 1, -7⟩, ⟨0x1FF8, 2, -128⟩, ⟨0x1FFA, 2, -126⟩, ⟨0x1FFC, 1, -9⟩,
  ⟨0x2126, 1, -7517⟩, ⟨0x212A, 1, -8383⟩, ⟨0x212B, 1, -8262⟩, ⟨0x2132, 1, 28⟩, ⟨0x2160, 16, 16⟩,
  ⟨0x24B6, 26, 26⟩, ⟨0x2C00, 48, 48⟩, ⟨0x2C62, 1, -10743⟩, ⟨0x2C63, 1, -3814⟩, ⟨0x2C64, 1, -10727⟩,
  ⟨0x2C6D, 1, -10780⟩, ⟨0x2C6E, 1, -10749⟩, ⟨0x2C6F, 1, -10783⟩, ⟨0x2C70, 1, -10782⟩,
  ⟨0x2C7E, 2, -10815⟩, ⟨0xA77D, 1, -35332⟩, ⟨0xA78D, 1, -42280⟩, ⟨0xA7AA, 1, -42308⟩,
  ⟨0xA7AB, 1, -42319⟩, ⟨0xA7AC, 1, -42315⟩, ⟨0xA7AD, 1, -42305⟩, ⟨0xA7AE, 1, -42308⟩,
  ⟨0xA7B0, 1, -42258⟩, ⟨0xA7B1, 1, -42282⟩, ⟨0xA7B2, 1, -42261⟩, ⟨0xA7B3, 1, 928⟩, ⟨0xA7C4, 1, -48⟩,
  ⟨0xA7C5, 1, -42307⟩, ⟨0xA7C6, 1, -35384⟩, ⟨0xA7CB, 1, -42343⟩, ⟨0xA7DC, 1, -42561⟩,
  ⟨0xFF21, 26, 32⟩, ⟨0x10400, 40, 40⟩, ⟨0x104B0, 36, 40⟩, ⟨0x10570, 11, 39⟩, ⟨0x1057C, 15, 39⟩,
  ⟨0x1058C, 7, 39⟩, ⟨0x10594, 2, 39⟩, ⟨0x10C80, 51, 64⟩, ⟨0x10D50, 22, 32⟩, ⟨0x118A0, 32, 32⟩,
  ⟨0x16E40, 32, 32⟩, ⟨0x16EA0, 25, 27⟩, ⟨0x1E900, 34, 34⟩]

def pairs : List (Nat × Nat) := [
  (0x100, 24), (0x132, 3), (0x139, 8), (0x14A, 23), (0x179, 3), (0x182, 2), (0x187, 1), (0x18B, 1),
  (0x191, 1), (0x198, 1), (0x1A0, 3), (0x1A7, 1), (0x1AC, 1), (0x1AF, 1), (0x1B3, 2), (0x1B8, 1),
  (0x1BC, 1), (0x1C5, 1), (0x1C8, 1), (0x1CB, 9), (0x1DE, 9), (0x1F2, 2), (0x1F8, 20), (0x222, 9),
  (0x23B, 1), (0x241, 1), (0x246, 5), (0x370, 2), (0x376, 1), (0x3D8, 12), (0x3F7, 1), (0x3FA, 1),
  (0x460, 17), (0x48A, 27), (0x4C1, 7), (0x4D0, 48), (0x1C89, 1), (0x1E00, 75), (0x1EA0, 48),
  (0x2183, 1), (0x2C60, 1), (0x2C67, 3), (0x2C72, 1), (0x2C75, 1), (0x2C80, 50), (0x2CEB, 2),
  (0x2CF2, 1), (0xA640, 23), (0xA680, 14), (0xA722, 7), (0xA732, 31), (0xA779, 2), (0xA77E, 5),
  (0xA78B, 1), (0xA790, 2), (0xA796, 10), (0xA7B4, 8), (0xA7C7, 2), (0xA7CC, 8), (0xA7F5, 1)]

/-- Lengths of runs, by turns outside and inside the class. -/
def casedRuns : List Nat := [
  65, 26, 6, 26, 47, 1, 10, 1, 4, 1, 5, 23, 1, 31, 1, 195, 1, 4, 4, 208, 2, 26, 192, 4, 2, 2, 3, 3,
  1, 1, 6, 1, 1, 3, 1, 1, 1, 20, 1, 83, 1, 139, 8, 166, 1, 38, 9, 41, 2839, 38, 1, 1, 5, 1, 2, 43,
  2, 3, 672, 86, 2, 6, 2178, 11, 5, 43, 2, 3, 64, 44, 63, 13, 1, 34, 101, 278, 2, 6, 2, 38, 2, 6, 2,
  8, 1, 1, 1, 1, 1, 1, 1, 31, 2, 53, 1, 7, 1, 1, 3, 3, 1, 7, 3, 4, 2, 6, 4, 13, 5, 3, 1, 7, 261, 1,
  4, 1, 2, 10, 1, 1, 3, 5, 6, 1, 1, 1, 1, 1, 1, 4, 1, 6, 4, 1, 2, 4, 5, 5, 4, 1, 17, 32, 3, 2, 817,
  52, 1814, 124, 2, 103, 6, 4, 3, 2, 12, 38, 1, 1, 5, 1, 30994, 46, 18, 28, 134, 78, 1, 23, 3, 4, 1,
  77, 20, 1, 3, 2, 3, 1, 821, 43, 5, 9, 7, 80, 20288, 7, 12, 5, 1033, 26, 6, 26, 1189, 80, 96, 36,
  4, 36, 116, 11, 1, 15, 1, 7, 1, 2, 1, 11, 1, 15, 1, 7, 1, 2, 1731, 51, 13, 51, 93, 22, 10, 22,
  2842, 64, 21856, 64, 32, 25, 2, 25, 25900, 85, 1, 71, 1, 2, 2, 1, 2, 2, 2, 4, 1, 12, 1, 1, 1, 7,
  1, 65, 1, 4, 2, 8, 1, 7, 1, 28, 1, 4, 1, 5, 1, 1, 3, 7, 1, 340, 2, 25, 1, 25, 1, 31, 1, 25, 1, 31,
  1, 25, 1, 31, 1, 25, 1, 31, 1, 25, 1, 8, 1844, 10, 1, 20, 6, 6, 2517, 68, 2028, 26, 6, 26, 6, 26]

def ignorableRuns : List Nat := [
  39, 1, 6, 1, 11, 1, 35, 1, 1, 1, 71, 1, 4, 1, 1, 1, 4, 1, 2, 2, 503, 192, 4, 2, 4, 1, 9, 2, 1, 1,
  251, 7, 207, 1, 5, 1, 49, 45, 1, 1, 1, 2, 1, 2, 1, 1, 44, 1, 11, 6, 10, 11, 1, 1, 35, 1, 10, 21,
  16, 1, 101, 8, 1, 10, 1, 4, 33, 1, 1, 1, 30, 27, 91, 11, 58, 11, 4, 1, 2, 1, 24, 24, 43, 3, 44, 1,
  7, 2, 5, 9, 41, 58, 55, 1, 1, 1, 4, 8, 4, 1, 3, 7, 10, 2, 13, 1, 15, 1, 58, 1, 4, 4, 8, 1, 20, 2,
  26, 1, 2, 2, 57, 1, 4, 2, 4, 2, 2, 3, 3, 1, 30, 2, 3, 1, 11, 2, 57, 1, 4, 5, 1, 2, 4, 1, 20, 2,
  22, 6, 1, 1, 58, 1, 2, 1, 1, 4, 8, 1, 7, 2, 11, 2, 30, 1, 61, 1, 12, 1, 50, 1, 3, 1, 55, 1, 1, 3,
  5, 3, 1, 4, 7, 2, 11, 2, 29, 1, 58, 1, 2, 1, 6, 1, 5, 2, 20, 2, 28, 2, 57, 2, 4, 4, 8, 1, 20, 2,
  29, 1, 72, 1, 7, 3, 1, 1, 90, 1, 2, 7, 11, 9, 98, 1, 2, 9, 9, 1, 1, 7, 73, 2, 27, 1, 1, 1, 1, 1,
  55, 14, 1, 5, 1, 2, 5, 11, 1, 36, 9, 1, 102, 4, 1, 6, 1, 2, 2, 2, 25, 2, 4, 3, 16, 4, 13, 1, 2, 2,
  6, 1, 15, 1, 94, 1, 608, 3, 946, 3, 29, 2, 30, 2, 30, 2, 64, 2, 1, 7, 8, 1, 2, 11, 3, 1, 5, 1, 45,
  5, 51, 1, 65, 2, 34, 1, 118, 3, 4, 2, 9, 1, 6, 3, 219, 2, 2, 1, 58, 1, 1, 7, 1, 1, 1, 1, 2, 8, 6,
  10, 2, 1, 39, 1, 8, 46, 2, 12, 20, 4, 48, 1, 1, 5, 1, 1, 5, 1, 40, 9, 12, 2, 32, 4, 2, 2, 1, 3,
  56, 1, 1, 2, 3, 1, 1, 3, 58, 8, 2, 2, 64, 6, 82, 3, 1, 13, 1, 7, 4, 1, 6, 1, 3, 2, 50, 63, 13, 1,
  34, 101, 445, 1, 1, 3, 11, 3, 13, 3, 13, 3, 13, 2, 12, 5, 8, 2, 10, 1, 2, 1, 2, 5, 49, 5, 1, 10,
  1, 1, 13, 1, 16, 13, 51, 33, 2955, 2, 113, 3, 125, 1, 15, 1, 96, 32, 47, 1, 469, 1, 36, 4, 3, 5,
  5, 1, 93, 6, 93, 3, 28438, 1, 1250, 6, 270, 1, 98, 4, 1, 10, 1, 1, 28, 4, 80, 2, 14, 34, 78, 1,
  23, 3, 102, 4, 3, 2, 8, 1, 3, 1, 4, 1, 25, 2, 5, 1, 151, 2, 26, 18, 13, 1, 38, 8, 25, 11, 46, 3,
  48, 1, 2, 4, 2, 2, 17, 1, 21, 2, 66, 6, 2, 2, 2, 2, 12, 1, 8, 1, 35, 1, 11, 1, 51, 1, 1, 3, 2, 2,
  5, 2, 1, 1, 27, 1, 14, 2, 5, 2, 1, 1, 100, 5, 9, 3, 121, 1, 2, 1, 4, 1, 20272, 1, 147, 17, 573,
  16, 3, 1, 12, 16, 34, 1, 2, 1, 169, 1, 7, 1, 6, 1, 11, 1, 35, 1, 1, 1, 47, 1, 45, 2, 67, 1, 21, 3,
  513, 1, 226, 1, 149, 5, 1029, 6, 1, 42, 1, 9, 582, 3, 1, 2, 5, 4, 40, 3, 4, 1, 165, 2, 573, 4, 38,
  1, 26, 5, 1, 1, 315, 2, 24, 1, 52, 6, 70, 11, 49, 4, 123, 1, 54, 15, 41, 1, 2, 2, 10, 3, 49, 4, 2,
  2, 2, 1, 4, 1, 10, 1, 50, 3, 36, 5, 1, 8, 62, 1, 12, 2, 52, 9, 10, 4, 2, 1, 95, 3, 2, 1, 1, 2, 6,
  1, 2, 1, 157, 1, 3, 8, 21, 2, 57, 2, 3, 1, 37, 7, 3, 5, 70, 6, 13, 1, 1, 1, 1, 1, 14, 2, 85, 8, 2,
  3, 1, 1, 23, 1, 84, 6, 1, 1, 4, 2, 1, 2, 238, 4, 6, 2, 1, 2, 27, 2, 85, 8, 2, 1, 1, 2, 106, 1, 1,
  1, 2, 6, 1, 1, 101, 1, 1, 1, 2, 4, 1, 5, 259, 9, 1, 2, 256, 2, 1, 1, 4, 1, 144, 4, 2, 2, 4, 1, 32,
  10, 40, 6, 2, 4, 8, 1, 9, 6, 2, 3, 46, 13, 1, 2, 198, 1, 1, 3, 1, 1, 201, 7, 1, 6, 1, 1, 82, 22,
  2, 7, 1, 2, 1, 2, 122, 6, 3, 1, 1, 2, 1, 7, 1, 1, 72, 2, 3, 1, 1, 1, 65, 1, 281, 2, 11, 2, 52, 5,
  5, 1, 1, 1, 23, 1, 5333, 17, 6, 15, 11464, 12, 3, 3, 2496, 5, 59, 7, 9, 4, 508, 3, 40, 2, 482, 1,
  63, 17, 64, 2, 1, 2, 13, 2, 16380, 4, 1, 7, 1, 2, 3230, 2, 1, 4, 4700, 46, 2, 23, 544, 3, 9, 16,
  2, 7, 30, 4, 148, 3, 1979, 55, 4, 50, 8, 1, 14, 1, 22, 5, 1, 15, 1360, 7, 1, 17, 2, 7, 1, 2, 1, 5,
  5, 62, 33, 1, 160, 14, 368, 1, 61, 4, 507, 5, 254, 2, 243, 1, 2, 1, 7, 2, 5, 1, 9, 1, 464, 7, 109,
  8, 2735, 5, 789505, 1, 30, 96, 128, 240]

end Case
end Text
end ProjectLint
