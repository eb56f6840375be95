import LuaDocs.Text.Ranges

/-!
# Case tables

The letters whose lower case, title case or folded form differs from the letter, as runs of code
points that move by one distance, and the letters whose form is several letters. The last two tables
list the letters that have case and the marks that case rules look through.
-/

namespace LuaDocs.Text.Case

/-- The code points `first`, `first + stride`, …, `last`, each of which maps to the code point
`shift` places further. -/
structure Run where
  first : Nat
  last : Nat
  /-- Distance between neighbours of the run. -/
  stride : Nat
  /-- Distance to the mapped code point. -/
  shift : Int

/-- The runs whose first code points, lengths, strides and shifts are listed, each first code point
by its distance from the end `n` of the run before. -/
def runsFrom (n : Nat) : List (Nat × Nat × Nat × Int) → List Run
  | [] => []
  | (gap, span, stride, shift) :: rest =>
    ⟨n + gap, n + gap + span, stride, shift⟩ :: runsFrom (n + gap + span) rest

/-- The image of a code point under the first run that it is in. -/
def moved? (runs : List Run) (n : Nat) : Option Nat :=
  (runs.find? fun r => r.first ≤ n && n ≤ r.last && (n - r.first) % r.stride == 0).map
    fun r => ((n : Int) + r.shift).toNat

/-- Letters with a lower case of one letter. -/
def lowerRuns : List Run := runsFrom 0
  [(65, 25, 1, 32), (102, 22, 1, 32), (2, 6, 1, 32), (34, 46, 2, 1), (4, 4, 2, 1), (3, 14, 2, 1),
    (3, 44, 2, 1), (2, 0, 1, -121), (1, 4, 2, 1), (4, 0, 1, 210), (1, 2, 2, 1), (2, 0, 1, 206),
    (1, 0, 1, 1), (2, 1, 1, 205), (1, 0, 1, 1), (3, 0, 1, 79), (1, 0, 1, 202), (1, 0, 1, 203),
    (1, 0, 1, 1), (2, 0, 1, 205), (1, 0, 1, 207), (2, 0, 1, 211), (1, 0, 1, 209), (1, 0, 1, 1),
    (4, 0, 1, 211), (1, 0, 1, 213), (2, 0, 1, 214), (1, 4, 2, 1), (2, 0, 1, 218), (1, 0, 1, 1),
    (2, 0, 1, 218), (3, 0, 1, 1), (2, 0, 1, 218), (1, 0, 1, 1), (2, 1, 1, 217), (1, 2, 2, 1),
    (2, 0, 1, 219), (1, 0, 1, 1), (4, 0, 1, 1), (8, 0, 1, 2), (1, 0, 1, 1), (2, 0, 1, 2),
    (1, 0, 1, 1), (2, 0, 1, 2), (1, 16, 2, 1), (3, 16, 2, 1), (3, 0, 1, 2), (1, 2, 2, 1),
    (2, 0, 1, -97), (1, 0, 1, -56), (1, 38, 2, 1), (2, 0, 1, -130), (2, 16, 2, 1), (8, 0, 1, 10795),
    (1, 0, 1, 1), (2, 0, 1, -163), (1, 0, 1, 10792), (3, 0, 1, 1), (2, 0, 1, -195), (1, 0, 1, 69),
    (1, 0, 1, 71), (1, 8, 2, 1), (290, 2, 2, 1), (4, 0, 1, 1), (9, 0, 1, 116), (7, 0, 1, 38),
    (2, 2, 1, 37), (2, 0, 1, 64), (2, 1, 1, 63), (2, 16, 1, 32), (2, 8, 1, 32), (36, 0, 1, 8),
    (9, 22, 2, 1), (6, 0, 1, -60), (3, 0, 1, 1), (2, 0, 1, -7), (1, 0, 1, 1), (3, 2, 1, -130),
    (1, 15, 1, 80), (1, 31, 1, 32), (49, 32, 2, 1), (10, 52, 2, 1), (2, 0, 1, 15), (1, 12, 2, 1),
    (3, 94, 2, 1), (3, 37, 1, 48), (2890, 37, 1, 7264), (2, 0, 1, 7264), (6, 0, 1, 7264),
    (723, 79, 1, 38864), (1, 5, 1, 8), (2203, 42, 1, -3008), (3, 2, 1, -3008), (321, 148, 2, 1),
    (10, 0, 1, -7615), (2, 94, 2, 1), (10, 7, 1, -8), (9, 5, 1, -8), (11, 7, 1, -8), (9, 7, 1, -8),
    (9, 5, 1, -8), (12, 6, 2, -8), (9, 7, 1, -8), (25, 7, 1, -8), (9, 7, 1, -8), (9, 7, 1, -8),
    (9, 1, 1, -8), (1, 1, 1, -74), (1, 0, 1, -9), (12, 3, 1, -86), (1, 0, 1, -9), (12, 1, 1, -8),
    (1, 1, 1, -100), (13, 1, 1, -8), (1, 1, 1, -112), (1, 0, 1, -7), (12, 1, 1, -128),
    (1, 1, 1, -126), (1, 0, 1, -9), (298, 0, 1, -7517), (4, 0, 1, -8383), (1, 0, 1, -8262),
    (7, 0, 1, 28), (46, 15, 1, 16), (20, 0, 1, 1), (819, 25, 1, 26), (1841, 47, 1, 48),
    (49, 0, 1, 1), (2, 0, 1, -10743), (1, 0, 1, -3814), (1, 0, 1, -10727), (3, 4, 2, 1),
    (2, 0, 1, -10780), (1, 0, 1, -10749), (1, 0, 1, -10783), (1, 0, 1, -10782), (2, 0, 1, 1),
    (3, 0, 1, 1), (9, 1, 1, -10815), (1, 98, 2, 1), (9, 2, 2, 1), (5, 0, 1, 1), (31054, 44, 2, 1),
    (20, 26, 2, 1), (136, 12, 2, 1), (4, 60, 2, 1), (11, 2, 2, 1), (2, 0, 1, -35332), (1, 8, 2, 1),
    (5, 0, 1, 1), (2, 0, 1, -42280), (3, 2, 2, 1), (4, 18, 2, 1), (2, 0, 1, -42308),
    (1, 0, 1, -42319), (1, 0, 1, -42315), (1, 0, 1, -42305), (1, 0, 1, -42308), (2, 0, 1, -42258),
    (1, 0, 1, -42282), (1, 0, 1, -42261), (1, 0, 1, 928), (1, 14, 2, 1), (2, 0, 1, -48),
    (1, 0, 1, -42307), (1, 0, 1, -35384), (1, 2, 2, 1), (7, 0, 1, 1), (6, 2, 2, 1), (29, 0, 1, 1),
    (22316, 25, 1, 32), (1222, 39, 1, 40), (137, 35, 1, 40), (157, 10, 1, 39), (2, 14, 1, 39),
    (2, 6, 1, 39), (2, 1, 1, 39), (1771, 50, 1, 64), (3054, 31, 1, 32), (21889, 31, 1, 32),
    (31393, 33, 1, 34)]

/-- Letters with a lower case of several letters. -/
def lowerExpansions : List (Nat × List Nat) :=
  [(0x130, [0x69, 0x307])]

/-- The run that leads back. -/
def Run.back (r : Run) : Run :=
  ⟨((r.first : Int) + r.shift).toNat, ((r.last : Int) + r.shift).toNat, r.stride, -r.shift⟩

/-- Letters with a title case of one letter: those that lower case leads to, apart from the first
ones here. -/
def titleRuns : List Run := runsFrom 0
  [(181, 0, 1, 743), (124, 0, 1, -232), (78, 0, 1, -300), (69, 0, 1, 1), (2, 0, 1, -1),
    (1, 0, 1, 1), (2, 0, 1, -1), (1, 0, 1, 1), (2, 0, 1, -1), (37, 0, 1, 1), (2, 0, 1, -1),
    (338, 0, 1, 84), (125, 0, 1, -31), (14, 0, 1, -62), (1, 0, 1, -57), (4, 0, 1, -47),
    (1, 0, 1, -54), (26, 0, 1, -86), (1, 0, 1, -80), (4, 0, 1, -96), (3291, 42, 1, 0),
    (3, 2, 1, 0), (2945, 0, 1, -6254), (1, 0, 1, -6253), (1, 0, 1, -6244), (1, 1, 1, -6242),
    (1, 0, 1, -6243), (1, 0, 1, -6236), (1, 0, 1, -6181), (1, 0, 1, 35266), (531, 0, 1, -59),
    (291, 0, 1, -7205)] ++
  lowerRuns.map Run.back

/-- Letters with a title case of several letters. -/
def titleExpansions : List (Nat × List Nat) :=
  [(0xdf, [0x53, 0x73]), (0x149, [0x2bc, 0x4e]), (0x1f0, [0x4a, 0x30c]),
    (0x390, [0x399, 0x308, 0x301]), (0x3b0, [0x3a5, 0x308, 0x301]), (0x587, [0x535, 0x582]),
    (0x1e96, [0x48, 0x331]), (0x1e97, [0x54, 0x308]), (0x1e98, [0x57, 0x30a]),
    (0x1e99, [0x59, 0x30a]), (0x1e9a, [0x41, 0x2be]), (0x1f50, [0x3a5, 0x313]),
    (0x1f52, [0x3a5, 0x313, 0x300]), (0x1f54, [0x3a5, 0x313, 0x301]),
    (0x1f56, [0x3a5, 0x313, 0x342]), (0x1fb2, [0x1fba, 0x345]), (0x1fb4, [0x386, 0x345]),
    (0x1fb6, [0x391, 0x342]), (0x1fb7, [0x391, 0x342, 0x345]), (0x1fc2, [0x1fca, 0x345]),
    (0x1fc4, [0x389, 0x345]), (0x1fc6, [0x397, 0x342]), (0x1fc7, [0x397, 0x342, 0x345]),
    (0x1fd2, [0x399, 0x308, 0x300]), (0x1fd3, [0x399, 0x308, 0x301]), (0x1fd6, [0x399, 0x342]),
    (0x1fd7, [0x399, 0x308, 0x342]), (0x1fe2, [0x3a5, 0x308, 0x300]),
    (0x1fe3, [0x3a5, 0x308, 0x301]), (0x1fe4, [0x3a1, 0x313]), (0x1fe6, [0x3a5, 0x342]),
    (0x1fe7, [0x3a5, 0x308, 0x342]), (0x1ff2, [0x1ffa, 0x345]), (0x1ff4, [0x38f, 0x345]),
    (0x1ff6, [0x3a9, 0x342]), (0x1ff7, [0x3a9, 0x342, 0x345]), (0xfb00, [0x46, 0x66]),
    (0xfb01, [0x46, 0x69]), (0xfb02, [0x46, 0x6c]), (0xfb03, [0x46, 0x66, 0x69]),
    (0xfb04, [0x46, 0x66, 0x6c]), (0xfb05, [0x53, 0x74]), (0xfb06, [0x53, 0x74]),
    (0xfb13, [0x544, 0x576]), (0xfb14, [0x544, 0x565]), (0xfb15, [0x544, 0x56b]),
    (0xfb16, [0x54e, 0x576]), (0xfb17, [0x544, 0x56d])]

/-- Letters with a folded form of one letter, which is the lower case, apart from the first ones
here. -/
def foldRuns : List Run := runsFrom 0
  [(181, 0, 1, 775), (202, 0, 1, -268), (454, 0, 1, 116), (125, 0, 1, 1), (14, 0, 1, -30),
    (1, 0, 1, -25), (4, 0, 1, -15), (1, 0, 1, -22), (26, 0, 1, -54), (1, 0, 1, -48),
    (4, 0, 1, -64), (4011, 85, 1, 0), (3, 5, 1, -8), (2179, 0, 1, -6222), (1, 0, 1, -6221),
    (1, 0, 1, -6212), (1, 1, 1, -6210), (1, 0, 1, -6211), (1, 0, 1, -6204), (1, 0, 1, -6180),
    (1, 0, 1, 35267), (531, 0, 1, -58), (291, 0, 1, -7173), (35762, 79, 1, -38864)] ++
  lowerRuns

/-- Letters with a folded form of several letters: the folded form of the title case, and those in
which a subscript becomes a letter of its own. -/
def foldExpansions : List (Nat × List Nat) :=
  (titleExpansions.map fun e => (e.1, e.2.map fun n => (moved? foldRuns n).getD n)) ++
  [(0x130, [0x69, 0x307]), (0x1e9e, [0x73, 0x73]), (0x1fb3, [0x3b1, 0x3b9]),
    (0x1fbc, [0x3b1, 0x3b9]), (0x1fc3, [0x3b7, 0x3b9]), (0x1fcc, [0x3b7, 0x3b9]),
    (0x1ff3, [0x3c9, 0x3b9]), (0x1ffc, [0x3c9, 0x3b9])] ++
  [(0x1f80, 0x1f00), (0x1f88, 0x1f00), (0x1f90, 0x1f20), (0x1f98, 0x1f20), (0x1fa0, 0x1f60),
    (0x1fa8, 0x1f60)].flatMap fun e => (List.range 8).map fun i => (e.1 + i, [e.2 + i, 0x3b9])

/-- Letters that have case: upper case, lower case or title case. -/
def casedRanges : List (Nat × Nat) := rangesFrom 0
  [65, 25, 7, 25, 48, 0, 11, 0, 5, 0, 6, 22, 2, 30, 2, 194, 2, 3, 5, 207, 2, 35, 8, 1, 31, 4, 97, 0,
    43, 3, 3, 1, 3, 3, 2, 0, 7, 0, 2, 2, 2, 0, 2, 19, 2, 82, 2, 138, 9, 165, 2, 37, 10, 40, 2840,
    37, 2, 0, 6, 0, 3, 42, 3, 2, 673, 85, 3, 5, 2179, 8, 8, 42, 3, 2, 65, 191, 65, 277, 3, 5, 3, 37,
    3, 5, 3, 7, 2, 0, 2, 0, 2, 0, 2, 30, 3, 52, 2, 6, 2, 0, 4, 2, 2, 6, 4, 3, 3, 5, 5, 12, 6, 2, 2,
    6, 117, 0, 14, 0, 17, 12, 102, 0, 5, 0, 3, 9, 2, 0, 4, 4, 7, 0, 2, 0, 2, 0, 2, 3, 2, 5, 5, 0, 3,
    3, 6, 4, 5, 0, 18, 31, 4, 1, 818, 51, 1815, 228, 7, 3, 4, 1, 13, 37, 2, 0, 6, 0, 30995, 45, 19,
    29, 133, 101, 4, 3, 2, 58, 6, 1, 2, 0, 2, 4, 28, 1, 2, 2, 822, 42, 2, 12, 8, 79, 20289, 6, 13,
    4, 1034, 25, 7, 25, 1190, 79, 97, 35, 5, 35, 117, 10, 2, 14, 2, 6, 2, 1, 2, 10, 2, 14, 2, 6, 2,
    1, 452, 0, 3, 2, 2, 41, 2, 8, 1222, 50, 14, 50, 2990, 63, 21857, 63, 25985, 84, 2, 70, 2, 1, 3,
    0, 3, 1, 3, 3, 2, 11, 2, 0, 2, 6, 2, 64, 2, 3, 3, 7, 2, 6, 2, 27, 2, 3, 2, 4, 2, 0, 4, 6, 2,
    339, 3, 24, 2, 24, 2, 30, 2, 24, 2, 30, 2, 24, 2, 30, 2, 24, 2, 30, 2, 24, 2, 7, 1845, 9, 2, 19,
    2530, 67, 2029, 25, 7, 25, 7, 25]

/-- Characters that do not interrupt a word for the rules of case. -/
def ignorableRanges : List (Nat × Nat) := rangesFrom 0
  [39, 0, 7, 0, 12, 0, 36, 0, 2, 0, 72, 0, 5, 0, 2, 0, 5, 0, 3, 1, 504, 191, 5, 1, 5, 0, 10, 1, 2,
    0, 252, 6, 208, 0, 6, 0, 50, 44, 2, 0, 2, 1, 2, 1, 2, 0, 45, 0, 12, 5, 11, 10, 2, 0, 36, 0, 11,
    20, 17, 0, 102, 7, 2, 9, 2, 3, 34, 0, 2, 0, 31, 26, 92, 10, 59, 10, 5, 0, 3, 0, 25, 23, 44, 2,
    45, 0, 8, 1, 7, 7, 42, 57, 56, 0, 2, 0, 5, 7, 5, 0, 4, 6, 11, 1, 14, 0, 16, 0, 59, 0, 5, 3, 9,
    0, 21, 1, 27, 0, 3, 1, 58, 0, 5, 1, 5, 1, 3, 2, 4, 0, 31, 1, 4, 0, 12, 1, 58, 0, 5, 4, 2, 1, 5,
    0, 21, 1, 23, 5, 2, 0, 59, 0, 3, 0, 2, 3, 9, 0, 8, 1, 12, 1, 31, 0, 62, 0, 13, 0, 51, 0, 4, 0,
    56, 0, 2, 2, 6, 2, 2, 3, 8, 1, 12, 1, 30, 0, 59, 0, 3, 0, 7, 0, 6, 1, 21, 1, 29, 1, 58, 1, 5, 3,
    9, 0, 21, 1, 30, 0, 73, 0, 8, 2, 2, 0, 91, 0, 3, 6, 12, 8, 99, 0, 3, 8, 10, 0, 2, 5, 75, 1, 28,
    0, 2, 0, 2, 0, 56, 13, 2, 4, 2, 1, 6, 10, 2, 35, 10, 0, 103, 3, 2, 5, 2, 1, 3, 1, 26, 1, 5, 2,
    17, 3, 14, 0, 3, 1, 7, 0, 16, 0, 95, 0, 609, 2, 947, 2, 30, 1, 31, 1, 31, 1, 65, 1, 2, 6, 9, 0,
    3, 10, 4, 0, 6, 0, 46, 4, 52, 0, 66, 1, 35, 0, 119, 2, 5, 1, 10, 0, 7, 2, 220, 1, 3, 0, 59, 0,
    2, 6, 2, 0, 2, 0, 3, 7, 7, 9, 3, 0, 40, 0, 9, 30, 50, 3, 49, 0, 2, 4, 2, 0, 6, 0, 41, 8, 13, 1,
    33, 3, 3, 1, 2, 2, 57, 0, 2, 1, 4, 0, 2, 2, 59, 7, 3, 1, 65, 5, 83, 2, 2, 12, 2, 6, 5, 0, 7, 0,
    4, 1, 51, 62, 14, 0, 35, 100, 446, 0, 2, 2, 12, 2, 14, 2, 14, 2, 14, 1, 13, 4, 9, 1, 11, 0, 3,
    0, 3, 4, 50, 4, 2, 9, 2, 0, 14, 0, 17, 12, 52, 32, 2956, 1, 114, 2, 126, 0, 16, 0, 97, 31, 48,
    0, 470, 0, 37, 3, 4, 4, 6, 0, 94, 5, 94, 2, 28439, 0, 1251, 5, 271, 0, 99, 3, 2, 9, 2, 0, 29, 3,
    81, 1, 15, 33, 79, 0, 24, 2, 104, 2, 4, 1, 9, 0, 4, 0, 5, 0, 26, 1, 6, 0, 152, 1, 27, 17, 14, 0,
    39, 7, 26, 10, 47, 2, 49, 0, 3, 3, 3, 1, 18, 0, 22, 1, 67, 5, 3, 1, 3, 1, 13, 0, 9, 0, 36, 0,
    12, 0, 52, 0, 2, 2, 3, 1, 6, 1, 2, 0, 28, 0, 15, 1, 6, 1, 2, 0, 101, 4, 10, 2, 122, 0, 3, 0, 5,
    0, 20273, 0, 148, 16, 574, 15, 4, 0, 13, 15, 35, 0, 3, 0, 170, 0, 8, 0, 7, 0, 12, 0, 36, 0, 2,
    0, 48, 0, 46, 1, 68, 0, 22, 2, 514, 0, 227, 0, 150, 4, 1030, 5, 2, 41, 2, 8, 583, 2, 2, 1, 6, 3,
    41, 2, 5, 0, 166, 1, 574, 3, 388, 1, 154, 10, 50, 3, 124, 0, 55, 14, 42, 0, 3, 1, 11, 2, 50, 3,
    3, 1, 3, 0, 5, 0, 11, 0, 51, 2, 37, 4, 2, 7, 63, 0, 13, 1, 53, 8, 11, 3, 3, 0, 96, 2, 3, 0, 2,
    1, 7, 0, 161, 0, 4, 7, 22, 1, 58, 1, 4, 0, 38, 6, 4, 4, 196, 7, 3, 2, 2, 0, 24, 0, 85, 5, 2, 0,
    5, 1, 2, 1, 239, 3, 7, 1, 2, 1, 28, 1, 86, 7, 3, 0, 2, 1, 107, 0, 2, 0, 3, 5, 2, 0, 102, 2, 3,
    3, 2, 4, 260, 8, 2, 1, 257, 1, 2, 0, 5, 0, 145, 3, 3, 1, 5, 0, 33, 9, 41, 5, 3, 3, 9, 0, 10, 5,
    3, 2, 47, 12, 2, 1, 407, 6, 2, 5, 2, 0, 83, 21, 3, 6, 2, 1, 2, 1, 123, 5, 4, 0, 2, 1, 2, 6, 2,
    0, 73, 1, 4, 0, 2, 0, 348, 1, 5436, 8, 14008, 4, 60, 6, 10, 3, 1036, 0, 64, 16, 65, 1, 2, 1,
    16396, 3, 2, 6, 2, 1, 3231, 1, 2, 3, 4701, 45, 3, 22, 545, 2, 10, 15, 3, 6, 31, 3, 149, 2, 1980,
    54, 5, 49, 9, 0, 15, 0, 23, 4, 2, 14, 1361, 6, 2, 16, 3, 6, 2, 1, 2, 4, 262, 13, 369, 0, 62, 3,
    1505, 6, 110, 7, 2736, 4, 789506, 0, 31, 95, 129, 239]

end LuaDocs.Text.Case
