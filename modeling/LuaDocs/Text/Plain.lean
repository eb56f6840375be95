import LuaDocs.Text.Split

/-!
# Plain spellings

Accented letters, letters in special styles, ligatures and symbols made of letters and digits have
a plain spelling: what is left of their compatibility decomposition when only ASCII is kept. Three
tables give the spellings of whole alphabets, of neighbouring characters and of single ones.
-/

namespace LuaDocs.Text

/-- Alphabets: the first code point, the number of characters, and the first of the ASCII characters
that are their plain spellings. -/
def plainAlphabets : List (Nat × Nat × Char) :=
  [(0xff01, 94, '!'), (0x24b6, 26, 'A'), (0x24d0, 26, 'a'), (0x1f130, 26, 'A'),
    (0x1fbf0, 10, '0')] ++
  ((List.range 13).flatMap fun i => [(0x1d400 + 52 * i, 26, 'A'), (0x1d41a + 52 * i, 26, 'a')]) ++
  (List.range 5).map fun i => (0x1d7ce + 10 * i, 10, '0')

/-- Code points in the alphabets that are no characters. -/
def alphabetGaps : List Nat :=
  [0x1d455, 0x1d49d, 0x1d4a0, 0x1d4a1, 0x1d4a3, 0x1d4a4, 0x1d4a7, 0x1d4a8, 0x1d4ad, 0x1d4ba,
    0x1d4bc, 0x1d4c4, 0x1d506, 0x1d50b, 0x1d50c, 0x1d515, 0x1d51d, 0x1d53a, 0x1d53f, 0x1d545,
    0x1d547, 0x1d548, 0x1d549, 0x1d551]

/-- Plain spellings of neighbouring characters from a code point on, with blanks between them. -/
def plainBlocks : List (Nat × String) :=
  [(0xaa, "a        2 3      1 o  14 12 34  A A A A A A  C E E E E I I I I  N O O O O O   U U " ++
      "U U Y   a a a a a a  c e e e e i i i i  n o o o o o   u u u u y  y A a A a A a C c C c " ++
      "C c C c D d   E e E e E e E e E e G g G g G g G g H h   I i I i I i I i I  IJ ij J j K " ++
      "k  L l L l L l L l   N n N n N n n   O o O o O o   R r R r R r S s S s S s S s T t T t  " ++
      " U u U u U u U u U u U u W w Y y Y Z z Z z Z z s"),
   (0x1c4, "DZ Dz dz LJ Lj lj NJ Nj nj A a I i O o U u U u U u U u U u  A a A a     G g K k O " ++
      "o O o   j DZ Dz dz G g   N n A a     A a A a E e E e I i I i O o O o R r R r U u U u S " ++
      "s T t   H h       A a E e O o O o O o O o Y y"),
   (0x1e00, "A a B b B b B b C c D d D d D d D d D d E e E e E e E e E e F f G g H h H h H h H " ++
      "h H h I i I i K k K k K k L l L l L l L l M m M m M m N n N n N n N n O o O o O o O o P " ++
      "p P p R r R r R r R r S s S s S s S s S s T t T t T t T t U u U u U u U u U u V v V v W " ++
      "w W w W w W w W w X x X x Y y Z z Z z Z z h t w y a s     A a A a A a A a A a A a A a A " ++
      "a A a A a A a A a E e E e E e E e E e E e E e E e I i I i O o O o O o O o O o O o O o O " ++
      "o O o O o O o O o U u U u U u U u U u U u U u Y y Y y Y y Y y"),
   (0x2024, ". .. ..."),
   (0x2047, "?? ?! !?"),
   (0x2070, "0 i   4 5 6 7 8 9 +  = ( ) n 0 1 2 3 4 5 6 7 8 9 +  = ( )  a e o x  h k l m n p s " ++
      "t"),
   (0x2100, "a/c a/s C C  c/o c/u   F g H H H h  I I L l  N No   P Q R R R   SM TEL TM  Z    Z " ++
      " K A B C  e E F  M o     i  FAX          D d e i j       17 19 110 13 23 15 25 35 45 16 " ++
      "56 18 38 58 78 1 I II III IV V VI VII VIII IX X XI XII L C D M i ii iii iv v vi vii " ++
      "viii ix x xi xii l c d m          03"),
   (0x2460, "1 2 3 4 5 6 7 8 9 10 11 12 13 14 15 16 17 18 19 20 (1) (2) (3) (4) (5) (6) (7) " ++
      "(8) (9) (10) (11) (12) (13) (14) (15) (16) (17) (18) (19) (20) 1. 2. 3. 4. 5. 6. 7. 8. " ++
      "9. 10. 11. 12. 13. 14. 15. 16. 17. 18. 19. 20. (a) (b) (c) (d) (e) (f) (g) (h) (i) (j) " ++
      "(k) (l) (m) (n) (o) (p) (q) (r) (s) (t) (u) (v) (w) (x) (y) (z)"),
   (0x2a74, "::= == ==="),
   (0x3200, "() () () () () () () () () () () () () () () () () () () () () () () () () () () " ++
      "() () () ()  () () () () () () () () () () () () () () () () () () () () () () () () () " ++
      "() () () () () () () () () () ()"),
   (0x3250, "PTE 21 22 23 24 25 26 27 28 29 30 31 32 33 34 35"),
   (0x32b1, "36 37 38 39 40 41 42 43 44 45 46 47 48 49 50 1 2 3 4 5 6 7 8 9 10 11 12 Hg erg eV " ++
      "LTD"),
   (0x3358, "0 1 2 3 4 5 6 7 8 9 10 11 12 13 14 15 16 17 18 19 20 21 22 23 24 hPa da AU bar oV " ++
      "pc dm dm2 dm3 IU      pA nA A mA kA KB MB GB cal kcal pF nF F g mg kg Hz kHz MHz GHz " ++
      "THz l ml dl kl fm nm m mm cm km mm2 cm2 m2 km2 mm3 cm3 m3 km3 ms ms2 Pa kPa MPa GPa rad " ++
      "rads rads2 ps ns s ms pV nV V mV kV MV pW nW W mW kW MW k M a.m. Bq cc cd Ckg Co. dB Gy " ++
      "ha HP in KK KM kt lm ln log lx mb mil mol PH p.m. PPM PR sr Sv Wb Vm Am 1 2 3 4 5 6 7 8 " ++
      "9 10 11 12 13 14 15 16 17 18 19 20 21 22 23 24 25 26 27 28 29 30 31 gal"),
   (0xfb00, "ff fi fl ffi ffl st st"),
   (0xfe30, "..   _ _ ( ) \x7b \x7d"),
   (0xfe47, "[ ]     _ _ _ ,  .  ; : ? !  ( ) \x7b \x7d   # & * + - < > =  \\ $ % @"),
   (0x1f100, "0. 0, 1, 2, 3, 4, 5, 6, 7, 8, 9,      (A) (B) (C) (D) (E) (F) (G) (H) (I) (J) " ++
      "(K) (L) (M) (N) (O) (P) (Q) (R) (S) (T) (U) (V) (W) (X) (Y) (Z) S C R CD WZ"),
   (0x1f14a, "HV MV SD SS PPV WC"),
   (0x1f16a, "MC MD MR")]

/-- Plain spellings, each with the characters that have it. -/
def plainRows : List (String × String) :=
  [(" ", "\u00a0¨¯´¸˘˙˚˛˜˝ͺ΄΅᾽᾿῀῁῍῎῏῝῞῟῭΅´῾\u2000\u2001\u2002\u2003\u2004\u2005\u2006\u2007" ++
      "\u2008\u2009\u200a\u2017\u202f\u203e\u205f\u3000゛゜\ufc5e\ufc5f\ufc60\ufc61\ufc62\ufc63" ++
      "\ufdfb\ufe49\ufe4a\ufe4b\ufe4c\ufe70\ufe72\ufe74\ufe76\ufe78\ufe7a\ufe7c\ufe7e￣"),
   ("O", "Ơᴼ"), ("o", "ơᵒ"), ("U", "Ưᵁ"), ("u", "ưᵘᵤ"), ("h", "ʰ"), ("j", "ʲⱼ"), ("r", "ʳᵣ"),
   ("w", "ʷ"), ("y", "ʸ"), ("l", "ˡ"), ("s", "ˢ"), ("x", "ˣ"), (";", "\u037e\ufe14"), ("A", "ᴬ"),
   ("B", "ᴮ"), ("D", "ᴰ"), ("E", "ᴱ"), ("G", "ᴳ"), ("H", "ᴴ"), ("I", "ᴵ"), ("J", "ᴶ"), ("K", "ᴷ"),
   ("L", "ᴸ"), ("M", "ᴹ"), ("N", "ᴺ"), ("P", "ᴾ"), ("R", "ᴿ"), ("T", "ᵀ"), ("W", "ᵂ"), ("a", "ᵃ"),
   ("b", "ᵇ"), ("d", "ᵈ"), ("e", "ᵉ"), ("g", "ᵍ"), ("k", "ᵏ"), ("m", "ᵐ"), ("p", "ᵖ"), ("t", "ᵗ"),
   ("v", "ᵛᵥ"), ("i", "ᵢ"), ("c", "ᶜ"), ("f", "ᶠ"), ("z", "ᶻ"), ("`", "`"), ("!!", "\u203c"),
   ("Rs", "₨"), ("=", "≠"), ("<", "≮"), (">", "≯"), ("0", "⓪"), ("V", "ⱽ"), ("C", "ꟲ"), ("F", "ꟳ"),
   ("Q", "ꟴ"), ("+", "\ufb29"), ("   ", "\ufdfa"), (",", "\ufe10"), (":", "\ufe13"),
   ("!", "\ufe15"), ("?", "\ufe16"), ("...", "\ufe19"), ("q", "𐞥"), ("DJ", "🆐")]

/-- The plain spelling of a character in an alphabet. -/
def alphabetSpelling? (n : Nat) : Option (List Char) :=
  if alphabetGaps.contains n then none
  else (plainAlphabets.find? fun a => a.1 ≤ n && n < a.1 + a.2.1).map fun a =>
    [Char.ofNat (a.2.2.toNat + (n - a.1))]

/-- The plain spelling of a character in a block. -/
def blockSpelling? (n : Nat) : Option (List Char) :=
  plainBlocks.findSome? fun b =>
    if b.1 ≤ n then (splitAt ' ' b.2.toList)[n - b.1]? else none

/-- The plain spelling of a character: itself for ASCII, and nothing for a character that has
none. -/
def plainSpelling (c : Char) : List Char :=
  if c.toNat < 128 then [c]
  else match plainRows.find? fun row => row.2.contains c with
    | some row => row.1.toList
    | none => ((alphabetSpelling? c.toNat).or (blockSpelling? c.toNat)).getD []

end LuaDocs.Text
