import StoredProgram.Text.CharWidth

/-! # Ligatures

Some scripts write neighbouring letters as one sign, which takes fewer columns than its letters do one by
one. A text is measured from its end to its start, so a ligature is met at its last letter: `Ligature`
says which letter, or which end of a sign, has been met, and `Ligature.extend?` what a character before it
adds. The sets are those of Unicode 15.1. -/

namespace StoredProgram.Text

/-! ### Sets -/

/-- The forms of the Arabic letter alef. -/
def arabicAlef : CharSet :=
  ⟨[(0x622, 0x623), (0x625, 0x625), (0x627, 0x627), (0x671, 0x673), (0x675, 0x675), (0x773, 0x774),
    (0x870, 0x882)]⟩

/-- The forms of the Arabic letter lam. -/
def arabicLam : CharSet :=
  ⟨[(0x644, 0x644), (0x6B5, 0x6B8), (0x76A, 0x76A), (0x8A6, 0x8A6), (0x8C7, 0x8C7)]⟩

/-- Characters without a column that keep Arabic letters on their two sides apart. All others of that width
    leave their joining as it is. -/
def joiningBarrier : CharSet :=
  ⟨[(0x605, 0x605), (0x890, 0x891), (0x8E2, 0x8E2), (0x9BE, 0x9BE), (0x9D7, 0x9D7), (0xB3E, 0xB3E),
    (0xB57, 0xB57), (0xBBE, 0xBBE), (0xBD7, 0xBD7), (0xCC0, 0xCC0), (0xCC2, 0xCC2), (0xCC7, 0xCC8),
    (0xCCA, 0xCCB), (0xCD5, 0xCD6), (0xD3E, 0xD3E), (0xD4E, 0xD4E), (0xD57, 0xD57), (0xDCF, 0xDCF),
    (0xDDF, 0xDDF), (0x1160, 0x11FF), (0x180E, 0x180E), (0x1B35, 0x1B35), (0x1B3B, 0x1B3B),
    (0x1B3D, 0x1B3D), (0x1B43, 0x1B43), (0x200C, 0x200D), (0x2065, 0x2069), (0x302E, 0x302F),
    (0x3164, 0x3164), (0xA8FA, 0xA8FA), (0xD7B0, 0xD7C6), (0xD7CB, 0xD7FB), (0xFF9E, 0xFFA0),
    (0xFFF0, 0xFFF8), (0x111C2, 0x111C3), (0x1133E, 0x1133E), (0x11357, 0x11357), (0x114B0, 0x114B0),
    (0x114BD, 0x114BD), (0x115AF, 0x115AF), (0x11930, 0x11930), (0x1193F, 0x1193F), (0x11941, 0x11941),
    (0x11A3A, 0x11A3A), (0x11A84, 0x11A89), (0x11D46, 0x11D46), (0x11F02, 0x11F02), (0x1D165, 0x1D165),
    (0x1D16E, 0x1D172), (0xE0000, 0xE0000), (0xE0002, 0xE001F), (0xE0080, 0xE00FF), (0xE01F0, 0xE0FFF)]⟩

/-- Khmer letters that can be written below the one before. -/
def khmerConsonant : CharSet :=
  ⟨[(0x1780, 0x1782), (0x1784, 0x1787), (0x1789, 0x178C), (0x178E, 0x1793), (0x1795, 0x1798),
    (0x179B, 0x179D), (0x17A0, 0x17A0), (0x17A2, 0x17A2), (0x17A7, 0x17A7), (0x17AB, 0x17AC),
    (0x17AF, 0x17AF)]⟩

/-- Tifinagh letters. -/
def tifinaghConsonant : CharSet :=
  ⟨[(0x2D31, 0x2D65), (0x2D6F, 0x2D6F)]⟩

/-- Marks that are to be ignored when displayed and do not part the letters of a ligature, the joiner among
    them. -/
def joiningMark : CharSet :=
  ⟨[(0x34F, 0x34F), (0x17B4, 0x17B5), (0x180B, 0x180D), (0x180F, 0x180F), (0x200D, 0x200D),
    (0xFE00, 0xFE0F), (0xE0100, 0xE01EF)]⟩

/-- The character that asks for its two neighbours to be joined. -/
def joiner : Char := '\u200d'

/-! ### Signs -/

/-- What has been met of a ligature, from its end. A flag says whether a joiner stands before the letter. -/
inductive Ligature where
  /-- An Arabic alef, which makes one sign with a lam before it. -/
  | alef
  /-- A Hebrew lamed, which makes one sign with a joined alef. -/
  | lamed (joined : Bool)
  /-- A Khmer consonant, which is written below the letter before if the sign coeng asks for it. -/
  | khmer
  /-- A Buginese ya, to which a vowel and its letter can be joined. -/
  | ya (joined : Bool)
  /-- A Buginese ya with the joined vowel but without the vowel's letter. -/
  | yaVowel
  /-- A Tifinagh letter, which makes one sign with a joined letter. -/
  | tifinagh (joined : Bool)
  /-- A Tifinagh letter after a consonant joiner. -/
  | tifinaghBound
  /-- The second of two Lisu letters for a tone. -/
  | lisuTone
  /-- An Old Turkic letter, which makes one sign with another joined one. -/
  | oldTurkic (joined : Bool)
  deriving DecidableEq

namespace Ligature

/-- The ligature of which a character may be the last letter. -/
def ofChar? (c : Char) : Option Ligature :=
  if arabicAlef.contains c then some alef
  else if c.toNat = 0x5DC then some (lamed false)
  else if khmerConsonant.contains c then some khmer
  else if c.toNat = 0x1A10 then some (ya false)
  else if tifinaghConsonant.contains c then some (tifinagh false)
  else if c.toNat = 0xA4FC ∨ c.toNat = 0xA4FD then some lisuTone
  else if c.toNat = 0x10C03 then some (oldTurkic false)
  else none

/-- A ligature after a joiner has been met before it. -/
def join : Ligature → Ligature
  | lamed _ => lamed true
  | ya _ => ya true
  | tifinagh _ => tifinagh true
  | oldTurkic _ => oldTurkic true
  | l => l

/-- What a character before the met part of a ligature adds to its columns, and what has then been met,
    `none` if the sign is complete. There is no answer if the character does not belong to the sign. -/
def extend? (l : Ligature) (c : Char) : Option (Int × Option Ligature) :=
  if l ≠ alef ∧ joiningMark.contains c then some (0, some (if c = joiner then l.join else l))
  else match l with
    | alef =>
      if arabicLam.contains c then some (0, none)
      else if zeroWidth.contains c && !joiningBarrier.contains c then some (0, some alef)
      else none
    | lamed true => if c.toNat = 0x5D0 then some (0, none) else none
    | khmer => if c.toNat = 0x17D2 then some (-1, none) else none
    | ya true => if c.toNat = 0x1A17 then some (0, some yaVowel) else none
    | yaVowel => if c.toNat = 0x1A15 then some (0, none) else none
    | tifinagh joined =>
      if c.toNat = 0x2D7F then some (1, some tifinaghBound)
      else if joined && tifinaghConsonant.contains c then some (0, none)
      else none
    | tifinaghBound => if tifinaghConsonant.contains c then some (-1, none) else none
    | lisuTone => if 0xA4F8 ≤ c.toNat ∧ c.toNat ≤ 0xA4FB then some (0, none) else none
    | oldTurkic true => if c.toNat = 0x10C32 then some (0, none) else none
    | lamed false | ya false | oldTurkic false => none

end Ligature
end StoredProgram.Text
