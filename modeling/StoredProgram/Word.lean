/-! # Machine words

Registers, the accumulator and encoded instructions are words: signed integers of 64 bits. Arithmetic
and bitwise operations are those of `Int64`, so sums and differences wrap around. A shift by any amount
has a meaning, also by a negative one or by more than the width of a word. -/

namespace StoredProgram

/-- A machine word is a signed integer of 64 bits. -/
abbrev Word := Int64

namespace Word

/-- The number of bits of a word. -/
def width : Nat := 64

/-- The word of an integer, if a word holds it. -/
def ofInt? (n : Int) : Option Word :=
  if Int64.minValue.toInt ≤ n ∧ n ≤ Int64.maxValue.toInt then some (Int64.ofInt n) else none

theorem ofInt?_eq_some_iff {n : Int} {w : Word} : ofInt? n = some w ↔ w.toInt = n := by
  unfold ofInt?
  constructor
  · intro h
    split at h
    next hn =>
      cases h
      exact Int64.toInt_ofInt_of_le hn.1 (Int.lt_of_le_of_lt hn.2 (by decide))
    next => cases h
  · rintro rfl
    rw [if_pos ⟨Int64.minValue_le_toInt w, Int64.toInt_le w⟩, Int64.ofInt_toInt]

/-! ### Shifts -/

/-- Shifting left fills with zeros, so a shift by the width or more leaves nothing. -/
def shiftLeft (x : Word) (n : Nat) : Word :=
  if n < width then x <<< Int64.ofNat n else 0

/-- Shifting right fills with the sign, so a shift by the width or more leaves only the sign. -/
def shiftRight (x : Word) (n : Nat) : Word :=
  if n < width then x >>> Int64.ofNat n else if x < 0 then -1 else 0

/-- A shift by a signed amount goes left, and by a negative amount it goes right. -/
def shift (x : Word) : Int → Word
  | .ofNat n => shiftLeft x n
  | .negSucc n => shiftRight x (n + 1)

end Word
end StoredProgram
