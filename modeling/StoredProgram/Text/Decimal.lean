import StoredProgram.Text.Basic
import StoredProgram.Word

/-! # Decimal numbers

Numbers are written without leading zeros and with a minus sign if they are negative. Reading accepts
more: leading zeros and, where a sign may stand, a plus sign. A digit is one of the ten ASCII digits. -/

namespace StoredProgram.Text

/-- The digits of a natural number. -/
def ofNat (n : Nat) : Text := Nat.toDigits 10 n

/-- The digits of an integer, after a minus sign if it is negative. -/
def ofInt : Int → Text
  | .ofNat n => ofNat n
  | .negSucc n => '-' :: ofNat (n + 1)

/-- The number that a text of one or more digits denotes. -/
def natural? (t : Text) : Option Nat :=
  if !t.isEmpty && t.all Char.isDigit then some (Nat.ofDigitChars 10 t 0) else none

theorem natural?_ofNat (n : Nat) : natural? (ofNat n) = some n := by
  have digits : (ofNat n).all Char.isDigit = true :=
    List.all_eq_true.mpr fun _ h => Nat.isDigit_of_mem_toDigits (by decide) (by decide) h
  have nonempty : (ofNat n).isEmpty = false := by simp [ofNat, Nat.toDigits_ne_nil]
  simp only [natural?, digits, nonempty, Bool.not_false, Bool.and_self, if_true]
  exact congrArg some (Nat.ofDigitChars_toDigits (by decide) (by decide))

/-- The number that digits denote, after an optional plus sign. -/
def unsigned? : Text → Option Nat
  | '+' :: t => natural? t
  | t => natural? t

/-- The number that digits denote, after an optional sign. -/
def integer? : Text → Option Int
  | '-' :: t => (natural? t).map fun n => -(n : Int)
  | '+' :: t => (natural? t).map Int.ofNat
  | t => (natural? t).map Int.ofNat

theorem integer?_of_isDigit {c : Char} (h : c.isDigit = true) (t : Text) :
    integer? (c :: t) = (natural? (c :: t)).map Int.ofNat := by
  unfold integer?
  split
  next he => cases he; exact absurd h (by decide)
  next he => cases he; exact absurd h (by decide)
  next => rfl

/-- Reading undoes writing. -/
theorem integer?_ofInt (n : Int) : integer? (ofInt n) = some n := by
  cases n with
  | ofNat n =>
    have digits : ∀ c ∈ ofNat n, c.isDigit = true := fun _ h =>
      Nat.isDigit_of_mem_toDigits (by decide) (by decide) h
    have read := natural?_ofNat n
    rw [ofInt]
    cases ht : ofNat n with
    | nil => rw [ht] at read; cases read
    | cons c t =>
      rw [ht] at digits read
      rw [integer?_of_isDigit (digits c (by simp)), read]; rfl
  | negSucc n => simp [ofInt, integer?, natural?_ofNat]; omega

/-- The word that a text denotes, if it denotes an integer that a word holds. -/
def word? (t : Text) : Option Word := (integer? t).bind Word.ofInt?

theorem word?_ofInt (w : Word) : word? (ofInt w.toInt) = some w := by
  rw [word?, integer?_ofInt]
  exact Word.ofInt?_eq_some_iff.mpr rfl

/-- The count that a text denotes, if it denotes a number of 64 bits. -/
def count? (t : Text) : Option UInt64 :=
  (unsigned? t).bind fun n => if n < UInt64.size then some (UInt64.ofNat n) else none

end StoredProgram.Text
