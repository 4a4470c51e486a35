import StoredProgram.Text.Basic

/-! # Addressing modes

A mode says how the value of an instruction becomes its operand: as it stands, as the address of the
register that holds the operand, or as the address of a register that holds that address. In assembly the
mode is written in front of the value. -/

namespace StoredProgram

/-- How many registers stand between the value of an instruction and its operand. -/
inductive Mode where
  | immediate
  | direct
  | indirect
  deriving DecidableEq

namespace Mode

/-- All modes in the order of their codes, each one step more indirect than the one before. -/
def all : List Mode := [immediate, direct, indirect]

/-- The code of a mode in an encoded word. -/
def code (m : Mode) : Nat := all.idxOf m

/-- The mode with a given code. -/
def ofCode? (n : Nat) : Option Mode := all[n]?

theorem ofCode?_code (m : Mode) : ofCode? m.code = some m := by cases m <;> rfl

/-- How a mode is written. -/
def sigil : Mode → Text
  | immediate => "#".toList
  | direct => "R".toList
  | indirect => "RR".toList

/-- The mode that is written as the whole text. -/
def ofSigil? (t : Text) : Option Mode := all.find? (·.sigil == t)

/-- The mode with one more register in between. -/
def deeper? : Mode → Option Mode
  | immediate => some direct
  | direct => some indirect
  | indirect => none

/-- The mode with one register less in between. -/
def shallower? : Mode → Option Mode
  | immediate => none
  | direct => some immediate
  | indirect => some direct

/-- Takes the mode off the front of an operand; two letters `R` are always the indirect mode. -/
def split? : Text → Option (Mode × Text)
  | '#' :: t => some (immediate, t)
  | 'R' :: 'R' :: t => some (indirect, t)
  | 'R' :: t => some (direct, t)
  | _ => none

/-- A mode is read back if it is not the direct one before a letter `R`. -/
theorem split?_append {m : Mode} {t : Text} (h : m = direct → t.head? ≠ some 'R') :
    split? (m.sigil ++ t) = some (m, t) := by
  cases m with
  | immediate => rfl
  | indirect => rfl
  | direct =>
    cases t with
    | nil => rfl
    | cons c t =>
      have hc : c ≠ 'R' := by simpa using h rfl
      show split? ('R' :: c :: t) = _
      unfold split?
      split
      next he => cases he
      next he => cases he; exact absurd rfl hc
      next he => cases he; rfl
      next _ hn => exact absurd rfl (hn (c :: t))

end Mode
end StoredProgram
