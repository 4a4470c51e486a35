import Mathlib.Algebra.Order.Ring.Int
import Mathlib.Tactic.Common
import StoredProgram.Layout

/-! # Fields as digits of a word

Division towards zero splits every integer into its digits by position, and a negative one into the negated digits of
its opposite. So the fields of a word are told without division: they make up the word, none of them has the opposite
sign, and the mode and the value are within their widths (`unpack_eq_iff`). The fields that are packed have all of this,
so that unpacking finds them again (`Fits.unpack_number`). They fill their widths at most, so that there is no carry
from one to the next (`natAbs_digit_lt`). -/

namespace StoredProgram

/-! ### Division towards zero -/

/-- A part of a number is zero or has its sign. -/
def IsPart (c w : Int) : Prop := c = 0 ∨ c.sign = w.sign

section Division

variable {c d w q r : Int} {b n : Nat}

theorem isPart_iff : IsPart c w ↔ (0 ≤ w → 0 ≤ c) ∧ (w ≤ 0 → c ≤ 0) := by
  unfold IsPart
  rcases Int.lt_trichotomy w 0 with hw | rfl | hw
  · rw [Int.sign_eq_neg_one_of_neg hw, Int.sign_eq_neg_one_iff_neg]
    omega
  · rw [Int.sign_zero, Int.sign_eq_zero_iff_zero]
    omega
  · rw [Int.sign_eq_one_of_pos hw, Int.sign_eq_one_iff_pos]
    omega

theorem IsPart.trans (h : IsPart c d) (h' : IsPart d w) : IsPart c w := by
  rw [isPart_iff] at h h' ⊢
  omega

theorem isPart_tdiv (w : Int) (n : Nat) : IsPart (w.tdiv n) w := by
  have sign := Int.sign_tdiv w n
  split at sign
  · exact Or.inl (Int.sign_eq_zero_iff_zero.mp sign)
  · cases n with
    | zero => exact Or.inl (Int.tdiv_zero w)
    | succ n => exact Or.inr (sign.trans (Int.mul_one _))

theorem isPart_tmod (w n : Int) : IsPart (w.tmod n) w := by
  have sign := Int.sign_tmod w n
  split at sign
  · exact Or.inl (Int.sign_eq_zero_iff_zero.mp sign)
  · exact Or.inr sign

theorem isPart_of_le (h0 : 0 ≤ c) (hc : c ≤ w) : IsPart c w := by
  rw [isPart_iff]
  omega

/-- Parts of one number do not cancel each other out. -/
theorem IsPart.add_mul (hq : IsPart q w) (hr : IsPart r w) (n : Nat) :
    IsPart (q * n + r) w ∧ IsPart r (q * n + r) := by
  have unit := Int.natCast_nonneg n
  simp only [isPart_iff] at hq hr ⊢
  rcases Int.lt_trichotomy w 0 with hw | rfl | hw
  · have low := Int.mul_nonpos_of_nonpos_of_nonneg (hq.2 (by omega)) unit
    omega
  · have zero : q = 0 := by omega
    rw [zero, Int.zero_mul]
    omega
  · have high := Int.mul_nonneg (hq.1 (by omega)) unit
    omega

/-- A quotient and a remainder are told by the number they make up, if the remainder is a part of it that is below the
    divisor. -/
theorem tdiv_tmod_eq (sum : q * n + r = w) (part : IsPart r w) (low : r.natAbs < n) :
    w.tdiv n = q ∧ w.tmod n = r := by
  have divisor : (n : Int) ≠ 0 := by omega
  have width : (n : Int).natAbs = n := Int.natAbs_natCast n
  rw [isPart_iff] at part
  rcases Int.le_total 0 w with hw | hw
  · refine (Int.tdiv_tmod_unique hw divisor).mpr ⟨?_, part.1 hw, by omega⟩
    rw [Int.mul_comm, Int.add_comm, sum]
  · refine (Int.tdiv_tmod_unique' hw divisor).mpr ⟨?_, by omega, part.2 hw⟩
    rw [Int.mul_comm, Int.add_comm, sum]

/-- Two digits below their bases stay below the product of the bases. -/
theorem natAbs_digit_lt (hq : q.natAbs < b) (hr : r.natAbs < n) : (q * n + r).natAbs < b * n :=
  calc (q * n + r).natAbs
    _ ≤ (q * n).natAbs + r.natAbs := Int.natAbs_add_le ..
    _ = q.natAbs * n + r.natAbs := by rw [Int.natAbs_mul, Int.natAbs_natCast]
    _ < q.natAbs * n + n := Nat.add_lt_add_left hr _
    _ = (q.natAbs + 1) * n := (Nat.succ_mul ..).symm
    _ ≤ b * n := Nat.mul_le_mul_right n hq

end Division

namespace Layout

variable {l : Layout} {f g : Fields} {w : Int} {e : PackError}

/-! ### Units -/

theorem modeUnit_eq (l : Layout) : l.modeUnit = (1 <<< l.valueBits : Nat) := rfl

theorem opcodeUnit_eq (l : Layout) : l.opcodeUnit = (1 <<< l.modeBits * 1 <<< l.valueBits : Nat) := by
  unfold opcodeUnit
  rw [Nat.one_shiftLeft, Nat.one_shiftLeft, Nat.one_shiftLeft, Nat.pow_add, Nat.mul_comm]

theorem wordLimit_eq (l : Layout) :
    l.wordLimit = (1 <<< l.opcodeBits * (1 <<< l.modeBits * 1 <<< l.valueBits) : Nat) := by
  unfold wordLimit totalBits
  rw [Nat.one_shiftLeft, Nat.one_shiftLeft, Nat.one_shiftLeft, Nat.one_shiftLeft, Nat.pow_add, Nat.pow_add,
    Nat.mul_assoc]

theorem standard_opcodeUnit : standard.opcodeUnit = 262144 := rfl

theorem standard_modeUnit : standard.modeUnit = 65536 := rfl

theorem standard_valueLimit : standard.valueLimit = 65536 := rfl

/-! ### Unpacking -/

/-- The number that fields make up by position. -/
def number (l : Layout) (f : Fields) : Int := f.opcode * l.opcodeUnit + f.mode * l.modeUnit + f.value

/-- Fields make up a number, each of them is a part of it, and the mode and the value are within their widths. -/
structure Splits (l : Layout) (w : Int) (f : Fields) : Prop where
  sum : l.number f = w
  opcode : IsPart f.opcode w
  mode : IsPart f.mode w
  value : IsPart f.value w
  mode_lt : f.mode.natAbs < 1 <<< l.modeBits
  value_lt : f.value.natAbs < 1 <<< l.valueBits

theorem number_eq (l : Layout) (f : Fields) :
    l.number f = f.opcode * (1 <<< l.modeBits * 1 <<< l.valueBits : Nat) +
      (f.mode * (1 <<< l.valueBits : Nat) + f.value) := by
  unfold number
  rw [opcodeUnit_eq, modeUnit_eq, Int.add_assoc]

/-- The digits above the value do not reach into it. -/
theorem tmod_opcodeUnit_tmod (l : Layout) (w : Int) : (w.tmod l.opcodeUnit).tmod l.modeUnit = w.tmod l.modeUnit := by
  rw [opcodeUnit_eq, Int.natCast_mul]
  exact Int.tmod_tmod_of_dvd w (Int.dvd_mul_left ..)

theorem splits_unpack (l : Layout) (w : Int) : l.Splits w (l.unpack w) where
  sum := by
    unfold number unpack
    simp only
    rw [← tmod_opcodeUnit_tmod, Int.add_assoc, Int.tdiv_mul_add_tmod, Int.tdiv_mul_add_tmod]
  opcode := isPart_tdiv w _
  mode := (isPart_tdiv _ _).trans (isPart_tmod w _)
  value := isPart_tmod w _
  mode_lt := by
    unfold unpack
    rw [opcodeUnit_eq, modeUnit_eq, Int.natAbs_tdiv, Int.natAbs_tmod, Int.natAbs_natCast, Int.natAbs_natCast]
    refine Nat.div_lt_of_lt_mul ?_
    rw [Nat.mul_comm]
    exact Nat.mod_lt _ (Nat.mul_pos (Nat.pos_of_neZero _) (Nat.pos_of_neZero _))
  value_lt := by
    unfold unpack
    rw [modeUnit_eq, Int.natAbs_tmod, Int.natAbs_natCast]
    exact Nat.mod_lt _ (Nat.pos_of_neZero _)

/-- Unpacking finds the only fields that split a number. -/
theorem unpack_eq_iff : l.unpack w = f ↔ l.Splits w f := by
  refine ⟨fun h => h ▸ splits_unpack l w, fun h => ?_⟩
  have sum := h.sum
  rw [number_eq] at sum
  -- The word is divided by the unit of the opcode, and what remains is the number that the lower two fields make up.
  have ⟨below, digit⟩ := h.mode.add_mul h.value (1 <<< l.valueBits)
  obtain ⟨opcode, rest⟩ := tdiv_tmod_eq sum below (natAbs_digit_lt h.mode_lt h.value_lt)
  obtain ⟨mode, value⟩ := tdiv_tmod_eq rfl digit h.value_lt
  unfold unpack
  rw [← tmod_opcodeUnit_tmod, opcodeUnit_eq, modeUnit_eq, opcode, rest, mode, value]

/-! ### Packing -/

theorem pack_eq_ok_iff : l.pack f = .ok w ↔ (0 ≤ f.value ∧ f.value < l.valueLimit) ∧ l.number f = w := by
  unfold pack
  split
  · rename_i negative
    exact ⟨fun h => (nomatch h), fun h => absurd negative (by omega)⟩
  · split
    · rename_i beyond
      exact ⟨fun h => (nomatch h), fun h => absurd beyond (by omega)⟩
    · rename_i nonneg below
      rw [Except.ok.injEq]
      exact ⟨fun h => ⟨⟨by omega, by omega⟩, h⟩, fun h => h.2⟩

theorem pack_eq_error_iff :
    l.pack f = .error e ↔
      (f.value < 0 ∧ e = .negative f.value) ∨ (l.valueLimit ≤ f.value ∧ e = .overflow f.value l.valueLimit) := by
  have limit : 0 ≤ l.valueLimit := Int.natCast_nonneg _
  unfold pack
  split
  · rename_i negative
    have small : ¬l.valueLimit ≤ f.value := by omega
    simp [negative, small, eq_comm]
  · rename_i nonneg
    split
    · rename_i beyond
      simp [nonneg, beyond, eq_comm]
    · rename_i below
      simp [nonneg, below]

/-- Fields fit a layout if they are natural numbers within their widths. -/
structure Fits (l : Layout) (f : Fields) : Prop where
  opcode : 0 ≤ f.opcode ∧ f.opcode < (1 <<< l.opcodeBits : Nat)
  mode : 0 ≤ f.mode ∧ f.mode < (1 <<< l.modeBits : Nat)
  value : 0 ≤ f.value ∧ f.value < l.valueLimit

namespace Fits

variable (h : l.Fits f)
include h

theorem pack_eq : l.pack f = .ok (l.number f) := pack_eq_ok_iff.mpr ⟨h.value, rfl⟩

/-- No field is greater than the number, as no unit is zero. -/
theorem le_number : f.opcode ≤ l.number f ∧ f.mode ≤ l.number f ∧ f.value ≤ l.number f := by
  have unit : 0 < 1 <<< l.valueBits := Nat.pos_of_neZero _
  have units : 0 < 1 <<< l.modeBits * 1 <<< l.valueBits := Nat.mul_pos (Nat.pos_of_neZero _) unit
  have high := le_mul_of_one_le_right h.opcode.1 (Int.ofNat_le.mpr units)
  have middle := le_mul_of_one_le_right h.mode.1 (Int.ofNat_le.mpr unit)
  obtain ⟨⟨opcode, -⟩, ⟨mode, -⟩, ⟨value, -⟩⟩ := h
  rw [number_eq]
  omega

theorem number_nonneg : 0 ≤ l.number f := Int.le_trans h.value.1 h.le_number.2.2

theorem splits : l.Splits (l.number f) f := by
  obtain ⟨opcode, mode, value⟩ := h.le_number
  have limit : l.valueLimit = (1 <<< l.valueBits : Nat) := rfl
  obtain ⟨⟨opcode0, -⟩, ⟨mode0, modeLt⟩, ⟨value0, valueLt⟩⟩ := h
  refine ⟨rfl, isPart_of_le opcode0 opcode, isPart_of_le mode0 mode, isPart_of_le value0 value, ?_, ?_⟩
  · omega
  · omega

theorem unpack_number : l.unpack (l.number f) = f := unpack_eq_iff.mpr h.splits

/-- Different fields are packed into different words. -/
theorem eq_of_pack_eq (hg : l.Fits g) (same : l.pack f = l.pack g) : f = g := by
  rw [h.pack_eq, hg.pack_eq, Except.ok.injEq] at same
  calc f
    _ = l.unpack (l.number f) := h.unpack_number.symm
    _ = l.unpack (l.number g) := by rw [same]
    _ = g := hg.unpack_number

theorem number_lt : l.number f < l.wordLimit := by
  have opcode : f.opcode.natAbs < 1 <<< l.opcodeBits := by
    have opcode := h.opcode
    omega
  have bound := natAbs_digit_lt opcode (natAbs_digit_lt h.splits.mode_lt h.splits.value_lt)
  rw [← number_eq] at bound
  rw [wordLimit_eq]
  omega

end Fits

/-! ### The standard layout -/

theorem standard_number (f : Fields) :
    standard.number f = f.opcode * 262144 + f.mode * 65536 + f.value := rfl

theorem standard_splits_iff :
    standard.Splits w f ↔
      f.opcode * 262144 + f.mode * 65536 + f.value = w ∧
        (IsPart f.opcode w ∧ IsPart f.mode w ∧ IsPart f.value w) ∧ f.mode.natAbs ≤ 3 ∧ f.value.natAbs < 65536 := by
  constructor
  · rintro ⟨sum, opcode, mode, value, mode_lt, value_lt⟩
    exact ⟨sum, ⟨opcode, mode, value⟩, Nat.le_of_lt_succ mode_lt, value_lt⟩
  · rintro ⟨sum, ⟨opcode, mode, value⟩, mode_le, value_lt⟩
    exact ⟨sum, opcode, mode, value, Nat.lt_succ_of_le mode_le, value_lt⟩

theorem standard_fits_iff :
    standard.Fits f ↔
      (0 ≤ f.opcode ∧ f.opcode ≤ 15) ∧ (0 ≤ f.mode ∧ f.mode ≤ 3) ∧ 0 ≤ f.value ∧ f.value < 65536 := by
  constructor
  · rintro ⟨⟨opcode, opcode_lt⟩, ⟨mode, mode_lt⟩, value⟩
    exact ⟨⟨opcode, Int.le_of_lt_add_one opcode_lt⟩, ⟨mode, Int.le_of_lt_add_one mode_lt⟩, value⟩
  · rintro ⟨⟨opcode, opcode_le⟩, ⟨mode, mode_le⟩, value⟩
    exact ⟨⟨opcode, Int.lt_add_one_of_le opcode_le⟩, ⟨mode, Int.lt_add_one_of_le mode_le⟩, value⟩

/-- Fields that fit the standard layout have a word, and unpacking finds them in it. -/
theorem exists_word_of_fits (h : standard.Fits f) :
    ∃ w : Word, standard.pack f = .ok w.toInt ∧ (0 ≤ w.toInt ∧ w.toInt < 4194304) ∧ standard.unpack w.toInt = f := by
  have limit : standard.number f < 4194304 := h.number_lt
  have nonneg := h.number_nonneg
  have held : (Int64.ofInt (standard.number f)).toInt = standard.number f :=
    Int64.toInt_ofInt_of_le (by omega) (by omega)
  refine ⟨Int64.ofInt (standard.number f), ?_⟩
  rw [held]
  exact ⟨h.pack_eq, ⟨nonneg, limit⟩, h.unpack_number⟩

/-- Every word, also a negative one or one beyond the encoded words, is split into the only three numbers that make it
    up by position, have its sign unless they are zero, and are within the widths of the mode and the value. Fields that
    fit are packed into an encoded word, which is split into them again, and different ones into different words. -/
theorem standard_unpack_lossless :
    (∀ (w : Word) (f : Fields), standard.unpack w.toInt = f ↔
      f.opcode * 262144 + f.mode * 65536 + f.value = w.toInt ∧
        ((f.opcode = 0 ∨ f.opcode.sign = w.toInt.sign) ∧ (f.mode = 0 ∨ f.mode.sign = w.toInt.sign) ∧
          (f.value = 0 ∨ f.value.sign = w.toInt.sign)) ∧
        f.mode.natAbs ≤ 3 ∧ f.value.natAbs < 65536) ∧
    (∀ f, standard.Fits f ↔
      (0 ≤ f.opcode ∧ f.opcode ≤ 15) ∧ (0 ≤ f.mode ∧ f.mode ≤ 3) ∧ 0 ≤ f.value ∧ f.value < 65536) ∧
    (∀ f, standard.Fits f → ∃ w : Word, standard.pack f = .ok w.toInt ∧ (0 ≤ w.toInt ∧ w.toInt < 4194304) ∧
      standard.unpack w.toInt = f) ∧
    ∀ f g, standard.Fits f → standard.Fits g → f ≠ g → standard.pack f ≠ standard.pack g :=
  ⟨fun _ _ => unpack_eq_iff.trans standard_splits_iff, fun _ => standard_fits_iff, fun _ => exists_word_of_fits,
    fun _ _ hf hg distinct same => distinct (hf.eq_of_pack_eq hg same)⟩

/-- A negative word with three negative fields, the largest fields of all, and two words next to each other. -/
theorem standard_unpack_lossless_limits :
    standard.unpack (-1507335 : Word).toInt = ⟨-5, -3, -7⟩ ∧
      (∃ w : Word, standard.pack ⟨15, 3, 65535⟩ = .ok w.toInt ∧ (0 ≤ w.toInt ∧ w.toInt < 4194304) ∧
        standard.unpack w.toInt = ⟨15, 3, 65535⟩) ∧
      standard.pack ⟨3, 0, 65535⟩ ≠ standard.pack ⟨3, 1, 0⟩ := by
  obtain ⟨splits, fits, word, distinct⟩ := standard_unpack_lossless
  refine ⟨(splits (-1507335) ⟨-5, -3, -7⟩).mpr (by decide), word ⟨15, 3, 65535⟩ ((fits _).mpr (by decide)), ?_⟩
  exact distinct ⟨3, 0, 65535⟩ ⟨3, 1, 0⟩ ((fits _).mpr (by decide)) ((fits _).mpr (by decide)) (by decide)

end Layout
end StoredProgram
