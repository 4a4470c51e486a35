import Mathlib.Data.Rat.Floor
import StoredProgram.Proofs.Machine.Change

/-! # Shifts as scaling

A shift scales the accumulator by a power of two. The exponent is the amount of a shift to the left, and the negated
amount of a shift to the right. What is below the point is rounded down, and what is beyond the width is dropped, as it
is of a sum (`Word.scales_shift`). There is no exception for large amounts: nothing is left of a word that has gone past
its width to the left, and past it to the right every word has come to the floor of a fraction. -/

namespace StoredProgram

namespace Word

variable {n : Nat}

/-- A word is another one times a power of two, rounded down and reduced to the width of a word. -/
def Scales (x : Word) (exponent : Int) (y : Word) : Prop :=
  y.toInt = ⌊(x.toInt : ℚ) * 2 ^ exponent⌋.bmod Int64.size

/-! ### Less than the width -/

/-- An amount below the width is not reduced. -/
theorem toNat_smod_width (h : n < width) : ((Int64.ofNat n).toBitVec.smod 64).toNat = n := by
  have small : n < 64 := h
  have same : (BitVec.ofNat 64 n).toNat = n := by
    rw [BitVec.toNat_ofNat]
    omega
  have positive : (BitVec.ofNat 64 n).msb = false := by
    rw [BitVec.msb_eq_false_iff_two_mul_lt, same]
    omega
  have positive' : (64 : BitVec 64).msb = false := by decide
  rw [Int64.toBitVec_ofNat', BitVec.smod_eq, positive, positive']
  show (BitVec.ofNat 64 n % 64).toNat = n
  rw [BitVec.toNat_umod, same]
  exact Nat.mod_eq_of_lt small

theorem toInt_shiftLeft_of_lt (h : n < width) (x : Word) :
    (x <<< Int64.ofNat n).toInt = (x.toInt * 2 ^ n).bmod Int64.size := by
  have size : Int64.size = 2 ^ 64 := by decide
  rw [size, ← Int64.toInt_toBitVec, ← Int64.toInt_toBitVec, Int64.toBitVec_shiftLeft, BitVec.shiftLeft_eq',
    toNat_smod_width h, BitVec.toInt_shiftLeft, Nat.shiftLeft_eq, BitVec.toInt_eq_toNat_bmod x.toBitVec,
    Int.bmod_mul_bmod]
  push_cast
  rfl

theorem toInt_shiftRight_of_lt (h : n < width) (x : Word) : (x >>> Int64.ofNat n).toInt = x.toInt / 2 ^ n := by
  rw [← Int64.toInt_toBitVec, Int64.toBitVec_shiftRight, BitVec.toInt_sshiftRight', toNat_smod_width h,
    Int.shiftRight_eq_div_pow, Int64.toInt_toBitVec]
  push_cast
  rfl

/-! ### Any amount -/

theorem toInt_shiftLeft (x : Word) (n : Nat) : (shiftLeft x n).toInt = (x.toInt * 2 ^ n).bmod Int64.size := by
  unfold shiftLeft
  split
  · rename_i h
    exact toInt_shiftLeft_of_lt h x
  · rename_i h
    have beyond : (2 : Int) ^ 64 ∣ 2 ^ n := pow_dvd_pow 2 (Nat.le_of_not_lt h)
    exact (Int.bmod_eq_zero_of_dvd (Dvd.dvd.mul_left beyond _)).symm

theorem toInt_shiftRight (x : Word) (n : Nat) : (shiftRight x n).toInt = x.toInt / 2 ^ n := by
  unfold shiftRight
  split
  · rename_i h
    exact toInt_shiftRight_of_lt h x
  · rename_i h
    have beyond : (2 : Int) ^ 63 < 2 ^ n := pow_lt_pow_right₀ (by decide) (Nat.le_of_not_lt h)
    have low := Int64.le_toInt x
    have high := Int64.toInt_lt x
    split
    · rename_i hneg
      have negative : x.toInt < 0 := Int64.lt_iff_toInt_lt.mp hneg
      exact (Int.ediv_eq_neg_one_of_neg_of_le negative (by omega)).symm
    · rename_i hneg
      have positive : 0 ≤ x.toInt := Int.not_lt.mp fun h => hneg (Int64.lt_iff_toInt_lt.mpr h)
      exact (Int.ediv_eq_zero_of_lt positive (by omega)).symm

/-- A shift scales by a power of two, to the left and, with a negative exponent, to the right. -/
theorem scales_shift (x : Word) (exponent : Int) : Scales x exponent (shift x exponent) := by
  unfold Scales
  cases exponent with
  | ofNat n =>
    have whole : (x.toInt : ℚ) * 2 ^ (Int.ofNat n) = ((x.toInt * 2 ^ n : Int) : ℚ) := by
      push_cast
      rfl
    rw [whole, Int.floor_intCast]
    exact toInt_shiftLeft x n
  | negSucc n =>
    have fraction : (x.toInt : ℚ) * 2 ^ Int.negSucc n = (x.toInt : ℚ) / ((2 ^ (n + 1) : Nat) : ℚ) := by
      rw [zpow_negSucc, div_eq_mul_inv]
      push_cast
      rfl
    have shifted := toInt_shiftRight x (n + 1)
    rw [fraction, Rat.floor_intCast_div_natCast]
    push_cast
    rw [← shifted, Int64.toInt_bmod_size]
    rfl

end Word

/-! ### Operations and steps -/

namespace Machine

open Word

variable {m : Machine} {op : Operation} {mode : Mode} {w : Word} {v r exponent : Int}

theorem effect_shiftLeft (x : Word) (r : Int) :
    ∃ y, Operation.shiftLeft.effect x r = .accumulate y ∧ Scales x r y :=
  ⟨_, rfl, scales_shift x r⟩

theorem effect_shiftRight (x : Word) (r : Int) :
    ∃ y, Operation.shiftRight.effect x r = .accumulate y ∧ Scales x (-r) y :=
  ⟨_, rfl, scales_shift x (-r)⟩

theorem step_of_scales (hc : m.completed = false) (hw : m.register? m.pc = some w)
    (hd : Instruction.decode w = .ok ⟨op, mode, v⟩) (hr : Resolves m mode v r)
    (he : ∃ y, op.effect m.acc r = .accumulate y ∧ Scales m.acc exponent y) :
    ∃ y, m.step = { machine := { m.next with acc := y } } ∧ Scales m.acc exponent y := by
  obtain ⟨y, he, hy⟩ := he
  exact ⟨y, step_accumulate hc hw hd hr he, hy⟩

/-- A shift to the left scales every accumulator by the power of two of its amount, and a shift to the right by that of
    the negated amount, whatever the amount is. So each of them is the other one by the negated amount, if there is such
    a word. A step that executes a shift changes the accumulator accordingly. -/
theorem step_scales :
    (∀ x s : Word, ∃ y, Operation.shiftLeft.effect x s.toInt = .accumulate y ∧ Scales x s.toInt y) ∧
    (∀ x s : Word, ∃ y, Operation.shiftRight.effect x s.toInt = .accumulate y ∧ Scales x (-s.toInt) y) ∧
    (∀ x s t : Word, t.toInt = -s.toInt →
      Operation.shiftLeft.effect x s.toInt = Operation.shiftRight.effect x t.toInt) ∧
    ∀ (m : Machine) (w : Word) (mode : Mode) (v r : Int), m.completed = false → m.register? m.pc = some w →
      Resolves m mode v r →
      (Instruction.decode w = .ok ⟨.shiftLeft, mode, v⟩ →
        ∃ y, m.step = { machine := { m.next with acc := y } } ∧ Scales m.acc r y) ∧
      (Instruction.decode w = .ok ⟨.shiftRight, mode, v⟩ →
        ∃ y, m.step = { machine := { m.next with acc := y } } ∧ Scales m.acc (-r) y) := by
  refine ⟨fun x s => effect_shiftLeft x s.toInt, fun x s => effect_shiftRight x s.toInt, ?_, ?_⟩
  · intro x s t h
    have back : -t.toInt = s.toInt := by omega
    rw [Operation.effect, Operation.effect, back]
  · intro m w mode v r hc hw hr
    exact ⟨fun hd => step_of_scales hc hw hd hr (effect_shiftLeft m.acc r),
      fun hd => step_of_scales hc hw hd hr (effect_shiftRight m.acc r)⟩

/-- Shifting by the least word, and shifting to the right by minus three. -/
theorem step_scales_least_amount :
    (({ registers := #[2424833, Int64.minValue], acc := -5 } : Machine).step.machine.acc = -1 ∧
      Scales (-5) Int64.minValue.toInt (-1)) ∧
    Operation.shiftLeft.effect (-5) (3 : Word).toInt = Operation.shiftRight.effect (-5) (-3 : Word).toInt := by
  obtain ⟨-, -, mirrored, steps⟩ := step_scales
  have reads : Resolves { registers := #[2424833, Int64.minValue], acc := -5 } .direct 1 Int64.minValue.toInt :=
    .direct rfl
  have last : ({ registers := #[2424833, Int64.minValue], acc := -5 } : Machine).step.machine.acc = -1 := by
    decide +kernel
  obtain ⟨y, hs, hy⟩ := (steps _ 2424833 .direct 1 _ rfl rfl reads).1 rfl
  have result : y = -1 := (congrArg (fun o => o.machine.acc) hs).symm.trans last
  exact ⟨⟨last, result ▸ hy⟩, mirrored (-5) 3 (-3) (by decide)⟩

end Machine
end StoredProgram
