import Mathlib.Algebra.Ring.Int.Defs
import StoredProgram.Proofs.Machine.ControlFlow

/-! # Multiplication by repeated addition

A program for the product of two words, from its source to what its run leaves in the registers. In each round it
adds the first factor to the output and takes one from the second, until none is left. The machine is followed
instruction by instruction (`reaches_direct`, `reaches_immediate`, `reaches_store`), block by block
(`reaches_round`), and over all rounds (`reaches_final`). The run ends with the product just if memory has all the
registers (`run_source_iff`). -/

namespace StoredProgram.Multiplication
open Assembly Machine

/-! ### The program -/

/-- The lines that define the variables of the program. -/
def definitionLines : List Text := ["$define numA".toList, "$define numB".toList, "$define output".toList]

/-- The lines with its instructions. -/
def codeLines : List Text :=
  ["LDA RnumA".toList, "BZE @final".toList, "LDA RnumB".toList, "BZE @final".toList, "@loop: LDA Routput".toList,
    "ADD RnumA".toList, "STR #output".toList, "LDA RnumB".toList, "SUB #1".toList, "STR #numB".toList,
    "BZE @final".toList, "JMP @loop".toList, "@final: HLT".toList]

/-- The source of the program. -/
def source : Text := Text.unlines (definitionLines ++ codeLines)

/-- The words of the program. -/
def words : List Word :=
  [327693, 2883596, 327694, 2883596, 327695, 851981, 524303, 327694, 1048577, 524302, 2883596, 3932164, 0]

/-- The program with its symbols. -/
def assembly : Assembly where
  instructions :=
    [⟨.load, .direct, 13⟩, ⟨.branchIfZero, .immediate, 12⟩, ⟨.load, .direct, 14⟩, ⟨.branchIfZero, .immediate, 12⟩,
      ⟨.load, .direct, 15⟩, ⟨.add, .direct, 13⟩, ⟨.store, .immediate, 15⟩, ⟨.load, .direct, 14⟩,
      ⟨.subtract, .immediate, 1⟩, ⟨.store, .immediate, 14⟩, ⟨.branchIfZero, .immediate, 12⟩, ⟨.jump, .immediate, 4⟩,
      .halt]
  words := words
  labels := ⟨[⟨"loop".toList, 4⟩, ⟨"final".toList, 12⟩], by simp, by simp⟩
  vars := ⟨[⟨"numA".toList, 13⟩, ⟨"numB".toList, 14⟩, ⟨"output".toList, 15⟩], by simp, by simp⟩

theorem isLine : ∀ l ∈ definitionLines ++ codeLines, l.IsLine := by
  have trimmed : ∀ l ∈ definitionLines ++ codeLines, Text.trim l = l ∧ l ≠ [] ∧ '\n' ∉ l := by decide
  intro l hl
  obtain ⟨ht, hne, hn⟩ := trimmed l hl
  exact ⟨ht ▸ Text.isTrimmed_trim l, hne, hn⟩

theorem code_source : code source = codeLines := by
  rw [code, source, Text.lineTexts_unlines isLine]
  decide

theorem declarations_source : declarations source = definitionLines := by
  rw [declarations, source, Text.lineTexts_unlines isLine]
  decide

theorem ofSource_source : ofSource source = .ok assembly := by
  rw [ofSource_eq_ok_iff, code_source, declarations_source]
  exact {
    labelled := by
      simp only [exists_eq_ok_iff_isOk]
      decide
    labels := by rfl
    declared := by
      simp only [exists_eq_ok_iff_isOk]
      decide
    vars := by rfl
    instructions := mapM_eq_ok_iff.mp (by rfl)
    words := mapM_eq_ok_iff.mp (by rfl) }

/-! ### The machine at work -/

/-- The machine at an instruction of the program, with the words of the three variables, those of the registers
    behind them, the accumulator, and the steps that it has taken. -/
def working (a b c : Word) (rest : List Word) (index : Nat) (acc : Word) (n : Nat) : Machine where
  registers := (words ++ a :: b :: c :: rest).toArray
  pc := index
  acc := acc
  steps := UInt64.ofNat n
  programLength := words.length

/-- The machine once it has executed the last instruction. -/
def halted (a b c : Word) (rest : List Word) (acc : Word) (n : Nat) : Machine :=
  { working a b c rest 13 acc n with completed := true }

variable {m : Machine} {a b c x y w : Word} {rest : List Word} {k n : Nat} {op : Operation} {v : Int}

@[simp] theorem apply_accumulate :
    (working a b c rest k x n).apply (.accumulate w) = working a b c rest (k + 1) w (n + 1) := by
  simp [working, Machine.apply]

@[simp] theorem apply_idle : (working a b c rest k x n).apply .idle = working a b c rest (k + 1) x (n + 1) := by
  simp [working, Machine.apply]

@[simp] theorem apply_branch {target : Nat} :
    (working a b c rest k x n).apply (.branch target) = working a b c rest target x (n + 1) := by
  simp [working, Machine.apply]

@[simp] theorem apply_store_numB :
    (working a b c rest k x n).apply (.store 14) = working a x c rest (k + 1) x (n + 1) := by
  simp [working, Machine.apply, Machine.write, words]

@[simp] theorem apply_store_output :
    (working a b c rest k x n).apply (.store 15) = working a b x rest (k + 1) x (n + 1) := by
  simp [working, Machine.apply, Machine.write, words]

theorem apply_halt : (working a b c rest 12 x n).apply .halt = halted a b c rest x (n + 1) := by
  simp [working, halted, Machine.apply]

theorem holds_working : Holds words (working a b c rest k x n) := by
  intro index hlt
  rw [register?_natCast, working, List.getElem?_toArray, List.getElem?_append_left hlt]

@[simp] theorem register?_numA : (working a b c rest k x n).register? 13 = some a := rfl

@[simp] theorem register?_numB : (working a b c rest k x n).register? 14 = some b := rfl

@[simp] theorem register?_output : (working a b c rest k x n).register? 15 = some c := rfl

/-! ### Instructions -/

theorem exists_fetch {i : Instruction} (hi : assembly.instructions[k]? = some i) :
    ∃ w, (working a b c rest k x n).register? k = some w ∧ Instruction.decode w = .ok i := by
  obtain ⟨w, hw, hd⟩ := Instruction.exists_word_of_getElem? (ofSource_eq_ok_iff.mp ofSource_source).words hi
  exact ⟨w, (holds_working k (List.getElem?_eq_some_iff.mp hw).1).trans hw, hd⟩

section Rules

variable (h : Reaches m (working a b c rest k x n))
include h

theorem reaches_immediate (hi : assembly.instructions[k]? = some ⟨op, .immediate, v⟩)
    (hs : ∀ address, op.effect x v ≠ .store address) :
    Reaches m ((working a b c rest k x n).apply (op.effect x v)) := by
  obtain ⟨w, hw, hd⟩ := exists_fetch hi
  exact h.next rfl hw ((effect_eq_ok_iff hd).mpr ⟨v, rfl, rfl, fun address ha => absurd ha (hs address)⟩)

theorem reaches_store (hi : assembly.instructions[k]? = some ⟨.store, .immediate, v⟩)
    (hy : (working a b c rest k x n).register? v = some y) :
    Reaches m ((working a b c rest k x n).apply (.store v)) := by
  obtain ⟨w, hw, hd⟩ := exists_fetch hi
  refine h.next rfl hw ((effect_eq_ok_iff hd).mpr ⟨v, rfl, rfl, fun address ha => ?_⟩)
  cases ha
  exact ⟨y, hy⟩

theorem reaches_direct (hi : assembly.instructions[k]? = some ⟨op, .direct, v⟩)
    (hy : (working a b c rest k x n).register? v = some y) (he : op.effect x y.toInt = .accumulate w) :
    Reaches m (working a b c rest (k + 1) w (n + 1)) := by
  obtain ⟨code, hw, hd⟩ := exists_fetch hi
  have ho : (working a b c rest k x n).operand .direct v = .ok y.toInt :=
    map_eq_ok_iff.mpr ⟨y, read_eq_ok_iff.mpr hy, rfl⟩
  rw [← apply_accumulate]
  exact h.next rfl hw ((effect_eq_ok_iff hd).mpr ⟨y.toInt, ho, he, nofun⟩)

theorem reaches_taken {target : Nat} (hi : assembly.instructions[k]? = some ⟨.branchIfZero, .immediate, target⟩)
    (hx : x = 0) : Reaches m (working a b c rest target x (n + 1)) := by
  have taken : Operation.branchIfZero.effect x target = .branch target := if_pos hx
  have next := reaches_immediate h hi (by rw [taken]; exact nofun)
  rwa [taken, apply_branch] at next

theorem reaches_passed (hi : assembly.instructions[k]? = some ⟨.branchIfZero, .immediate, v⟩) (hx : x ≠ 0) :
    Reaches m (working a b c rest (k + 1) x (n + 1)) := by
  have passed : Operation.branchIfZero.effect x v = .idle := if_neg hx
  have next := reaches_immediate h hi (by rw [passed]; exact nofun)
  rwa [passed, apply_idle] at next

end Rules

/-! ### Blocks -/

theorem reaches_halted (h : Reaches m (working a b c rest 12 x n)) : Reaches m (halted a b c rest x (n + 1)) := by
  have next := reaches_immediate h rfl nofun
  rwa [Operation.effect, apply_halt] at next

/-- A round adds the first factor to the output and takes one from the second. -/
theorem reaches_round : Reaches (working a b c rest 4 x n) (working a (b - 1) (c + a) rest 10 (b - 1) (n + 6)) := by
  have h5 : Reaches (working a b c rest 4 x n) (working a b c rest 5 c (n + 1)) :=
    reaches_direct .refl rfl register?_output Operation.effect_load_toInt
  have h6 : Reaches _ (working a b c rest 6 (c + a) (n + 2)) :=
    reaches_direct h5 rfl register?_numA Operation.effect_add_toInt
  have h7 : Reaches _ (working a b (c + a) rest 7 (c + a) (n + 3)) :=
    apply_store_output ▸ reaches_store h6 rfl register?_output
  have h8 : Reaches _ (working a b (c + a) rest 8 b (n + 4)) :=
    reaches_direct h7 rfl register?_numB Operation.effect_load_toInt
  have h9 : Reaches _ (working a b (c + a) rest 9 (b - 1) (n + 5)) :=
    apply_accumulate ▸ reaches_immediate h8 rfl nofun
  exact apply_store_numB ▸ reaches_store h9 rfl register?_numB

theorem toInt_sub_one (h : 0 < b.toInt) : (b - 1).toInt = b.toInt - 1 := by
  have := Int64.toInt_lt b
  rw [Int64.toInt_sub]
  show (b.toInt - 1).bmod (2 ^ 64) = b.toInt - 1
  exact Int.bmod_eq_of_le (by omega) (by omega)

/-- When the second factor has been counted down, the output has grown by the product. -/
theorem reaches_final (hb : b.toInt = (k + 1 : Nat)) :
    Reaches (working a b c rest 4 x n) (working a 0 (c + a * b) rest 12 0 (n + 8 * k + 7)) := by
  have round : Reaches (working a b c rest 4 x n) (working a (b - 1) (c + a) rest 10 (b - 1) (n + 6)) := reaches_round
  have left : (b - 1).toInt = k := by
    rw [toInt_sub_one (by omega)]
    omega
  -- The sum of the output and what is still to be added does not change.
  induction k generalizing b c x n with
  | zero =>
    have done : b - 1 = 0 := Int64.toInt_inj.mp left
    have product : c + a = c + a * b := by grind
    rw [done, product] at round
    exact reaches_taken round rfl rfl
  | succ k ih =>
    have more : b - 1 ≠ 0 := fun h => by
      rw [h, Int64.toInt_zero] at left
      omega
    have h11 := reaches_passed round rfl more
    have h4 : Reaches _ (working a (b - 1) (c + a) rest 4 (b - 1) (n + 8)) :=
      apply_branch ▸ reaches_immediate h11 rfl nofun
    have sum : c + a + a * (b - 1) = c + a * b := by grind
    have count : n + 8 + 8 * k + 7 = n + 8 * (k + 1) + 7 := by omega
    rw [← sum, ← count]
    exact h4.trans (ih left reaches_round (by rw [toInt_sub_one (by omega)]; omega))

/-- The number of steps that a product takes. -/
def cost (a b : Word) : Nat := if a = 0 then 3 else if b = 0 then 5 else 8 * b.toInt.toNat + 4

theorem exists_reaches_halted (a : Word) (rest : List Word) (h0 : 0 ≤ b.toInt) :
    ∃ x, Reaches (working a b 0 rest 0 0 0) (halted a (if a = 0 then b else 0) (a * b) rest x (cost a b)) := by
  have h1 : Reaches (working a b 0 rest 0 0 0) (working a b 0 rest 1 a 1) :=
    reaches_direct .refl rfl register?_numA Operation.effect_load_toInt
  unfold cost
  by_cases ha : a = 0
  · have product : a * b = 0 := by rw [ha, Int64.zero_mul]
    rw [if_pos ha, if_pos ha, product]
    exact ⟨a, reaches_halted (reaches_taken h1 rfl ha)⟩
  · rw [if_neg ha, if_neg ha]
    have h2 := reaches_passed h1 rfl ha
    have h3 : Reaches _ (working a b 0 rest 3 b 3) := reaches_direct h2 rfl register?_numB Operation.effect_load_toInt
    by_cases hb : b = 0
    · have product : a * b = 0 := by rw [hb, Int64.mul_zero]
      rw [if_pos hb, product]
      have h13 := reaches_halted (reaches_taken h3 rfl hb)
      exact ⟨b, by rwa [hb] at h13 ⊢⟩
    · rw [if_neg hb]
      have pos : b.toInt ≠ 0 := fun h => hb (Int64.toInt_inj.mp h)
      obtain ⟨k, hk⟩ : ∃ k : Nat, b.toInt = (k + 1 : Nat) := ⟨b.toInt.toNat - 1, by omega⟩
      have h4 := (reaches_passed h3 rfl hb).trans (reaches_final hk)
      have h13 := reaches_halted h4
      rw [Int64.zero_add] at h13
      have count : 3 + 1 + 8 * k + 7 + 1 = 8 * b.toInt.toNat + 4 := by omega
      exact ⟨0, count ▸ h13⟩

/-! ### Runs -/

/-- What a run leaves: the product and the first factor, the second one counted down unless the first one is zero,
    and the program. -/
structure Multiplied (ws : List Word) (a b : Word) (s : Machine) : Prop where
  completed : s.completed = true
  output : s.register? 15 = some (Int64.ofInt (a.toInt * b.toInt))
  numA : s.register? 13 = some a
  numB : s.register? 14 = some (if a = 0 then b else 0)
  program : Holds ws s
  pc : s.pc = 13
  steps : s.steps.toNat = cost a b

theorem multiplied_halted (hb : b.toInt < 2 ^ 60) :
    Multiplied words a b (halted a (if a = 0 then b else 0) (a * b) rest x (cost a b)) where
  completed := rfl
  output := by
    rw [Int64.ofInt_mul, Int64.ofInt_toInt, Int64.ofInt_toInt]
    rfl
  numA := rfl
  numB := rfl
  program := holds_working (x := x) (k := 13) (n := cost a b)
  pc := rfl
  steps := by
    have small : cost a b < 2 ^ 64 := by
      unfold cost
      split
      · omega
      · split <;> omega
    exact UInt64.toNat_ofNat'.trans (Nat.mod_eq_of_lt small)

theorem filled_eq_working (a b : Word) (blank : Nat) :
    filled words [a, b, 0] blank = working a b 0 (List.replicate blank 0) 0 0 0 := rfl

/-- The assembled program multiplies any word by a word that is not negative, and not so big that the steps wrap around,
    just if memory has its registers and the blank ones. Otherwise it is not loaded, or the additions have wrapped around
    and the output has no register. -/
theorem run_source_iff (counting : Counting) (a b : Word) (blank : UInt64) (h0 : 0 ≤ b.toInt) (hb : b.toInt < 2 ^ 60) :
    ∃ p, ofSource source = .ok p ∧ p.vars.address? "output".toList = some 15 ∧
      ((∃ m fuel s, load counting p.words [a, b, 0] blank = some m ∧ run fuel m = some { machine := s } ∧
          Multiplied p.words a b s) ↔ 16 + blank.toNat < memoryLimit) := by
  refine ⟨assembly, ofSource_source, by decide, fun h => ?_, fun h => ?_⟩
  · obtain ⟨m, fuel, s, hm, hs, product⟩ := h
    have hr := (exists_run_completed_iff.mp ⟨fuel, hs⟩).1
    have room := (bounds_of_register? product.output).2
    rw [hr.size_eq] at room
    have fits : 16 + blank.toNat < UInt64.size := by
      by_contra wrap
      obtain ⟨-, lost, -⟩ := registers_load_of_wrap hm (Nat.not_lt.mp wrap)
      change m.size < 16 at lost
      omega
    obtain ⟨-, -, there, -⟩ := load_eq_some_iff.mp hm
    exact lt_of_eq_of_lt (Nat.mod_eq_of_lt fits).symm there
  · obtain ⟨x, hx⟩ := exists_reaches_halted a (List.replicate blank.toNat 0) h0
    rw [← filled_eq_working] at hx
    obtain ⟨fuel, hf⟩ := exists_run_completed_iff.mpr ⟨hx, rfl⟩
    have room : words.length + [a, b, 0].length + blank.toNat < memoryLimit := h
    exact ⟨_, fuel, _, load_of_lt room counting, hf, multiplied_halted hb⟩

theorem run_source_iff_three_four : ∃ p, ofSource source = .ok p ∧ ∃ m fuel s,
    load .checked p.words [3, 4, 0] 0 = some m ∧ run fuel m = some { machine := s } ∧ Multiplied p.words 3 4 s := by
  obtain ⟨p, hp, -, h⟩ := run_source_iff .checked 3 4 0 (by decide) (by decide)
  exact ⟨p, hp, h.mpr (by decide)⟩

/-- With so many blank registers, the program is not loaded if additions are checked. If they wrap around, the output has
    no register, and the run fails. -/
theorem run_source_of_wrapped_size : ∃ p, ofSource source = .ok p ∧
    load .checked p.words [3, 4, 0] 18446744073709551615 = none ∧
    ∃ m o, load .wrapping p.words [3, 4, 0] 18446744073709551615 = some m ∧ run 5 m = some o ∧
      o.fault = some (.addressOutside 15 15) :=
  ⟨assembly, ofSource_source, by rfl, { registers := (words ++ [3, 4]).toArray, programLength := 13 }, _, by rfl,
    by rfl, by rfl⟩

end StoredProgram.Multiplication
