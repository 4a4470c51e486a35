import StoredProgram.Proofs.Machine.Fault

/-! # What a step changes

A step that meets no fault counts itself and goes on to the next register. What else it changes belongs to its
operation (`Changes`): a halt the end of the machine, a store the register at its operand, a branch the program
counter, every other operation the accumulator. It is the operation that says so, and not where the operand or the
instruction itself lies: a store may go to the register it is executed from, or to the one that points to its
operand. -/

namespace StoredProgram.Machine

variable {m s : Machine} {op : Operation} {v r : Int} {e : Effect} {w x : Word} {i : Instruction}

/-- The machine with a step counted, at the next register. -/
def next (m : Machine) : Machine := { m with pc := m.pc + 1, steps := m.steps + 1 }

/-- What becomes of a machine when an operation is executed with an operand. -/
def Changes (m : Machine) (v : Int) (s : Machine) : Operation → Prop
  | .halt => s = { m.next with completed := true }
  | .load | .add | .subtract | .and | .or | .xor | .not | .shiftLeft | .shiftRight =>
    ∃ w, s = { m.next with acc := w }
  | .store =>
    (∃ registers, s = { m.next with registers := registers }) ∧ s.register? v = some m.acc ∧
      ∀ address, address ≠ v → s.register? address = m.register? address
  | .branchIfZero | .branchIfNegative | .branchIfPositive | .branchIfNonzero | .jump =>
    s = { m.next with pc := v } ∨ s = m.next

/-- The instruction at the program counter has an operand, and all that changes is what its operation changes with
    it. -/
structure Executes (m s : Machine) (i : Instruction) (v : Int) : Prop where
  fetched : ∃ w, m.register? m.pc = some w ∧ Instruction.decode w = .ok i
  operand : Resolves m i.mode i.value v
  steps : s.steps = m.steps + 1
  counted : m.steps.toNat + 1 < UInt64.size → s.steps.toNat = m.steps.toNat + 1
  programLength : s.programLength = m.programLength
  size : s.size = m.size
  changes : Changes m v s i.operation

/-! ### Operations -/

theorem changes_apply_store {x : Word} (hx : m.register? v = some x) :
    Changes m v (m.apply (.store v)) .store := by
  refine ⟨⟨_, rfl⟩, ?_, fun address ha => register?_apply_store hx ha⟩
  rw [register?_apply_store_eq hx, if_pos rfl]

theorem changes_apply (he : op.effect m.acc v = e)
    (hs : ∀ address, e = .store address → ∃ x, m.register? address = some x) : Changes m v (m.apply e) op := by
  subst he
  cases op with
  | halt => rfl
  | load | add | subtract | and | or | xor | not | shiftLeft | shiftRight => exact ⟨_, rfl⟩
  | store =>
    obtain ⟨x, hx⟩ := hs v rfl
    exact changes_apply_store hx
  | jump => exact Or.inl rfl
  | branchIfZero | branchIfNegative | branchIfPositive | branchIfNonzero =>
    -- Whether a branch is taken depends on the accumulator alone.
    simp only [Operation.effect]
    split
    · exact Or.inl rfl
    · exact Or.inr rfl

theorem Changes.pc_eq (h : Changes m v s op) (hb : op.isBranch = false) : s.pc = m.pc + 1 := by
  cases op with
  | halt => exact congrArg Machine.pc (show s = { m.next with completed := true } from h)
  | load | add | subtract | and | or | xor | not | shiftLeft | shiftRight =>
    obtain ⟨w, rfl⟩ := h
    rfl
  | store =>
    obtain ⟨⟨registers, rfl⟩, -, -⟩ := h
    rfl
  | branchIfZero | branchIfNegative | branchIfPositive | branchIfNonzero | jump => cases hb

/-! ### Steps -/

theorem executes_step (hc : m.completed = false) (hf : m.step.fault = none) :
    ∃ i v, Executes m m.step.machine i v := by
  obtain ⟨w, e, hr, he, hs⟩ := exists_apply_of_step hc hf
  obtain ⟨i, hi⟩ := exists_decode_of_effect_eq_ok he
  obtain ⟨v, hv, he, hst⟩ := (effect_eq_ok_iff hi).mp he
  refine ⟨i, v, ?_⟩
  rw [hs]
  exact {
    fetched := ⟨w, hr, hi⟩
    operand := operand_eq_ok_iff.mp hv
    steps := steps_apply m e
    counted := fun room => by
      show (m.apply e).steps.toNat = _
      rw [steps_apply, UInt64.toNat_add]
      exact Nat.mod_eq_of_lt room
    programLength := programLength_apply m e
    size := size_apply m e
    changes := changes_apply he hst }

/-- A step whose effect is on the accumulator leaves everything else to the next instruction. -/
theorem step_accumulate (hc : m.completed = false) (hw : m.register? m.pc = some w)
    (hd : Instruction.decode w = .ok i) (hr : Resolves m i.mode i.value r)
    (he : i.operation.effect m.acc r = .accumulate x) : m.step = { machine := { m.next with acc := x } } :=
  step_of_ok hc hw ((effect_eq_ok_iff hd).mpr ⟨r, operand_eq_ok_iff.mpr hr, he, nofun⟩)

/-- An operation leaves the row of registers: it is executed by some step after which the program counter is not that of
    the next register. -/
def Leaves (op : Operation) : Prop :=
  ∃ m i v, m.completed = false ∧ m.step.fault = none ∧ Executes m m.step.machine i v ∧ i.operation = op ∧
    m.step.machine.pc ≠ m.pc + 1

theorem Executes.unique {i j : Instruction} {r : Int} {w : Word} (h : Executes m s i v)
    (hw : m.register? m.pc = some w) (hj : Instruction.decode w = .ok j) (hr : Resolves m j.mode j.value r) :
    i = j ∧ v = r := by
  obtain ⟨w', hw', hi⟩ := h.fetched
  cases hw'.symm.trans hw
  cases hi.symm.trans hj
  refine ⟨rfl, ?_⟩
  exact Except.ok.inj ((operand_eq_ok_iff.mpr h.operand).symm.trans (operand_eq_ok_iff.mpr hr))

/-- A branch to the register it is executed from. -/
def loop (op : Operation) (acc : Word) : Machine where
  registers := #[Int64.ofInt (op.code * 262144)]
  acc := acc

theorem leaves_of_loop (acc : Word)
    (hw : Instruction.decode (Int64.ofInt (op.code * 262144)) = .ok ⟨op, .immediate, 0⟩)
    (he : op.effect acc 0 = .branch 0) : Leaves op := by
  have hr : (loop op acc).register? (loop op acc).pc = some (Int64.ofInt (op.code * 262144)) := rfl
  have hs : (loop op acc).step = { machine := (loop op acc).apply (.branch 0) } :=
    step_of_ok rfl hr ((effect_eq_ok_iff hw).mpr ⟨0, rfl, he, nofun⟩)
  have hf : (loop op acc).step.fault = none := by rw [hs]
  obtain ⟨i, v, h⟩ := executes_step rfl hf
  obtain ⟨rfl, -⟩ := h.unique hr hw .immediate
  refine ⟨loop op acc, _, v, rfl, hf, h, rfl, ?_⟩
  rw [hs]
  show (0 : Int) ≠ 0 + 1
  decide

theorem isBranch_iff_leaves : op.isBranch = true ↔ Leaves op := by
  constructor
  · intro hb
    cases op with
    | branchIfZero => exact leaves_of_loop 0 rfl rfl
    | branchIfNegative => exact leaves_of_loop (-1) rfl rfl
    | branchIfPositive => exact leaves_of_loop 1 rfl rfl
    | branchIfNonzero => exact leaves_of_loop 1 rfl rfl
    | jump => exact leaves_of_loop 0 rfl rfl
    | _ => cases hb
  · rintro ⟨m, i, v, -, -, h, rfl, hpc⟩
    by_contra hb
    exact hpc (h.changes.pc_eq (Bool.eq_false_iff.mpr hb))

/-- A step without a fault changes what belongs to the operation of the instruction at the program counter, and nothing
    else but the counter of the steps; and it is the branches that may go elsewhere than to the next register. -/
theorem step_changes (m : Machine) (op : Operation) :
    (m.completed = false → m.step.fault = none → ∃ i v, Executes m m.step.machine i v) ∧
      (op.isBranch = true ↔ Leaves op) :=
  ⟨executes_step, isBranch_iff_leaves⟩

theorem step_changes_store_over_pointer :
    ∃ m : Machine, m.registers = #[589825, 1] ∧ m.completed = false ∧ m.step.fault = none ∧
      Executes m m.step.machine ⟨.store, .direct, 1⟩ 1 ∧ m.step.machine.registers = #[589825, 9] := by
  have runs : ({ registers := #[589825, 1], acc := 9 } : Machine).step.fault = none := by rfl
  obtain ⟨i, v, h⟩ := (step_changes { registers := #[589825, 1], acc := 9 } .store).1 rfl runs
  obtain ⟨rfl, rfl⟩ := h.unique (j := ⟨.store, .direct, 1⟩) rfl rfl (.direct rfl)
  exact ⟨_, rfl, rfl, runs, h, by rfl⟩

end StoredProgram.Machine
