import StoredProgram.Machine.Step
import StoredProgram.Proofs.Except

/-! # What a step does

A step ends in one of four ways: nothing happens to a completed machine, the program counter is outside, the
word fetched has no effect but a fault, or its effect takes place (`step_of_completed`, `step_of_outside`,
`step_of_error`, `step_of_ok`). When the word is an instruction, its effect takes place if the operand is found, and
the register of a store (`effect_eq_ok_iff`). -/

namespace StoredProgram

/-! ### Effects of operations -/

namespace Operation

variable {op : Operation} {acc : Word} {v address : Int}

theorem effect_eq_halt_iff : op.effect acc v = .halt ↔ op = .halt := by
  cases op <;> simp only [effect] <;> (try split) <;> simp

theorem effect_eq_store_iff : op.effect acc v = .store address ↔ op = .store ∧ v = address := by
  cases op <;> simp only [effect] <;> (try split) <;> simp

theorem of_effect_eq_branch (h : op.effect acc v = .branch address) : op.isBranch = true ∧ v = address := by
  cases op <;> simp only [effect] at h <;> (try split at h) <;> simp_all [isBranch]

theorem effect_load_toInt {x : Word} : load.effect acc x.toInt = .accumulate x := by
  rw [effect, Int64.ofInt_toInt]

theorem effect_add_toInt {x : Word} : add.effect acc x.toInt = .accumulate (acc + x) := by
  rw [effect, Int64.ofInt_toInt]

end Operation

namespace Machine

variable {m : Machine} {mode : Mode} {v address : Int} {w : Word} {e : Effect} {f : Fault} {i : Instruction}

/-! ### Data accesses -/

theorem bounds_of_register? (h : m.register? address = some w) : 0 ≤ address ∧ address < m.size := by
  have here : m.register? address ≠ none := by simp [h]
  rw [Ne, register?_eq_none_iff] at here
  omega

theorem read_eq_ok_iff : m.read address = .ok w ↔ m.register? address = some w := by
  unfold read
  cases m.register? address <;> simp

theorem of_read_eq_error (h : m.read address = .error f) : f = .addressOutside address m.size := by
  unfold read at h
  cases hr : m.register? address with
  | none =>
    rw [hr] at h
    exact (Except.error.inj h).symm
  | some w =>
    rw [hr] at h
    cases h

/-- What is left to do for the effect of an operation: a store looks up its register. -/
def lookUp (m : Machine) (e : Effect) : Except Fault Effect :=
  match e with
  | .store address => (m.read address).map fun _ => .store address
  | e => .ok e

theorem effect_of_decode (hi : Instruction.decode w = .ok i) :
    m.effect w = m.operand i.mode i.value >>= fun v => m.lookUp (i.operation.effect m.acc v) := by
  unfold effect
  rw [hi]
  rfl

theorem lookUp_eq_ok_iff {e' : Effect} :
    m.lookUp e = .ok e' ↔ e = e' ∧ ∀ address, e = .store address → ∃ x, m.register? address = some x := by
  cases e with
  | store address =>
    simp only [lookUp, map_eq_ok_iff, read_eq_ok_iff, Effect.store.injEq, forall_eq']
    exact ⟨fun ⟨x, hx, h⟩ => ⟨h, x, hx⟩, fun ⟨h, x, hx⟩ => ⟨x, hx, h⟩⟩
  | halt => simp [lookUp]
  | accumulate w => simp [lookUp]
  | branch address => simp [lookUp]
  | idle => simp [lookUp]

/-- An instruction takes effect once its operand is found, and a store once its register is. -/
theorem effect_eq_ok_iff (hi : Instruction.decode w = .ok i) :
    m.effect w = .ok e ↔ ∃ v, m.operand i.mode i.value = .ok v ∧ i.operation.effect m.acc v = e ∧
      ∀ address, e = .store address → ∃ x, m.register? address = some x := by
  rw [effect_of_decode hi, bind_eq_ok_iff]
  simp only [lookUp_eq_ok_iff]
  refine ⟨fun h => ?_, fun h => ?_⟩
  · obtain ⟨v, hv, rfl, hs⟩ := h
    exact ⟨v, hv, rfl, hs⟩
  · obtain ⟨v, hv, rfl, hs⟩ := h
    exact ⟨v, hv, rfl, hs⟩

theorem exists_decode_of_effect_eq_ok (h : m.effect w = .ok e) : ∃ i, Instruction.decode w = .ok i := by
  cases hd : Instruction.decode w with
  | ok i => exact ⟨i, rfl⟩
  | error e' =>
    unfold effect at h
    rw [hd] at h
    cases h

theorem exists_register?_of_effect_eq_store (h : m.effect w = .ok (.store address)) :
    ∃ x, m.register? address = some x := by
  obtain ⟨i, hi⟩ := exists_decode_of_effect_eq_ok h
  obtain ⟨-, -, -, hs⟩ := (effect_eq_ok_iff hi).mp h
  exact hs address rfl

/-! ### Taking effect -/

theorem completed_apply : (m.apply e).completed = true ↔ e = .halt ∨ m.completed = true := by
  cases e <;> simp [apply, write]

theorem pc_apply : (m.apply e).pc = match e with | .branch address => address | _ => m.pc + 1 := by
  cases e <;> rfl

theorem steps_apply (m : Machine) (e : Effect) : (m.apply e).steps = m.steps + 1 := by
  cases e <;> rfl

theorem programLength_apply (m : Machine) (e : Effect) : (m.apply e).programLength = m.programLength := by
  cases e <;> rfl

theorem register?_apply (he : ∀ address, e ≠ .store address) (b : Int) :
    (m.apply e).register? b = m.register? b := by
  cases e with
  | store address => exact absurd rfl (he address)
  | halt => rfl
  | accumulate w => rfl
  | branch address => rfl
  | idle => rfl

theorem register?_apply_store_eq {x : Word} (hx : m.register? address = some x) (b : Int) :
    (m.apply (.store address)).register? b = if b = address then some m.acc else m.register? b := by
  obtain ⟨h0, hlt⟩ := bounds_of_register? hx
  obtain ⟨n, rfl⟩ := Int.eq_ofNat_of_zero_le h0
  have counted : n < ({ m with pc := m.pc + 1, steps := m.steps + 1 } : Machine).size := Int.ofNat_lt.mp hlt
  exact register?_write counted b m.acc

theorem register?_apply_store {x : Word} (hx : m.register? address = some x) {b : Int} (hb : b ≠ address) :
    (m.apply (.store address)).register? b = m.register? b :=
  (register?_apply_store_eq hx b).trans (if_neg hb)

theorem size_apply (m : Machine) (e : Effect) : (m.apply e).size = m.size := by
  cases e with
  | store address => exact size_write _ address m.acc
  | halt => rfl
  | accumulate w => rfl
  | branch address => rfl
  | idle => rfl

/-! ### Steps -/

theorem step_of_completed (h : m.completed = true) : m.step = { machine := m } := by
  unfold step
  rw [if_pos h]

theorem step_of_outside (h : m.completed = false) (hr : m.register? m.pc = none) :
    m.step = { machine := m, fault := some (.counterOutside m.pc m.size) } := by
  unfold step
  rw [h, hr]
  rfl

theorem step_of_error (h : m.completed = false) (hr : m.register? m.pc = some w) (he : m.effect w = .error f) :
    m.step = { machine := { m with pc := m.pc + 1 }, fault := some f } := by
  unfold step
  simp only [h, hr, he]
  rfl

theorem step_of_ok (h : m.completed = false) (hr : m.register? m.pc = some w) (he : m.effect w = .ok e) :
    m.step = { machine := m.apply e } := by
  unfold step
  simp only [h, hr, he]
  rfl

/-- A step changes no more than the program counter, or lets the effect of the word at the program counter take
    place. -/
theorem step_cases (hc : m.completed = false) :
    (∃ f, m.step = { machine := { m with pc := m.step.machine.pc }, fault := some f }) ∨
      ∃ w e, m.register? m.pc = some w ∧ m.effect w = .ok e ∧ m.step = { machine := m.apply e } := by
  cases hr : m.register? m.pc with
  | none =>
    rw [step_of_outside hc hr]
    exact Or.inl ⟨_, rfl⟩
  | some w =>
    cases he : m.effect w with
    | error f =>
      rw [step_of_error hc hr he]
      exact Or.inl ⟨f, rfl⟩
    | ok e => exact Or.inr ⟨w, e, rfl, he, step_of_ok hc hr he⟩

theorem exists_apply_of_step (hc : m.completed = false) (hf : m.step.fault = none) :
    ∃ w e, m.register? m.pc = some w ∧ m.effect w = .ok e ∧ m.step = { machine := m.apply e } := by
  refine (step_cases hc).resolve_left ?_
  rintro ⟨f, hs⟩
  rw [hs] at hf
  cases hf

theorem size_step (hc : m.completed = false) : m.step.machine.size = m.size := by
  rcases step_cases hc with ⟨f, hs⟩ | ⟨w, e, -, -, hs⟩
  · rw [hs]
    rfl
  · rw [hs]
    exact size_apply m e

theorem programLength_step (hc : m.completed = false) : m.step.machine.programLength = m.programLength := by
  rcases step_cases hc with ⟨f, hs⟩ | ⟨w, e, -, -, hs⟩
  · rw [hs]
  · rw [hs]
    exact programLength_apply m e

end Machine
end StoredProgram
