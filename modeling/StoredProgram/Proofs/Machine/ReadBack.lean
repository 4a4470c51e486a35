import StoredProgram.Proofs.Machine.Change

/-! # Reading back what was stored

The operand of a store is the address of its register, the operand of a load the contents of one. So a store and a
load of the same value meet at one register if the mode of the load is one step more indirect
(`resolves_deeper_iff`). A store keeps that register the meeting point unless it overwrites the pointer it went
through, and keeps the load in place unless it overwrites it (`step_store_load`). -/

namespace StoredProgram.Machine

variable {m s : Machine} {mode mode' : Mode} {v t r : Int} {w w' x : Word}

/-- The accumulator has been stored in a register and loaded from there. -/
structure ReadBack (m s : Machine) (t : Int) : Prop where
  acc : s.acc = m.acc
  target : s.register? t = some m.acc
  others : ∀ address, address ≠ t → s.register? address = m.register? address
  size : s.size = m.size
  pc : s.pc = m.pc + 2
  steps : s.steps = m.steps + 2
  completed : s.completed = m.completed
  programLength : s.programLength = m.programLength

/-! ### Operands -/

/-- The next deeper mode reads the register whose address a mode gives. -/
theorem resolves_deeper_iff (hm : mode.deeper? = some mode') :
    Resolves m mode' v r ↔ ∃ t x, Resolves m mode v t ∧ m.register? t = some x ∧ x.toInt = r := by
  cases mode with
  | immediate =>
    cases hm
    constructor
    · intro h
      cases h with
      | direct hx => exact ⟨v, _, .immediate, hx, rfl⟩
    · rintro ⟨t, x, ht, hx, rfl⟩
      cases ht with
      | immediate => exact .direct hx
  | direct =>
    cases hm
    constructor
    · intro h
      cases h with
      | indirect hp hx => exact ⟨_, _, .direct hp, hx, rfl⟩
    · rintro ⟨t, x, ht, hx, rfl⟩
      cases ht with
      | direct hp => exact .indirect hp hx
  | indirect => cases hm

/-- A mode that has a next deeper one reads no other register than that of the value. -/
theorem Resolves.of_register?_eq (h : Resolves m mode v t) (hm : mode.deeper? = some mode')
    (same : mode = .direct → s.register? v = m.register? v) : Resolves s mode v t := by
  cases h with
  | immediate => exact .immediate
  | direct hw => exact .direct ((same rfl).trans hw)
  | indirect _ _ => cases hm

/-! ### Steps -/

theorem step_store (hc : m.completed = false) (hw : m.register? m.pc = some w)
    (hd : Instruction.decode w = .ok ⟨.store, mode, v⟩) (hf : m.step.fault = none) (ht : Resolves m mode v t) :
    Changes m t m.step.machine .store := by
  obtain ⟨i, t', h⟩ := executes_step hc hf
  obtain ⟨rfl, rfl⟩ := h.unique hw hd ht
  exact h.changes

theorem step_load (hc : m.completed = false) (hw : m.register? m.pc = some w)
    (hd : Instruction.decode w = .ok ⟨.load, mode, v⟩) (hx : Resolves m mode v x.toInt) :
    m.step = { machine := { m.next with acc := x } } :=
  step_accumulate hc hw hd hx Operation.effect_load_toInt

/-- Loading what a store has put away gives the accumulator that is already there. -/
theorem readBack_of_changes (h : Changes m t s .store) (hs : s.size = m.size) :
    ReadBack m { s.next with acc := m.acc } t := by
  obtain ⟨⟨registers, rfl⟩, target, others⟩ := h
  refine ⟨rfl, target, others, hs, ?_, ?_, rfl, rfl⟩
  · show m.pc + 1 + 1 = m.pc + 2
    omega
  · show m.steps + 1 + 1 = m.steps + 2
    exact UInt64.add_assoc m.steps 1 1

/-- A store that succeeds and a load of the same value behind it, with the next deeper mode, leave the accumulator as
    it is, in the register of the store too, and nothing else changes: if the store has not gone to the load, nor to
    the pointer that both go through. -/
theorem step_store_load (hc : m.completed = false) (hw : m.register? m.pc = some w)
    (hw' : m.register? (m.pc + 1) = some w') (hd : Instruction.decode w = .ok ⟨.store, mode, v⟩)
    (hd' : Instruction.decode w' = .ok ⟨.load, mode', v⟩) (hm : mode.deeper? = some mode')
    (hf : m.step.fault = none) (ht : Resolves m mode v t) (code : t ≠ m.pc + 1)
    (pointer : mode = .direct → t ≠ v) :
    ∃ s s', m.step = { machine := s } ∧ s.step = { machine := s' } ∧ ReadBack m s' t := by
  have stored := step_store hc hw hd hf ht
  have first : m.step = { machine := m.step.machine } := by rw [← hf]
  have size := size_step hc
  generalize m.step.machine = s at first stored size
  have ⟨⟨registers, frame⟩, target, others⟩ := stored
  have running : s.completed = false := by
    rw [frame]
    exact hc
  have fetched : s.register? s.pc = some w' := by
    have pc : s.pc = m.pc + 1 := by
      rw [frame]
      rfl
    rw [pc, others _ code.symm, hw']
  have reads : Resolves s mode' v m.acc.toInt := by
    have same : Resolves s mode v t := ht.of_register?_eq hm fun direct => others v (pointer direct).symm
    exact (resolves_deeper_iff hm).mpr ⟨t, m.acc, same, target, rfl⟩
  exact ⟨s, _, first, step_load running fetched hd' reads, readBack_of_changes stored size⟩

theorem step_store_load_through_pointer :
    ∃ s s', ({ registers := #[589826, 393218, 3, 0], acc := -7 } : Machine).step = { machine := s } ∧
      s.step = { machine := s' } ∧
      ReadBack { registers := #[589826, 393218, 3, 0], acc := -7 } s' 3 :=
  have pointer : Resolves { registers := #[589826, 393218, 3, 0], acc := -7 } .direct 2 (3 : Word).toInt := .direct rfl
  step_store_load rfl rfl rfl rfl rfl rfl rfl pointer (by decide) fun _ => by decide

end StoredProgram.Machine
