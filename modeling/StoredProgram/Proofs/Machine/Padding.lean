import StoredProgram.Proofs.Machine.Limit
import StoredProgram.Proofs.Machine.Load

/-! # More registers

Whatever a step finds in the registers it finds there as well if more registers follow, so what succeeds goes the same way
(`Padded.effect`). It is only by a fault that tells of an address outside that a machine shows how many registers it
has; without one, calls of `step` cannot tell a machine from a padded one (`Padded.called`). A loaded machine is padded
by more blank registers, as long as memory has them (`padded_filled`). -/

namespace StoredProgram

/-- Something is outside of the registers. -/
def Fault.IsOutside : Fault → Prop
  | .counterOutside _ _ | .addressOutside _ _ => True
  | .undecodable _ _ | .stepLimit _ => False

namespace Machine

variable {m n s t : Machine} {extra k : Nat} {mode : Mode} {v r address : Int} {w : Word} {e : Effect} {f : Fault}
  {ws initial : List Word} {blank more : UInt64} {counting : Counting}

/-- The second machine is in the state of the first one, with so many more registers, all zero. -/
structure Padded (extra : Nat) (m n : Machine) : Prop where
  registers : n.registers = m.registers ++ Array.replicate extra 0
  pc : n.pc = m.pc
  acc : n.acc = m.acc
  completed : n.completed = m.completed
  steps : n.steps = m.steps

/-- The machine after so many calls of `step`, each of them on what the one before has left, even if with a fault. -/
def called : Nat → Machine → Machine
  | 0, m => m
  | k + 1, m => (called k m).step.machine

/-! ### Steps -/

namespace Padded

theorem size_eq (h : Padded extra m n) : n.size = m.size + extra := by
  rw [size, h.registers, Array.size_append, Array.size_replicate]
  rfl

theorem register? (h : Padded extra m n) (hr : m.register? address = some w) : n.register? address = some w := by
  obtain ⟨h0, hlt⟩ := bounds_of_register? hr
  obtain ⟨index, rfl⟩ := Int.eq_ofNat_of_zero_le h0
  rw [register?_natCast] at hr ⊢
  rw [h.registers, Array.getElem?_append_left (Int.ofNat_lt.mp hlt), hr]

theorem resolves (h : Padded extra m n) (hr : Resolves m mode v r) : Resolves n mode v r := by
  cases hr with
  | immediate => exact .immediate
  | direct hw => exact .direct (h.register? hw)
  | indirect hp hw => exact .indirect (h.register? hp) (h.register? hw)

theorem effect (h : Padded extra m n) (he : m.effect w = .ok e) : n.effect w = .ok e := by
  obtain ⟨i, hi⟩ := exists_decode_of_effect_eq_ok he
  obtain ⟨v, hv, he, hs⟩ := (effect_eq_ok_iff hi).mp he
  refine (effect_eq_ok_iff hi).mpr ⟨v, ?_, ?_, fun address ha => ?_⟩
  · exact operand_eq_ok_iff.mpr (h.resolves (operand_eq_ok_iff.mp hv))
  · rw [h.acc]
    exact he
  · obtain ⟨x, hx⟩ := hs address ha
    exact ⟨x, h.register? hx⟩

theorem effect_error (h : Padded extra m n) (he : m.effect w = .error f) (hf : ¬f.IsOutside) :
    n.effect w = .error f := by
  cases hd : Instruction.decode w with
  | ok i =>
    -- An instruction can only fail for want of a register.
    obtain ⟨address, rfl, -⟩ := (effect_eq_error_iff hd).mp he
    exact absurd trivial hf
  | error e =>
    unfold Machine.effect at he ⊢
    rw [hd] at he ⊢
    rw [h.pc]
    exact he

theorem write (h : Padded extra m n) (hr : m.register? address = some w) {x y : Word} (hy : y = x) :
    Padded extra (m.write address x) (n.write address y) := by
  obtain ⟨h0, hlt⟩ := bounds_of_register? hr
  have inside : address.toNat < m.registers.size := by
    change address < (m.registers.size : Int) at hlt
    omega
  refine ⟨?_, h.pc, h.acc, h.completed, h.steps⟩
  show n.registers.setIfInBounds _ _ = _
  rw [h.registers, Array.setIfInBounds_append_left inside, hy]
  rfl

theorem apply (h : Padded extra m n) (hs : ∀ address, e = .store address → ∃ x, m.register? address = some x) :
    Padded extra (m.apply e) (n.apply e) := by
  have next : Padded extra { m with pc := m.pc + 1, steps := m.steps + 1 }
      { n with pc := n.pc + 1, steps := n.steps + 1 } :=
    ⟨h.registers, congrArg (· + 1) h.pc, h.acc, h.completed, congrArg (· + 1) h.steps⟩
  cases e with
  | halt => exact ⟨next.registers, next.pc, next.acc, rfl, next.steps⟩
  | accumulate w => exact ⟨next.registers, next.pc, rfl, next.completed, next.steps⟩
  | branch address => exact ⟨next.registers, rfl, next.acc, next.completed, next.steps⟩
  | idle => exact next
  | store address =>
    obtain ⟨x, hx⟩ := hs address rfl
    exact next.write hx h.acc

/-- As long as nothing is outside of the smaller machine, a step of the padded one meets the same fault, if any, and
    leaves a padded machine. -/
theorem step (h : Padded extra m n) (hin : ∀ f, m.step.fault = some f → ¬f.IsOutside) :
    n.step.fault = m.step.fault ∧ Padded extra m.step.machine n.step.machine := by
  cases hc : m.completed with
  | true =>
    rw [step_of_completed hc, step_of_completed (h.completed.trans hc)]
    exact ⟨rfl, h⟩
  | false =>
    have hc' := h.completed.trans hc
    cases hr : m.register? m.pc with
    | none =>
      -- The counter is outside of the smaller machine only, which `hin` excludes.
      rw [step_of_outside hc hr] at hin
      exact absurd trivial (hin _ rfl)
    | some w =>
      have hr' : n.register? n.pc = some w := h.pc ▸ h.register? hr
      cases he : m.effect w with
      | ok e =>
        rw [step_of_ok hc hr he, step_of_ok hc' hr' (h.effect he)]
        refine ⟨rfl, h.apply fun address ha => ?_⟩
        exact exists_register?_of_effect_eq_store (ha ▸ he)
      | error f =>
        rw [step_of_error hc hr he] at hin ⊢
        rw [step_of_error hc' hr' (h.effect_error he (hin f rfl))]
        exact ⟨rfl, ⟨h.registers, congrArg (· + 1) h.pc, h.acc, h.completed, h.steps⟩⟩

/-! ### Steps in a row -/

theorem called (h : Padded extra m n)
    (hin : ∀ j < k, ∀ f, (called j m).step.fault = some f → ¬f.IsOutside) :
    Padded extra (Machine.called k m) (Machine.called k n) := by
  induction k with
  | zero => exact h
  | succ k ih =>
    have before := ih fun j hj => hin j (Nat.lt_succ_of_lt hj)
    exact (before.step (hin k (Nat.lt_succ_self k))).2

theorem takes (h : Padded extra m n) (hm : Takes k m s) : ∃ t, Takes k n t ∧ Padded extra s t := by
  induction hm generalizing n with
  | none => exact ⟨n, .none, h⟩
  | step hc hf _ ih =>
    obtain ⟨same, next⟩ := h.step fun f hf' => by rw [hf] at hf'; cases hf'
    obtain ⟨t, ht, hp⟩ := ih next
    exact ⟨t, .step (h.completed.trans hc) (same.trans hf) ht, hp⟩

end Padded

/-! ### Loaded machines -/

theorem padded_filled (ws initial : List Word) {blank more : Nat} (hle : blank ≤ more) :
    Padded (more - blank) (filled ws initial blank) (filled ws initial more) := by
  refine ⟨?_, rfl, rfl, rfl, rfl⟩
  rw [filled, filled, ← List.toArray_replicate, List.append_toArray, List.append_assoc (ws ++ initial),
    List.replicate_append_replicate, Nat.add_sub_cancel' hle]

/-- Where the number of registers wraps around, some are lost, and the larger machine is no padded one. -/
theorem room_of_padded (hle : blank ≤ more) (fits : ws.length + initial.length + blank.toNat < UInt64.size)
    (hm : load counting ws initial blank = some m) (hn : load counting ws initial more = some n)
    (hs : Reaches m s) (ht : Reaches n t) (h : Padded (more.toNat - blank.toNat) s t) :
    ws.length + initial.length + more.toNat < memoryLimit := by
  have hle : blank.toNat ≤ more.toNat := UInt64.le_iff_toNat_le.mp hle
  have count := h.size_eq
  rw [hs.size_eq, ht.size_eq, size_load hm, size_load hn, Nat.mod_eq_of_lt fits] at count
  obtain ⟨-, -, room, -⟩ := load_eq_some_iff.mp hn
  -- A padded machine has as many registers as the lengths add up to, a loaded one only as many as memory has.
  omega

theorem exists_run_padded_iff (hle : blank ≤ more) (fits : ws.length + initial.length + blank.toNat < UInt64.size)
    (hm : load counting ws initial blank = some m) (hs : ∃ fuel, run fuel m = some { machine := s }) :
    (∃ n t, load counting ws initial more = some n ∧ (∃ fuel, run fuel n = some { machine := t }) ∧
        Padded (more.toNat - blank.toNat) s t) ↔ ws.length + initial.length + more.toNat < memoryLimit := by
  obtain ⟨hs, hc⟩ := exists_run_completed_iff.mp hs
  constructor
  · rintro ⟨n, t, hn, ht, h⟩
    exact room_of_padded hle fits hm hn hs (exists_run_completed_iff.mp ht).1 h
  · intro room
    obtain ⟨k, hk⟩ := hs.exists_takes
    rw [eq_filled hm fits] at hk
    obtain ⟨t, ht, h⟩ := (padded_filled ws initial (UInt64.le_iff_toNat_le.mp hle)).takes hk
    exact ⟨_, t, load_of_lt room counting, exists_run_completed_iff.mpr ⟨ht.reaches, h.completed.trans hc⟩, h⟩

theorem exists_runWithin_padded_iff {limit : Nat} (hle : blank ≤ more)
    (fits : ws.length + initial.length + blank.toNat < UInt64.size)
    (hm : load counting ws initial blank = some m) (hs : runWithin limit m = { machine := s }) :
    (∃ n t, load counting ws initial more = some n ∧ runWithin limit n = { machine := t } ∧
        Padded (more.toNat - blank.toNat) s t) ↔ ws.length + initial.length + more.toNat < memoryLimit := by
  obtain ⟨k, hk, hs, hc⟩ := runWithin_eq_ok_iff.mp hs
  constructor
  · rintro ⟨n, t, hn, ht, h⟩
    obtain ⟨j, -, row, -⟩ := runWithin_eq_ok_iff.mp ht
    exact room_of_padded hle fits hm hn hs.reaches row.reaches h
  · intro room
    rw [eq_filled hm fits] at hs
    obtain ⟨t, ht, h⟩ := (padded_filled ws initial (UInt64.le_iff_toNat_le.mp hle)).takes hs
    exact ⟨_, t, load_of_lt room counting, runWithin_eq_ok_iff.mpr ⟨k, hk, ht, h.completed.trans hc⟩, h⟩

/-- Calls of `step` that do not go outside of the registers do the same if there are more of them. So a run of a loaded
    machine that has succeeded succeeds with more blank registers in the same way, just if memory has them all. Otherwise
    there is no larger machine, or its number of registers has wrapped around. -/
theorem called_agrees (ws initial : List Word) (blank more : UInt64) :
    (∀ (extra k : Nat) (m n : Machine), Padded extra m n →
      (∀ j < k, ∀ f, (called j m).step.fault = some f → ¬f.IsOutside) →
      ∀ j < k, (called j n).step.fault = (called j m).step.fault ∧
        Padded extra (called (j + 1) m) (called (j + 1) n)) ∧
    (blank ≤ more → ws.length + initial.length + blank.toNat < UInt64.size → ∀ (counting : Counting) (m s : Machine),
      load counting ws initial blank = some m →
      ((∃ fuel, run fuel m = some { machine := s }) →
        ((∃ n t, load counting ws initial more = some n ∧ (∃ fuel, run fuel n = some { machine := t }) ∧
          Padded (more.toNat - blank.toNat) s t) ↔ ws.length + initial.length + more.toNat < memoryLimit)) ∧
      ∀ limit, runWithin limit m = { machine := s } →
        ((∃ n t, load counting ws initial more = some n ∧ runWithin limit n = { machine := t } ∧
          Padded (more.toNat - blank.toNat) s t) ↔ ws.length + initial.length + more.toNat < memoryLimit)) := by
  refine ⟨fun extra k m n h hin j hj => ?_, fun hle fits counting m s hm => ?_⟩
  · have before := h.called fun i hi => hin i (Nat.lt_trans hi hj)
    exact before.step (hin j hj)
  · exact ⟨exists_run_padded_iff hle fits hm, fun limit => exists_runWithin_padded_iff hle fits hm⟩

theorem called_agrees_behind_fault :
    (∃ m n, load .checked [-1, 0] [] 0 = some m ∧ load .checked [-1, 0] [] 2 = some n ∧
      n.step.fault = some (.undecodable 0 (.negative (-1))) ∧ Padded 2 (called 2 m) (called 2 n) ∧
      (called 2 n).completed = true) ∧
    ∃ m n s t, load .checked [327682, 0] [7] 0 = some m ∧ load .checked [327682, 0] [7] 3 = some n ∧
      runWithin 2 m = { machine := s } ∧ runWithin 2 n = { machine := t } ∧ Padded 3 s t ∧ t.acc = 7 := by
  obtain ⟨calls, runs⟩ := called_agrees [327682, 0] [7] 0 3
  have inside : ∀ j < 2, ∀ f, (called j (filled [-1, 0] [] 0)).step.fault = some f → ¬f.IsOutside := by
    intro j hj f hf
    obtain rfl | rfl : j = 0 ∨ j = 1 := by omega
    · cases hf
      exact id
    · cases hf
  have both := calls 2 2 (filled [-1, 0] [] 0) (filled [-1, 0] [] 2) ⟨rfl, rfl, rfl, rfl, rfl⟩ inside
  have made : load .checked [327682, 0] [7] 0 = some _ := load_of_lt (by decide) .checked
  have ends : runWithin 2 (filled [327682, 0] [7] 0) =
    { machine := (runWithin 2 (filled [327682, 0] [7] 0)).machine } := by rfl
  obtain ⟨n, t, hn, ht, h⟩ := ((runs (by decide) (by decide) .checked _ _ made).2 2 ends).mpr (by decide)
  exact ⟨⟨_, _, load_of_lt (by decide) .checked, load_of_lt (by decide) .checked, (both 0 (by decide)).1,
    (both 1 (by decide)).2, rfl⟩, _, n, _, t, made, hn, ends, ht, h, h.acc⟩

/-- With so many blank registers, the program is not loaded if additions are checked. If they wrap around, a word that
    the run has loaded is cut off. -/
theorem run_outside_of_wrapped_size :
    (∃ m s, load .checked [327682, 0] [7] 0 = some m ∧ run 2 m = some { machine := s } ∧ s.acc = 7) ∧
      load .checked [327682, 0] [7] 18446744073709551615 = none ∧
      ∃ m o, load .wrapping [327682, 0] [7] 18446744073709551615 = some m ∧ run 2 m = some o ∧
        o.fault = some (.addressOutside 2 2) :=
  ⟨⟨{ registers := #[327682, 0, 7], programLength := 2 }, _, by rfl, by rfl, by rfl⟩, by rfl,
    { registers := #[327682, 0], programLength := 2 }, _, by rfl, by rfl, by rfl⟩

end Machine
end StoredProgram
