import StoredProgram.Proofs.Machine.Limit
import StoredProgram.Proofs.Machine.Load

/-! # Histories of a machine

A machine is made and then called from outside, any number of times and in any order: to take a step, to run, to run
with a limit, to set a register (`History`). A call may end with a fault, and the next one goes on with what the fault
has left. What every step and every setting keep, a history keeps (`History.invariant`), so that `Lasting` holds
after any history. -/

namespace StoredProgram.Machine

/-- A call of a machine from outside. -/
inductive Call where
  | step
  | run
  | runWithin (limit : UInt64)
  | set (register : UInt64) (w : Word)
  deriving DecidableEq

/-- A machine as it is made, with or without a program. -/
inductive Fresh (m : Machine) : Prop
  | ofRegisters {ws : List Word} {count : Nat} (h : ofRegisters ws count = some m)
  | load {counting : Counting} {program initial : List Word} {blank : UInt64}
    (h : load counting program initial blank = some m)

/-- A call of a machine returns with an outcome, and on the way so many steps have succeeded. A run without a limit
    that goes on for ever does not return. -/
inductive Returns (m : Machine) : Call → Nat → Outcome → Prop
  | step : Returns m .step (executed 1 m) m.step
  | run {fuel : Nat} {o : Outcome} (h : m.run fuel = some o) : Returns m .run (executed fuel m) o
  | runWithin (limit : UInt64) : Returns m (.runWithin limit) (executed limit.toNat m) (m.runWithin limit.toNat)
  | set (register : UInt64) (w : Word) : Returns m (.set register w) 0 (m.set register w)

/-- Calls one after the other lead from one machine to another, and so many steps have succeeded in all. -/
inductive History (m : Machine) : List Call → Nat → Machine → Prop
  | start : History m [] 0 m
  | call {cs : List Call} {n k : Nat} {s : Machine} {c : Call} {o : Outcome} (h : History m cs n s)
    (hc : Returns s c k o) : History m (cs ++ [c]) (n + k) o.machine

/-- The register before the program counter holds a halt. -/
def BehindHalt (m : Machine) : Prop :=
  1 ≤ m.pc ∧ m.pc ≤ m.size ∧
    ∃ w i, m.register? (m.pc - 1) = some w ∧ Instruction.decode w = .ok i ∧ i.operation = .halt

variable {m s : Machine} {c : Call} {cs : List Call} {n k : Nat} {o : Outcome} {f : Fault} {r : UInt64} {w : Word}

/-! ### Steps -/

theorem steps_of_fault (hf : m.step.fault = some f) : m.step.machine.steps = m.steps := by
  rw [(faults_of_step (step_eq_of_fault hf)).2.frame]

/-- Only a halt completes a machine, and it leaves the program counter behind itself. -/
theorem behindHalt_step_machine (hc : m.completed = false) (hd : m.step.machine.completed = true) :
    BehindHalt m.step.machine := by
  rcases step_cases hc with ⟨f, hs⟩ | ⟨w, e, hr, he, hs⟩
  · rw [hs] at hd
    exact absurd hd (by simp [hc])
  · rw [hs] at hd ⊢
    have halts : e = .halt := (completed_apply.mp hd).resolve_right (by simp [hc])
    obtain ⟨i, hi⟩ := exists_decode_of_effect_eq_ok he
    obtain ⟨v, -, hv, -⟩ := (effect_eq_ok_iff hi).mp he
    obtain ⟨h0, hlt⟩ := bounds_of_register? hr
    subst halts
    have keeps : ∀ address, Effect.halt ≠ .store address := nofun
    have same : (m.apply .halt).register? (m.pc + 1 - 1) = some w := by
      rw [register?_apply keeps, Int.add_sub_cancel, hr]
    refine ⟨?_, ?_, w, i, same, hi, Operation.effect_eq_halt_iff.mp hv⟩
    · show 1 ≤ m.pc + 1
      omega
    · show m.pc + 1 ≤ (m.apply .halt).size
      rw [size_apply]
      omega

/-! ### Settings -/

theorem set_of_fault (h : (m.set r w).fault = some f) : (m.set r w).machine = m := by
  unfold set at h ⊢
  split
  · rename_i hlt
    rw [if_pos hlt] at h
    cases h
  · rfl

theorem set_of_ok (h : (m.set r w).fault = none) :
    r.toNat < m.size ∧ (m.set r w).machine = m.write r.toNat w := by
  unfold set at h ⊢
  split
  · rename_i hlt
    exact ⟨hlt, rfl⟩
  · rename_i hlt
    rw [if_neg hlt] at h
    cases h

theorem exists_set_eq (m : Machine) (r : UInt64) (w : Word) :
    ∃ registers, (m.set r w).machine = { m with registers := registers } ∧ registers.size = m.registers.size := by
  cases hf : (m.set r w).fault with
  | none =>
    obtain ⟨-, hs⟩ := set_of_ok hf
    rw [hs]
    exact ⟨_, rfl, Array.size_setIfInBounds⟩
  | some f => exact ⟨m.registers, set_of_fault hf, rfl⟩

/-! ### Calls -/

theorem exists_takes_machine_runWithin (limit : Nat) (m : Machine) :
    ∃ s, Takes (executed limit m) m s ∧ ((m.runWithin limit).machine = s ∨
      s.completed = false ∧ (∃ f, s.step.fault = some f) ∧ m.runWithin limit = s.step) := by
  obtain ⟨s, hs, ⟨-, -, ho⟩ | ⟨hc, -, hf, ho⟩ | ⟨-, -, ho⟩⟩ := exists_takes_runWithin limit m
  · exact ⟨s, hs, Or.inl (congrArg Outcome.machine ho)⟩
  · exact ⟨s, hs, Or.inr ⟨hc, hf, ho⟩⟩
  · exact ⟨s, hs, Or.inl (congrArg Outcome.machine ho)⟩

theorem Returns.exists_takes (h : Returns m c k o) (hset : ∀ r w, c ≠ .set r w) :
    ∃ s, Takes k m s ∧ (o.machine = s ∨ s.completed = false ∧ (∃ f, s.step.fault = some f) ∧ o = s.step) := by
  cases h with
  | step =>
    cases hc : m.completed with
    | true =>
      rw [executed_of_completed hc, step_of_completed hc]
      exact ⟨m, .none, Or.inl rfl⟩
    | false =>
      cases hf : m.step.fault with
      | some f =>
        rw [executed_of_fault hf]
        exact ⟨m, .none, Or.inr ⟨hc, ⟨f, hf⟩, rfl⟩⟩
      | none =>
        rw [executed_succ hc hf]
        exact ⟨_, .step hc hf .none, Or.inl rfl⟩
  | @run fuel _ h =>
    -- With as much fuel as it needs, a run does not come to the end of the fuel taken as a limit.
    have ho : m.runWithin fuel = o := go_of_run h fuel
    rw [← ho]
    exact exists_takes_machine_runWithin fuel m
  | runWithin limit => exact exists_takes_machine_runWithin limit.toNat m
  | set r w => exact absurd rfl (hset r w)

theorem Returns.steps_eq (h : Returns m c k o) : o.machine.steps = m.steps + UInt64.ofNat k := by
  by_cases hc : ∃ r w, c = .set r w
  · obtain ⟨r, w, rfl⟩ := hc
    cases h with
    | set r w =>
      obtain ⟨registers, hs, -⟩ := exists_set_eq m r w
      rw [hs]
      simp
  · obtain ⟨s, hs, ho | ⟨-, ⟨f, hf⟩, rfl⟩⟩ := h.exists_takes fun r w h => hc ⟨r, w, h⟩
    · rw [ho]
      exact hs.steps_eq
    · rw [steps_of_fault hf]
      exact hs.steps_eq

/-- What every step and the call itself, if it is a setting, keep, a call keeps. -/
theorem Returns.invariant {P : Machine → Prop} (h : Returns m c k o) (h0 : P m)
    (hstep : ∀ s, P s → s.completed = false → P s.step.machine)
    (hset : ∀ r w, c = .set r w → P (m.set r w).machine) : P o.machine := by
  by_cases hc : ∃ r w, c = .set r w
  · obtain ⟨r, w, rfl⟩ := hc
    cases h with
    | set r w => exact hset r w rfl
  · obtain ⟨s, hs, ho⟩ := h.exists_takes fun r w h => hc ⟨r, w, h⟩
    have there : P s := hs.reaches.invariant h0 fun s h hr _ => hstep s h hr
    rcases ho with ho | ⟨hr, -, rfl⟩
    · rw [ho]
      exact there
    · exact hstep s there hr

namespace History

theorem invariant {P : Machine → Prop} (h : History m cs n s) (h0 : P m)
    (hstep : ∀ s, P s → s.completed = false → P s.step.machine)
    (hset : ∀ r w, .set r w ∈ cs → ∀ s, P s → P (s.set r w).machine) : P s := by
  induction h with
  | start => exact h0
  | call _ hc ih =>
    have before := ih fun r w hm => hset r w (List.mem_append_left _ hm)
    refine hc.invariant before hstep ?_
    rintro r w rfl
    exact hset r w (List.mem_append_right _ List.mem_cons_self) _ before

theorem size_eq (h : History m cs n s) : s.size = m.size := by
  refine h.invariant (P := (·.size = m.size)) rfl ?_ ?_
  · intro t ht hc
    exact (size_step hc).trans ht
  · intro r w _ t ht
    obtain ⟨registers, hs, hsize⟩ := exists_set_eq t r w
    rw [hs]
    exact hsize.trans ht

theorem programLength_eq (h : History m cs n s) : s.programLength = m.programLength := by
  refine h.invariant (P := (·.programLength = m.programLength)) rfl ?_ ?_
  · intro t ht hc
    exact (programLength_step hc).trans ht
  · intro r w _ t ht
    obtain ⟨registers, hs, -⟩ := exists_set_eq t r w
    rw [hs]
    exact ht

theorem steps_eq (h : History m cs n s) : s.steps = m.steps + UInt64.ofNat n := by
  induction h with
  | start => simp
  | call _ hc ih => rw [hc.steps_eq, ih, UInt64.ofNat_add, UInt64.add_assoc]

theorem completed (h : History m cs n s) (hm : m.completed = true) : s.completed = true := by
  refine h.invariant (P := (·.completed = true)) hm ?_ ?_
  · intro t ht hc
    rw [ht] at hc
    cases hc
  · intro r w _ t ht
    obtain ⟨registers, hs, -⟩ := exists_set_eq t r w
    rw [hs]
    exact ht

/-- Without settings, a machine that has been completed on the way is behind the halt that has completed it. -/
theorem behindHalt (h : History m cs n s) (hm : m.completed = false) (hset : ∀ r w, .set r w ∉ cs)
    (hs : s.completed = true) : BehindHalt s := by
  refine h.invariant (P := fun s => s.completed = true → BehindHalt s) ?_ ?_ ?_ hs
  · intro hd
    rw [hm] at hd
    cases hd
  · exact fun _ _ hc hd => behindHalt_step_machine hc hd
  · exact fun r w hmem => absurd hmem (hset r w)

end History

/-! ### Machines as they are made -/

theorem Fresh.exists_eq (h : Fresh m) : ∃ registers n, m = { registers := registers, programLength := n } := by
  cases h with
  | ofRegisters h =>
    obtain ⟨registers, -, rfl⟩ := Option.map_eq_some_iff.mp h
    exact ⟨registers, 0, rfl⟩
  | load h =>
    obtain ⟨-, -, -, rfl⟩ := load_eq_some_iff.mp h
    exact ⟨_, _, rfl⟩

/-- What holds of a machine after a history in which so many steps have succeeded. -/
structure Lasting (m : Machine) (cs : List Call) (n : Nat) (s : Machine) : Prop where
  size : s.size = m.size
  programLength : s.programLength = m.programLength
  steps : n < UInt64.size → s.steps.toNat = n
  completed : s.completed = true → ∀ cs' n' t, History s cs' n' t → t.completed = true
  resting : s.completed = true → s.step = { machine := s } ∧ (∀ fuel, s.run fuel = some { machine := s }) ∧
    ∀ limit, s.runWithin limit = { machine := s }
  refused : ∀ r w f, (s.set r w).fault = some f → (s.set r w).machine = s
  set : ∀ r w, (s.set r w).fault = none → (∃ registers, (s.set r w).machine = { s with registers := registers }) ∧
    ∀ address : Int, (s.set r w).machine.register? address = if address = r.toNat then some w else s.register? address
  halted : (∀ r w, .set r w ∉ cs) → s.completed = true → BehindHalt s

theorem lasting_of_history (hm : Fresh m) (h : History m cs n s) : Lasting m cs n s where
  size := h.size_eq
  programLength := h.programLength_eq
  steps small := by
    obtain ⟨registers, length, rfl⟩ := hm.exists_eq
    rw [h.steps_eq, UInt64.zero_add, UInt64.toNat_ofNat']
    exact Nat.mod_eq_of_lt small
  completed hc _ _ _ h' := h'.completed hc
  resting hc := ⟨step_of_completed hc, run_of_completed hc, fun limit => go_of_completed hc limit limit⟩
  refused _ _ _ hf := set_of_fault hf
  set r w hf := by
    obtain ⟨hlt, hs⟩ := set_of_ok hf
    rw [hs]
    exact ⟨⟨_, rfl⟩, fun address => register?_write hlt address w⟩
  halted := by
    obtain ⟨registers, length, rfl⟩ := hm.exists_eq
    exact h.behindHalt rfl

theorem lasting_of_history_behind_fault :
    ∃ m s, load .checked [-1, 0] [] 0 = some m ∧ History m [.step, .run] 1 s ∧ s.steps.toNat = 1 ∧
      s.completed = true ∧ BehindHalt s := by
  have made : load .checked [-1, 0] [] 0 = some { registers := #[-1, 0], programLength := 2 } := by rfl
  have runs : run 1 (step { registers := #[-1, 0], programLength := 2 }).machine =
      some { machine := ⟨#[-1, 0], 2, 0, true, 1, 2⟩ } := by rfl
  have h : History { registers := #[-1, 0], programLength := 2 } [.step, .run] 1 _ :=
    .call (.call .start .step) (.run runs)
  have lasts := lasting_of_history (.load made) h
  exact ⟨_, _, made, h, lasts.steps (by decide), rfl, lasts.halted (by simp) rfl⟩

end StoredProgram.Machine
