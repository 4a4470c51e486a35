import StoredProgram.Machine.Step

/-! # Runs

A run takes steps until the machine has completed or a step meets a fault. A run with a limit gives up
after so many steps, which is a fault as well. A run without a limit need not end; as a function it takes
fuel, and it has an outcome exactly if enough fuel lets it end (`exists_run_eq_some_iff`). -/

namespace StoredProgram.Machine

/-- Runs until the machine has completed, a step meets a fault, or the steps of the limit are taken. -/
def runWithin (limit : Nat) (m : Machine) : Outcome := go limit m
where
  /-- Takes at most `n` more steps. -/
  go (n : Nat) (m : Machine) : Outcome :=
    if m.completed then { machine := m }
    else
      match n with
      | 0 => { machine := m, fault := some (.stepLimit limit) }
      | n + 1 =>
        match m.step with
        | ⟨next, none⟩ => go n next
        | stopped => stopped

/-- Runs until the machine has completed or a step meets a fault, if the fuel allows so many steps. -/
def run (fuel : Nat) (m : Machine) : Option Outcome :=
  if m.completed then some { machine := m }
  else
    match fuel with
    | 0 => none
    | n + 1 =>
      match m.step with
      | ⟨next, none⟩ => run n next
      | stopped => some stopped

/-! ### Runs without a limit -/

/-- The outcome of a run without a limit: a completed machine stays as it is, a fault ends the run, and
    after any other step the run goes on. -/
inductive Ends : Machine → Outcome → Prop
  | completed {m : Machine} (h : m.completed = true) : Ends m { machine := m }
  | faulted {m : Machine} {f : Fault} (h : m.completed = false) (hf : m.step.fault = some f) :
    Ends m m.step
  | stepped {m : Machine} {o : Outcome} (h : m.completed = false) (hf : m.step.fault = none)
    (ho : Ends m.step.machine o) : Ends m o

theorem run_of_completed {m : Machine} (h : m.completed = true) (n : Nat) :
    m.run n = some { machine := m } := by
  unfold run; simp [h]

theorem run_zero {m : Machine} (h : m.completed = false) : m.run 0 = none := by
  unfold run; simp [h]

theorem run_succ {m : Machine} (h : m.completed = false) (n : Nat) :
    m.run (n + 1) = if m.step.fault.isSome then some m.step else m.step.machine.run n := by
  rw [run.eq_def]
  rcases hs : m.step with ⟨next, _ | f⟩ <;> simp [h]

theorem ends_of_run {n : Nat} {m : Machine} {o : Outcome} (h : m.run n = some o) : Ends m o := by
  induction n generalizing m with
  | zero =>
    cases hc : m.completed with
    | true => rw [run_of_completed hc] at h; cases h; exact .completed hc
    | false => rw [run_zero hc] at h; cases h
  | succ n ih =>
    cases hc : m.completed with
    | true => rw [run_of_completed hc] at h; cases h; exact .completed hc
    | false =>
      rw [run_succ hc] at h
      cases hf : m.step.fault with
      | some f => simp [hf] at h; exact h ▸ .faulted hc hf
      | none => exact .stepped hc hf (ih (by simpa [hf] using h))

/-- Fuel stands for time: a run without a limit ends just if some amount of fuel is enough for it. -/
theorem exists_run_eq_some_iff {m : Machine} {o : Outcome} : (∃ n, m.run n = some o) ↔ Ends m o := by
  refine ⟨fun ⟨_, h⟩ => ends_of_run h, fun h => ?_⟩
  induction h with
  | completed h => exact ⟨0, run_of_completed h 0⟩
  | faulted h hf => exact ⟨1, by simp [run_succ h, hf]⟩
  | stepped h hf _ ih =>
    obtain ⟨n, hn⟩ := ih
    exact ⟨n + 1, by simpa [run_succ h, hf] using hn⟩

end StoredProgram.Machine
