import StoredProgram.Machine.Run
import StoredProgram.Proofs.Machine.Step

/-! # What a run passes through

A run takes steps from one machine to the next (`Reaches`) and stops at one of them (`Stops`). So what the first
machine has and every step keeps, all machines of a run have (`Reaches.invariant`). -/

namespace StoredProgram.Machine

variable {m n s : Machine} {o : Outcome}

/-- Steps without a fault lead from one machine to another. -/
inductive Reaches (m : Machine) : Machine → Prop
  | refl : Reaches m m
  | step {s : Machine} (h : Reaches m s) (hc : s.completed = false) (hf : s.step.fault = none) :
    Reaches m s.step.machine

/-- A run goes no further than a machine that has completed or whose step meets a fault. -/
inductive Stops (s : Machine) : Outcome → Prop
  | completed (h : s.completed = true) : Stops s { machine := s }
  | faulted {f : Fault} (h : s.completed = false) (hf : s.step.fault = some f) : Stops s s.step

namespace Reaches

theorem trans (h : Reaches m n) (hs : Reaches n s) : Reaches m s := by
  induction hs with
  | refl => exact h
  | step _ hc hf ih => exact .step ih hc hf

theorem head (hc : m.completed = false) (hf : m.step.fault = none) (h : Reaches m.step.machine s) : Reaches m s :=
  (Reaches.step .refl hc hf).trans h

/-- What every step keeps, a run keeps. -/
theorem invariant {P : Machine → Prop} (h : Reaches m s) (h0 : P m)
    (hstep : ∀ s, P s → s.completed = false → s.step.fault = none → P s.step.machine) : P s := by
  induction h with
  | refl => exact h0
  | step _ hc hf ih => exact hstep _ ih hc hf

theorem next (h : Reaches m s) (hc : s.completed = false) {w : Word} {e : Effect} (hr : s.register? s.pc = some w)
    (he : s.effect w = .ok e) : Reaches m (s.apply e) := by
  have hs := step_of_ok hc hr he
  have next := h.step hc (congrArg Outcome.fault hs)
  rwa [hs] at next

theorem size_eq (h : Reaches m s) : s.size = m.size :=
  h.invariant (P := (·.size = m.size)) rfl fun _ hs hc _ => (size_step hc).trans hs

end Reaches

/-! ### Outcomes of runs -/

theorem exists_reaches_of_ends (h : Ends m o) : ∃ s, Reaches m s ∧ Stops s o := by
  induction h with
  | completed h => exact ⟨_, .refl, .completed h⟩
  | faulted h hf => exact ⟨_, .refl, .faulted h hf⟩
  | stepped h hf _ ih =>
    obtain ⟨s, hr, hs⟩ := ih
    exact ⟨s, hr.head h hf, hs⟩

theorem go_of_completed (h : m.completed = true) (limit k : Nat) : runWithin.go limit k m = { machine := m } := by
  unfold runWithin.go
  rw [if_pos h]

theorem go_zero (h : m.completed = false) (limit : Nat) :
    runWithin.go limit 0 m = { machine := m, fault := some (.stepLimit limit) } := by
  unfold runWithin.go
  simp [h]

theorem go_succ (h : m.completed = false) (limit k : Nat) :
    runWithin.go limit (k + 1) m =
      if m.step.fault.isSome then m.step else runWithin.go limit k m.step.machine := by
  rw [runWithin.go.eq_def]
  rcases hs : m.step with ⟨next, _ | f⟩ <;> simp [h]

/-! ### Ends of runs -/

theorem Reaches.ends (h : Reaches m s) (ho : Ends s o) : Ends m o := by
  induction h with
  | refl => exact ho
  | step _ hc hf ih => exact ih (.stepped hc hf ho)

theorem exists_run_completed_iff :
    (∃ fuel, m.run fuel = some { machine := s }) ↔ Reaches m s ∧ s.completed = true := by
  rw [exists_run_eq_some_iff]
  refine ⟨fun h => ?_, fun h => h.1.ends (.completed h.2)⟩
  obtain ⟨t, ht, hs⟩ := exists_reaches_of_ends h
  generalize ho : ({ machine := s } : Outcome) = o at hs
  cases hs with
  | completed hc =>
    cases ho
    exact ⟨ht, hc⟩
  | faulted hc hf =>
    rw [← ho] at hf
    cases hf

theorem exists_run_fault_iff {f : Fault} :
    (∃ fuel o, m.run fuel = some o ∧ o.fault = some f) ↔
      ∃ s, Reaches m s ∧ s.completed = false ∧ s.step.fault = some f := by
  refine ⟨fun h => ?_, fun h => ?_⟩
  · obtain ⟨fuel, o, ho, hf⟩ := h
    obtain ⟨s, hr, hs⟩ := exists_reaches_of_ends (ends_of_run ho)
    cases hs with
    | completed _ => cases hf
    | faulted hc _ => exact ⟨s, hr, hc, hf⟩
  · obtain ⟨s, hr, hc, hf⟩ := h
    obtain ⟨fuel, ho⟩ := exists_run_eq_some_iff.mpr (hr.ends (.faulted hc hf))
    exact ⟨fuel, _, ho, hf⟩

end StoredProgram.Machine
