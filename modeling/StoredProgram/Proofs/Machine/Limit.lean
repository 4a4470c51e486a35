import StoredProgram.Proofs.Machine.Fault
import StoredProgram.Proofs.Machine.Run

/-! # Runs step by step

A run with a limit, a run without one and steps taken one by one go the same way (`Takes`); they differ only in where
they stop. A run without a limit ends after a certain number of calls of `step` (`EndsIn`). A run with a limit ends
like it if the limit is not below that number, and is cut off otherwise (`runWithin_eq_iff`), so that it can be cut
into runs with smaller limits as well (`runWithin_add`). -/

namespace StoredProgram

/-- The outcome of a run with another limit, if it is the limit that has ended the run. -/
def Outcome.cutAt (limit : Nat) (o : Outcome) : Outcome :=
  match o.fault with
  | some (.stepLimit _) => { o with fault := some (.stepLimit limit) }
  | _ => o

namespace Machine

variable {m n s t : Machine} {o : Outcome} {f : Fault} {j k limit : Nat}

/-- So many calls of `step` in a row, none of them of a completed machine and none with a fault. -/
inductive Takes : Nat → Machine → Machine → Prop
  | none {m : Machine} : Takes 0 m m
  | step {k : Nat} {m s : Machine} (hc : m.completed = false) (hf : m.step.fault = .none)
    (h : Takes k m.step.machine s) : Takes (k + 1) m s

/-- A run without a limit ends after so many calls of `step`. -/
inductive EndsIn (m : Machine) : Nat → Outcome → Prop
  | completed {k : Nat} {s : Machine} (h : Takes k m s) (hc : s.completed = true) : EndsIn m k { machine := s }
  | faulted {k : Nat} {s : Machine} {f : Fault} (h : Takes k m s) (hc : s.completed = false)
    (hf : s.step.fault = some f) : EndsIn m (k + 1) s.step

/-- The number of calls of `step` that succeed on a machine that is not completed, out of at most so many in a row. -/
def executed : Nat → Machine → Nat
  | 0, _ => 0
  | k + 1, m => if m.completed || m.step.fault.isSome then 0 else executed k m.step.machine + 1

/-- The outcome of calling `step` until the machine is completed, a call fails, or as many calls as the limit allows
    have succeeded. -/
structure StepsUntil (m : Machine) (limit : Nat) (o : Outcome) : Prop where
  ok : ∀ s, o = { machine := s } ↔ ∃ k ≤ limit, Takes k m s ∧ s.completed = true
  failed : ∀ s f, (∀ l, f ≠ .stepLimit l) → (o = { machine := s, fault := some f } ↔
    ∃ k < limit, ∃ t, Takes k m t ∧ t.completed = false ∧ t.step = { machine := s, fault := some f })
  cut : ∀ s l, o = { machine := s, fault := some (.stepLimit l) } ↔ l = limit ∧ Takes limit m s ∧ s.completed = false
  counted : ∀ s l, o = { machine := s, fault := some (.stepLimit l) } → m.steps.toNat + limit < UInt64.size →
    s.steps.toNat = m.steps.toNat + limit

/-! ### Steps in a row -/

namespace Takes

theorem trans (h : Takes j m n) (hs : Takes k n s) : Takes (j + k) m s := by
  induction h with
  | none =>
    rw [Nat.zero_add]
    exact hs
  | step hc hf _ ih =>
    rw [Nat.add_right_comm]
    exact .step hc hf (ih hs)

/-- No row of steps is longer than one that leads to a machine where a run stops. -/
theorem le_of_stops (h : Takes k m s) (hs : Stops s o) (h' : Takes j m t) : j ≤ k := by
  induction h generalizing j with
  | none =>
    cases h' with
    | none => exact Nat.le_refl 0
    | step hc hf _ =>
      cases hs with
      | completed hc' => exact absurd hc' (by rw [hc]; exact Bool.false_ne_true)
      | faulted _ hf' => exact absurd hf' (by rw [hf]; exact nofun)
  | step _ _ _ ih =>
    cases h' with
    | none => exact Nat.zero_le _
    | step _ _ h' => exact Nat.succ_le_succ (ih hs h')

theorem reaches (h : Takes k m s) : Reaches m s := by
  induction h with
  | none => exact .refl
  | step hc hf _ ih => exact ih.head hc hf

theorem steps_eq (h : Takes k m s) : s.steps = m.steps + UInt64.ofNat k := by
  induction h with
  | none => simp
  | @step k m s hc hf _ ih =>
    obtain ⟨w, e, -, -, hs⟩ := exists_apply_of_step hc hf
    rw [ih, hs, steps_apply, UInt64.ofNat_add, UInt64.add_assoc, UInt64.add_comm 1]
    rfl

theorem toNat_steps (h : Takes k m s) (room : m.steps.toNat + k < UInt64.size) :
    s.steps.toNat = m.steps.toNat + k := by
  have small : k < UInt64.size := by omega
  rw [h.steps_eq, UInt64.toNat_add, UInt64.toNat_ofNat', Nat.mod_eq_of_lt small, Nat.mod_eq_of_lt room]

theorem go_eq (h : Takes k m s) : runWithin.go limit (k + j) m = runWithin.go limit j s := by
  induction h with
  | none => rw [Nat.zero_add]
  | step hc hf _ ih => rw [Nat.add_right_comm, go_succ hc, hf, ← ih, Option.isSome_none, if_neg Bool.false_ne_true]

end Takes

theorem Reaches.exists_takes (h : Reaches m s) : ∃ k, Takes k m s := by
  induction h with
  | refl => exact ⟨0, .none⟩
  | step _ hc hf ih =>
    obtain ⟨k, hk⟩ := ih
    exact ⟨k + 1, hk.trans (.step hc hf .none)⟩

/-! ### Runs that end -/

theorem EndsIn.fault_ne (h : EndsIn m k o) (l : Nat) : o.fault ≠ some (.stepLimit l) := by
  cases h with
  | completed _ _ => exact nofun
  | faulted _ _ _ => exact step_fault_ne_stepLimit _ l

theorem EndsIn.le_succ {o' : Outcome} (h : EndsIn m j o) (hk : Takes k m s) (hs : Stops s o') : j ≤ k + 1 := by
  cases h with
  | completed h _ => exact Nat.le_succ_of_le (hk.le_of_stops hs h)
  | faulted h _ _ => exact Nat.succ_le_succ (hk.le_of_stops hs h)

theorem ends_iff_endsIn : Ends m o ↔ ∃ k, EndsIn m k o := by
  constructor
  · intro h
    obtain ⟨s, hr, hs⟩ := exists_reaches_of_ends h
    obtain ⟨k, hk⟩ := hr.exists_takes
    cases hs with
    | completed hc => exact ⟨k, .completed hk hc⟩
    | faulted hc hf => exact ⟨k + 1, .faulted hk hc hf⟩
  · rintro ⟨k, h⟩
    cases h with
    | completed h hc => exact h.reaches.ends (.completed hc)
    | faulted h hc hf => exact h.reaches.ends (.faulted hc hf)

theorem EndsIn.runWithin_eq (h : EndsIn m k o) (hk : k ≤ limit) : m.runWithin limit = o := by
  obtain ⟨j, rfl⟩ := Nat.exists_eq_add_of_le hk
  unfold runWithin
  cases h with
  | completed h hc => rw [h.go_eq, go_of_completed hc]
  | @faulted k s f h hc hf =>
    rw [Nat.add_assoc, Nat.add_comm 1, h.go_eq, go_succ hc, hf]
    rfl

/-! ### Runs with a limit -/

theorem Takes.runWithin_eq (h : Takes limit m s) (hc : s.completed = false) :
    m.runWithin limit = { machine := s, fault := some (.stepLimit limit) } := by
  have whole : runWithin.go limit (limit + 0) m = runWithin.go limit 0 s := h.go_eq
  rw [Nat.add_zero, go_zero hc] at whole
  exact whole

theorem executed_of_completed (h : m.completed = true) (k : Nat) : executed k m = 0 := by
  cases k with
  | zero => rfl
  | succ k => rw [executed, h, Bool.true_or, if_pos rfl]

theorem executed_of_fault (h : m.step.fault = some f) (k : Nat) : executed k m = 0 := by
  cases k with
  | zero => rfl
  | succ k => rw [executed, h, Option.isSome_some, Bool.or_true, if_pos rfl]

theorem executed_succ (hc : m.completed = false) (hf : m.step.fault = none) (k : Nat) :
    executed (k + 1) m = executed k m.step.machine + 1 := by
  rw [executed, hc, hf]
  rfl

/-- The steps that a run with a limit executes lead to a machine where it stops: the machine is completed, its next
    step fails, or they are as many as the limit allows. -/
theorem exists_takes_executed (k : Nat) (m : Machine) : ∃ s, Takes (executed k m) m s ∧ executed k m ≤ k ∧
    (s.completed = false → (∃ f, s.step.fault = some f) ∨ executed k m = k) := by
  induction k generalizing m with
  | zero => exact ⟨m, .none, Nat.le_refl 0, fun _ => Or.inr rfl⟩
  | succ k ih =>
    cases hc : m.completed with
    | true =>
      rw [executed_of_completed hc]
      refine ⟨m, .none, Nat.zero_le _, fun hr => ?_⟩
      rw [hc] at hr
      cases hr
    | false =>
      cases hf : m.step.fault with
      | some f =>
        rw [executed_of_fault hf]
        exact ⟨m, .none, Nat.zero_le _, fun _ => Or.inl ⟨f, hf⟩⟩
      | none =>
        obtain ⟨s, h, hle, hs⟩ := ih m.step.machine
        rw [executed_succ hc hf]
        exact ⟨s, .step hc hf h, Nat.succ_le_succ hle, fun hr => (hs hr).imp_right (congrArg (· + 1))⟩

theorem exists_takes_runWithin (limit : Nat) (m : Machine) : ∃ s, Takes (executed limit m) m s ∧
    ((s.completed = true ∧ executed limit m ≤ limit ∧ m.runWithin limit = { machine := s }) ∨
      (s.completed = false ∧ executed limit m < limit ∧ (∃ f, s.step.fault = some f) ∧ m.runWithin limit = s.step) ∨
      (s.completed = false ∧ executed limit m = limit ∧
        m.runWithin limit = { machine := s, fault := some (.stepLimit limit) })) := by
  obtain ⟨s, h, hle, hs⟩ := exists_takes_executed limit m
  refine ⟨s, h, ?_⟩
  cases hc : s.completed with
  | true => exact Or.inl ⟨rfl, hle, (EndsIn.completed h hc).runWithin_eq hle⟩
  | false =>
    rcases Nat.lt_or_eq_of_le hle with hlt | he
    · rcases hs hc with ⟨f, hf⟩ | he
      · exact Or.inr (Or.inl ⟨rfl, hlt, ⟨f, hf⟩, (EndsIn.faulted h hc hf).runWithin_eq hlt⟩)
      · exact absurd he (Nat.ne_of_lt hlt)
    · rw [he] at h
      exact Or.inr (Or.inr ⟨rfl, he, h.runWithin_eq hc⟩)

theorem go_of_run (h : m.run k = some o) (limit : Nat) : runWithin.go limit k m = o := by
  induction k generalizing m with
  | zero =>
    cases hc : m.completed with
    | true =>
      rw [run_of_completed hc] at h
      cases h
      exact go_of_completed hc limit 0
    | false =>
      rw [run_zero hc] at h
      cases h
  | succ k ih =>
    cases hc : m.completed with
    | true =>
      rw [run_of_completed hc] at h
      cases h
      exact go_of_completed hc limit (k + 1)
    | false =>
      rw [run_succ hc] at h
      rw [go_succ hc]
      cases hf : m.step.fault with
      | some f =>
        rw [hf] at h
        exact Option.some.inj h
      | none =>
        rw [hf] at h
        exact ih h

theorem runWithin_eq_iff : m.runWithin limit = o ↔ (∃ k ≤ limit, EndsIn m k o) ∨
    ∃ s, Takes limit m s ∧ s.completed = false ∧ o = { machine := s, fault := some (.stepLimit limit) } := by
  constructor
  · rintro rfl
    obtain ⟨s, h, ⟨hc, hle, ho⟩ | ⟨hc, hlt, ⟨f, hf⟩, ho⟩ | ⟨hc, he, ho⟩⟩ := exists_takes_runWithin limit m
    · exact Or.inl ⟨_, hle, ho ▸ .completed h hc⟩
    · exact Or.inl ⟨_, hlt, ho ▸ .faulted h hc hf⟩
    · exact Or.inr ⟨s, he ▸ h, hc, ho⟩
  · rintro (⟨k, hk, h⟩ | ⟨s, h, hc, rfl⟩)
    · exact h.runWithin_eq hk
    · exact h.runWithin_eq hc

theorem runWithin_eq_iff_endsIn (hl : ∀ l, o.fault ≠ some (.stepLimit l)) :
    m.runWithin limit = o ↔ ∃ k ≤ limit, EndsIn m k o := by
  rw [runWithin_eq_iff]
  refine or_iff_left ?_
  rintro ⟨s, -, -, rfl⟩
  exact hl limit rfl

theorem runWithin_eq_ok_iff :
    m.runWithin limit = { machine := s } ↔ ∃ k ≤ limit, Takes k m s ∧ s.completed = true := by
  have clean : ∀ l, ({ machine := s } : Outcome).fault ≠ some (.stepLimit l) := fun _ => nofun
  rw [runWithin_eq_iff_endsIn clean]
  refine exists_congr fun k => and_congr_right fun _ => ?_
  constructor
  · intro h
    generalize ho : ({ machine := s } : Outcome) = o at h
    cases h with
    | completed h hc =>
      cases ho
      exact ⟨h, hc⟩
    | faulted _ _ hf =>
      rw [← ho] at hf
      cases hf
  · rintro ⟨h, hc⟩
    exact .completed h hc

theorem runWithin_eq_fault_iff (hl : ∀ l, f ≠ .stepLimit l) :
    m.runWithin limit = { machine := s, fault := some f } ↔
      ∃ k < limit, ∃ t, Takes k m t ∧ t.completed = false ∧ t.step = { machine := s, fault := some f } := by
  rw [runWithin_eq_iff_endsIn fun l h => hl l (Option.some.inj h)]
  constructor
  · rintro ⟨k, hk, h⟩
    generalize ho : ({ machine := s, fault := some f } : Outcome) = o at h
    cases h with
    | completed _ _ => cases ho
    | faulted h hc _ => exact ⟨_, hk, _, h, hc, rfl⟩
  · rintro ⟨k, hk, t, h, hc, ht⟩
    exact ⟨k + 1, hk, ht ▸ .faulted h hc (congrArg Outcome.fault ht)⟩

theorem runWithin_eq_limit_iff {l : Nat} :
    m.runWithin limit = { machine := s, fault := some (.stepLimit l) } ↔
      l = limit ∧ Takes limit m s ∧ s.completed = false := by
  rw [runWithin_eq_iff]
  constructor
  · rintro (⟨k, -, h⟩ | ⟨t, h, hc, ht⟩)
    · exact absurd rfl (h.fault_ne l)
    · cases ht
      exact ⟨rfl, h, hc⟩
  · rintro ⟨rfl, h, hc⟩
    exact Or.inr ⟨s, h, hc, rfl⟩

theorem exists_reaches_runWithin (limit : Nat) (m : Machine) :
    ∃ s, Reaches m s ∧ (Stops s (m.runWithin limit) ∨
      s.completed = false ∧ m.runWithin limit = { machine := s, fault := some (.stepLimit limit) }) := by
  obtain ⟨s, h, ⟨hc, -, ho⟩ | ⟨hc, -, ⟨f, hf⟩, ho⟩ | ⟨hc, -, ho⟩⟩ := exists_takes_runWithin limit m
  · exact ⟨s, h.reaches, Or.inl (ho ▸ .completed hc)⟩
  · exact ⟨s, h.reaches, Or.inl (ho ▸ .faulted hc hf)⟩
  · exact ⟨s, h.reaches, Or.inr ⟨hc, ho⟩⟩

/-- A run with some limit meets a fault, other than the limit itself, just if it comes to a machine whose step does. -/
theorem exists_runWithin_fault_iff (hl : ∀ l, f ≠ .stepLimit l) :
    (∃ limit, (m.runWithin limit).fault = some f) ↔
      ∃ s, Reaches m s ∧ s.completed = false ∧ s.step.fault = some f := by
  constructor
  · rintro ⟨limit, hf⟩
    have ho : m.runWithin limit = { machine := (m.runWithin limit).machine, fault := some f } := by rw [← hf]
    obtain ⟨k, -, t, h, hc, ht⟩ := (runWithin_eq_fault_iff hl).mp ho
    exact ⟨t, h.reaches, hc, congrArg Outcome.fault ht⟩
  · rintro ⟨s, hr, hc, hf⟩
    obtain ⟨k, h⟩ := hr.exists_takes
    have ho := (EndsIn.faulted h hc hf).runWithin_eq (Nat.le_refl _)
    exact ⟨k + 1, (congrArg Outcome.fault ho).trans hf⟩

/-! ### Other limits -/

theorem go_eq_cutAt (k limit limit' : Nat) (m : Machine) :
    runWithin.go limit' k m = (runWithin.go limit k m).cutAt limit' := by
  induction k generalizing m with
  | zero =>
    cases hc : m.completed with
    | true =>
      rw [go_of_completed hc, go_of_completed hc]
      rfl
    | false =>
      rw [go_zero hc, go_zero hc]
      rfl
  | succ k ih =>
    cases hc : m.completed with
    | true =>
      rw [go_of_completed hc, go_of_completed hc]
      rfl
    | false =>
      rw [go_succ hc, go_succ hc, ih]
      cases hf : m.step.fault with
      | none => rfl
      | some f =>
        -- A step never meets the limit, so there is none to replace.
        have own := step_fault_ne_stepLimit m
        rw [Option.isSome_some, if_pos rfl, if_pos rfl]
        unfold Outcome.cutAt
        rw [hf]
        cases f with
        | stepLimit l => exact absurd hf (own l)
        | undecodable _ _ => rfl
        | counterOutside _ _ => rfl
        | addressOutside _ _ => rfl

/-- A run that is cut off and goes on is the run with both limits together. -/
theorem runWithin_add (h : m.runWithin j = { machine := s, fault := some (.stepLimit j) }) (k : Nat) :
    m.runWithin (j + k) = (s.runWithin k).cutAt (j + k) := by
  obtain ⟨-, h, -⟩ := runWithin_eq_limit_iff.mp h
  exact h.go_eq.trans (go_eq_cutAt k k (j + k) s)

theorem stepsUntil_runWithin (limit : Nat) (m : Machine) : StepsUntil m limit (m.runWithin limit) where
  ok _ := runWithin_eq_ok_iff
  failed _ _ hl := runWithin_eq_fault_iff hl
  cut _ _ := runWithin_eq_limit_iff
  counted s l h room := by
    obtain ⟨-, h, -⟩ := runWithin_eq_limit_iff.mp h
    exact h.toNat_steps room

/-- A run without a limit ends as it does with some limit, but for being cut off. -/
theorem exists_run_iff_exists_runWithin :
    (∃ fuel, m.run fuel = some o) ↔ ∃ n, m.runWithin n = o ∧ ∀ l, o.fault ≠ some (.stepLimit l) := by
  rw [exists_run_eq_some_iff, ends_iff_endsIn]
  constructor
  · rintro ⟨k, h⟩
    exact ⟨k, h.runWithin_eq (Nat.le_refl k), h.fault_ne⟩
  · rintro ⟨n, h, hl⟩
    obtain ⟨k, -, h⟩ := (runWithin_eq_iff_endsIn hl).mp h
    exact ⟨k, h⟩

/-- A limit of 64 bits is enough where the counter of the steps has room for all calls of `step`. -/
theorem exists_limit_of_run (room : ∀ k, EndsIn m k o → m.steps.toNat + k < UInt64.size)
    (h : ∃ fuel, m.run fuel = some o) :
    ∃ n : UInt64, m.runWithin n.toNat = o ∧ ∀ l, o.fault ≠ some (.stepLimit l) := by
  rw [exists_run_eq_some_iff, ends_iff_endsIn] at h
  obtain ⟨k, h⟩ := h
  have small : k < UInt64.size := Nat.lt_of_le_of_lt (Nat.le_add_left _ _) (room k h)
  refine ⟨UInt64.ofNat k, ?_, h.fault_ne⟩
  rw [UInt64.toNat_ofNat', Nat.mod_eq_of_lt small]
  exact h.runWithin_eq (Nat.le_refl k)

theorem runWithin_eq_of_le (hl : ∀ l, o.fault ≠ some (.stepLimit l)) (hle : j ≤ k) (h : m.runWithin j = o) :
    m.runWithin k = o := by
  obtain ⟨i, hi, h⟩ := (runWithin_eq_iff_endsIn hl).mp h
  exact h.runWithin_eq (Nat.le_trans hi hle)

/-- A run with a limit does what the steps one by one do until the first one stops. What it leaves when it is cut off is
    where another run goes on. A run without a limit is a run with a limit that is large enough, one of 64 bits if the
    counter of the steps has room for all calls of `step`. -/
theorem runWithin_agrees (m : Machine) :
    (∀ n, StepsUntil m n (m.runWithin n)) ∧
    (∀ (a b : UInt64) (l : Nat), a.toNat + b.toNat < UInt64.size → (m.runWithin a.toNat).fault = some (.stepLimit l) →
      m.runWithin (a + b).toNat = ((m.runWithin a.toNat).machine.runWithin b.toNat).cutAt (a + b).toNat) ∧
    ∀ o : Outcome,
      ((∃ fuel, m.run fuel = some o) ↔ ∃ n, m.runWithin n = o ∧ ∀ l, o.fault ≠ some (.stepLimit l)) ∧
      ((∀ k, EndsIn m k o → m.steps.toNat + k < UInt64.size) → ((∃ fuel, m.run fuel = some o) ↔
        ∃ n : UInt64, m.runWithin n.toNat = o ∧ ∀ l, o.fault ≠ some (.stepLimit l))) ∧
      ((∀ l, o.fault ≠ some (.stepLimit l)) → ∀ n n', n ≤ n' → m.runWithin n = o → m.runWithin n' = o) := by
  refine ⟨fun n => stepsUntil_runWithin n m, ?_, ?_⟩
  · intro a b l hs hl
    have cut : m.runWithin a.toNat = { machine := (m.runWithin a.toNat).machine, fault := some (.stepLimit l) } := by
      rw [← hl]
    obtain ⟨rfl, -, -⟩ := runWithin_eq_limit_iff.mp cut
    have sum : (a + b).toNat = a.toNat + b.toNat := by
      rw [UInt64.toNat_add]
      exact Nat.mod_eq_of_lt hs
    rw [sum]
    exact runWithin_add cut b.toNat
  · intro o
    refine ⟨exists_run_iff_exists_runWithin, fun room => ⟨exists_limit_of_run room, ?_⟩, ?_⟩
    · rintro ⟨n, h⟩
      exact exists_run_iff_exists_runWithin.mpr ⟨n.toNat, h⟩
    · intro hl n n' hle h
      exact runWithin_eq_of_le hl hle h

theorem runWithin_agrees_load_halt :
    ∃ m, load .checked [262149, 0] [] 0 = some m ∧ StepsUntil m 1 (m.runWithin 1) ∧
      m.runWithin 2 = ((m.runWithin 1).machine.runWithin 1).cutAt 2 ∧
      ∃ s : Machine, s.acc = 5 ∧ (∃ fuel, m.run fuel = some { machine := s }) ∧ m.runWithin 7 = { machine := s } := by
  obtain ⟨m, made, cut, zero, s, row, halted, acc⟩ : ∃ m, load .checked [262149, 0] [] 0 = some m ∧
      (m.runWithin 1).fault = some (.stepLimit 1) ∧ m.steps = 0 ∧
        ∃ s, Takes 2 m s ∧ s.completed = true ∧ s.acc = 5 :=
    ⟨{ registers := #[262149, 0], programLength := 2 }, by rfl, by rfl, rfl, _,
      .step rfl (by rfl) (.step (by rfl) (by rfl) .none), by rfl, by rfl⟩
  obtain ⟨bounded, sum, ends⟩ := runWithin_agrees m
  obtain ⟨-, runs, larger⟩ := ends { machine := s }
  have clean : ∀ l, ({ machine := s } : Outcome).fault ≠ some (.stepLimit l) := fun _ => nofun
  have two : m.runWithin 2 = { machine := s } := ((bounded 2).ok s).mpr ⟨2, Nat.le_refl 2, row, halted⟩
  refine ⟨m, made, bounded 1, sum 1 1 1 (by decide) cut, s, acc, (runs ?_).mpr ⟨2, two, clean⟩,
    larger clean 2 7 (by decide) two⟩
  intro k hk
  rw [zero]
  exact Nat.lt_of_le_of_lt (Nat.add_le_add_left (hk.le_succ row (.completed halted)) _) (by decide)

end Machine
end StoredProgram
