import StoredProgram.Proofs.Machine.Step

/-! # Faults of a step

On its way from the program counter to the effect of an instruction, a step stops at the first obstacle: the
program counter is outside, the word there is no instruction, or an address that the instruction needs is outside
(`Faults`). Until then it has changed nothing but the program counter, and that only if a word was fetched
(`step_fault_iff`). -/

namespace StoredProgram.Machine

variable {m s : Machine} {mode : Mode} {v r address : Int} {w : Word} {f : Fault} {i : Instruction}

/-- An address at which there is no register. -/
def Outside (m : Machine) (address : Int) : Prop := address < 0 ∨ m.size ≤ address

instance (m : Machine) (address : Int) : Decidable (m.Outside address) :=
  inferInstanceAs (Decidable (address < 0 ∨ (m.size : Int) ≤ address))

/-- The operand that a mode makes of a value, given the registers that it reads. -/
inductive Resolves (m : Machine) : Mode → Int → Int → Prop
  | immediate {v : Int} : Resolves m .immediate v v
  | direct {v : Int} {w : Word} (hw : m.register? v = some w) : Resolves m .direct v w.toInt
  | indirect {v : Int} {p w : Word} (hp : m.register? v = some p) (hw : m.register? p.toInt = some w) :
    Resolves m .indirect v w.toInt

/-- The first address outside that an instruction needs. An address comes up only when those before it are inside:
    the value, the pointer held there, and where a store goes. -/
inductive FirstOutside (m : Machine) (i : Instruction) : Int → Prop
  | value (hm : i.mode ≠ .immediate) (h : m.Outside i.value) : FirstOutside m i i.value
  | pointer {p : Word} (hm : i.mode = .indirect) (hp : m.register? i.value = some p) (h : m.Outside p.toInt) :
    FirstOutside m i p.toInt
  | target {r : Int} (ho : i.operation = .store) (hr : Resolves m i.mode i.value r) (h : m.Outside r) :
    FirstOutside m i r

/-- The machine that a step leaves when it meets a fault, and the fault. -/
inductive Faults (m : Machine) : Machine → Fault → Prop
  | counter (h : m.Outside m.pc) : Faults m m (.counterOutside m.pc m.size)
  | word {w : Word} {e : DecodeError} (hw : m.register? m.pc = some w) (hd : Instruction.decode w = .error e) :
    Faults m { m with pc := m.pc + 1 } (.undecodable m.pc e)
  | access {w : Word} {i : Instruction} {address : Int} (hw : m.register? m.pc = some w)
    (hd : Instruction.decode w = .ok i) (h : FirstOutside m i address) :
    Faults m { m with pc := m.pc + 1 } (.addressOutside address m.size)

/-! ### Data accesses -/

theorem register?_eq_none_iff_outside : m.register? address = none ↔ m.Outside address :=
  register?_eq_none_iff

theorem not_outside_of_register? (h : m.register? address = some w) : ¬m.Outside address := by
  rw [← register?_eq_none_iff_outside, h]
  exact nofun

theorem read_eq_error_iff : m.read address = .error f ↔ m.Outside address ∧ f = .addressOutside address m.size := by
  rw [← register?_eq_none_iff_outside]
  constructor
  · intro h
    refine ⟨?_, of_read_eq_error h⟩
    cases hr : m.register? address with
    | none => rfl
    | some w =>
      rw [read_eq_ok_iff.mpr hr] at h
      cases h
  · rintro ⟨h, rfl⟩
    unfold read
    rw [h]

theorem operand_eq_ok_iff : m.operand mode v = .ok r ↔ Resolves m mode v r := by
  constructor
  · intro h
    cases mode with
    | immediate =>
      cases h
      exact .immediate
    | direct =>
      obtain ⟨w, hw, rfl⟩ := map_eq_ok_iff.mp h
      exact .direct (read_eq_ok_iff.mp hw)
    | indirect =>
      obtain ⟨p, hp, h⟩ := bind_eq_ok_iff.mp h
      obtain ⟨w, hw, rfl⟩ := map_eq_ok_iff.mp h
      exact .indirect (read_eq_ok_iff.mp hp) (read_eq_ok_iff.mp hw)
  · intro h
    cases h with
    | immediate => rfl
    | direct hw => exact map_eq_ok_iff.mpr ⟨_, read_eq_ok_iff.mpr hw, rfl⟩
    | indirect hp hw =>
      exact bind_eq_ok_iff.mpr ⟨_, read_eq_ok_iff.mpr hp, map_eq_ok_iff.mpr ⟨_, read_eq_ok_iff.mpr hw, rfl⟩⟩

theorem operand_eq_error_iff :
    m.operand mode v = .error f ↔ ∃ address, f = .addressOutside address m.size ∧
      ((mode ≠ .immediate ∧ m.Outside v ∧ address = v) ∨
        ∃ p, mode = .indirect ∧ m.register? v = some p ∧ m.Outside p.toInt ∧ address = p.toInt) := by
  constructor
  · intro h
    cases mode with
    | immediate => cases h
    | direct =>
      obtain ⟨hout, rfl⟩ := read_eq_error_iff.mp (map_eq_error_iff.mp h)
      exact ⟨v, rfl, Or.inl ⟨nofun, hout, rfl⟩⟩
    | indirect =>
      rcases bind_eq_error_iff.mp h with h | ⟨p, hp, h⟩
      · obtain ⟨hout, rfl⟩ := read_eq_error_iff.mp h
        exact ⟨v, rfl, Or.inl ⟨nofun, hout, rfl⟩⟩
      · obtain ⟨hout, rfl⟩ := read_eq_error_iff.mp (map_eq_error_iff.mp h)
        exact ⟨p.toInt, rfl, Or.inr ⟨p, rfl, read_eq_ok_iff.mp hp, hout, rfl⟩⟩
  · rintro ⟨address, rfl, ⟨hm, hout, rfl⟩ | ⟨p, rfl, hp, hout, rfl⟩⟩
    · have hr := read_eq_error_iff.mpr ⟨hout, rfl⟩
      cases mode with
      | immediate => exact absurd rfl hm
      | direct => exact map_eq_error_iff.mpr hr
      | indirect => exact bind_eq_error_iff.mpr (Or.inl hr)
    · have hr := read_eq_error_iff.mpr ⟨hout, rfl⟩
      exact bind_eq_error_iff.mpr (Or.inr ⟨p, read_eq_ok_iff.mpr hp, map_eq_error_iff.mpr hr⟩)

theorem lookUp_eq_error_iff {e : Effect} :
    m.lookUp e = .error f ↔ ∃ address, e = .store address ∧ m.Outside address ∧ f = .addressOutside address m.size := by
  cases e with
  | store address =>
    simp only [lookUp, map_eq_error_iff, read_eq_error_iff, Effect.store.injEq, exists_eq_left']
  | halt => simp [lookUp]
  | accumulate w => simp [lookUp]
  | branch address => simp [lookUp]
  | idle => simp [lookUp]

/-- An instruction meets a fault just if it needs an address outside, and then it is the first one. -/
theorem effect_eq_error_iff (hi : Instruction.decode w = .ok i) :
    m.effect w = .error f ↔ ∃ address, f = .addressOutside address m.size ∧ FirstOutside m i address := by
  rw [effect_of_decode hi, bind_eq_error_iff, operand_eq_error_iff]
  simp only [operand_eq_ok_iff, lookUp_eq_error_iff, Operation.effect_eq_store_iff]
  constructor
  · rintro (⟨address, rfl, ⟨hm, hout, rfl⟩ | ⟨p, hm, hp, hout, rfl⟩⟩ | ⟨r, hr, _, ⟨ho, rfl⟩, hout, rfl⟩)
    · exact ⟨_, rfl, .value hm hout⟩
    · exact ⟨_, rfl, .pointer hm hp hout⟩
    · exact ⟨_, rfl, .target ho hr hout⟩
  · rintro ⟨address, rfl, h⟩
    cases h with
    | value hm hout => exact Or.inl ⟨_, rfl, Or.inl ⟨hm, hout, rfl⟩⟩
    | pointer hm hp hout => exact Or.inl ⟨_, rfl, Or.inr ⟨_, hm, hp, hout, rfl⟩⟩
    | target ho hr hout => exact Or.inr ⟨_, hr, _, ⟨ho, rfl⟩, hout, rfl⟩

/-! ### Steps -/

theorem step_of_faults (hc : m.completed = false) (h : Faults m s f) :
    m.step = { machine := s, fault := some f } := by
  cases h with
  | counter h => exact step_of_outside hc (register?_eq_none_iff_outside.mpr h)
  | word hw hd =>
    refine step_of_error hc hw ?_
    unfold effect
    rw [hd]
  | access hw hd h => exact step_of_error hc hw ((effect_eq_error_iff hd).mpr ⟨_, rfl, h⟩)

theorem faults_of_step (h : m.step = { machine := s, fault := some f }) : m.completed = false ∧ Faults m s f := by
  cases hc : m.completed with
  | true =>
    rw [step_of_completed hc] at h
    cases h
  | false =>
    refine ⟨rfl, ?_⟩
    cases hr : m.register? m.pc with
    | none =>
      rw [step_of_outside hc hr] at h
      cases h
      exact .counter (register?_eq_none_iff_outside.mp hr)
    | some w =>
      cases he : m.effect w with
      | ok e =>
        rw [step_of_ok hc hr he] at h
        cases h
      | error f' =>
        rw [step_of_error hc hr he] at h
        cases h
        cases hd : Instruction.decode w with
        | ok i =>
          obtain ⟨address, rfl, ho⟩ := (effect_eq_error_iff hd).mp he
          exact .access hr hd ho
        | error e =>
          unfold effect at he
          rw [hd] at he
          cases he
          exact .word hr hd

theorem step_eq_of_fault (h : m.step.fault = some f) : m.step = { machine := m.step.machine, fault := some f } := by
  rw [← h]

theorem step_fault_ne_stepLimit (m : Machine) (limit : Nat) : m.step.fault ≠ some (.stepLimit limit) := by
  intro h
  obtain ⟨-, hf⟩ := faults_of_step (step_eq_of_fault h)
  generalize m.step.machine = s at hf
  cases hf

theorem step_fault_eq_undecodable_iff (hc : m.completed = false) {e : DecodeError} :
    m.step.fault = some (.undecodable address e) ↔
      m.pc = address ∧ ∃ w, m.register? address = some w ∧ Instruction.decode w = .error e := by
  constructor
  · intro h
    obtain ⟨-, hf⟩ := faults_of_step (step_eq_of_fault h)
    generalize m.step.machine = s at hf
    cases hf with
    | word hw hd => exact ⟨rfl, _, hw, hd⟩
  · rintro ⟨rfl, w, hw, hd⟩
    exact congrArg Outcome.fault (step_of_faults hc (.word hw hd))

theorem step_counterOutside_iff :
    (∃ pc size, m.step.fault = some (.counterOutside pc size)) ↔ m.completed = false ∧ m.Outside m.pc := by
  constructor
  · rintro ⟨pc, size, h⟩
    obtain ⟨hc, hf⟩ := faults_of_step (step_eq_of_fault h)
    generalize m.step.machine = s at hf
    cases hf with
    | counter hout => exact ⟨hc, hout⟩
  · rintro ⟨hc, hout⟩
    exact ⟨m.pc, m.size, congrArg Outcome.fault (step_of_faults hc (.counter hout))⟩

theorem Faults.frame (h : Faults m s f) : s = { m with pc := s.pc } := by
  cases h <;> rfl

theorem Faults.pc_eq (h : Faults m s f) (hout : m.Outside m.pc) : s.pc = m.pc := by
  cases h with
  | counter _ => rfl
  | word hw _ => exact absurd hout (not_outside_of_register? hw)
  | access hw _ _ => exact absurd hout (not_outside_of_register? hw)

theorem Faults.pc_eq_add_one (h : Faults m s f) (hin : ¬m.Outside m.pc) : s.pc = m.pc + 1 := by
  cases h with
  | counter hout => exact absurd hout hin
  | word _ _ => rfl
  | access _ _ _ => rfl

/-- Going on from a register does not wrap around, as long as a word can count the registers. -/
theorem toInt_add_one_of_not_outside (h : ¬m.Outside m.pc) (hs : (m.size : Int) ≤ Int64.maxValue.toInt) {c : Word}
    (hc : c.toInt = m.pc) : (c + 1).toInt = m.pc + 1 := by
  unfold Outside at h
  have top : Int64.maxValue.toInt = 9223372036854775807 := rfl
  rw [Int64.toInt_add, hc]
  show (m.pc + 1).bmod (2 ^ 64) = m.pc + 1
  exact Int.bmod_eq_of_le (by omega) (by omega)

/-- A step meets a fault just if one of the obstacles is in its way, the first one, and never the limit of a run.
    What it leaves is the machine as it was; only the program counter has gone on by one if it was that of a register,
    as an integer and as a word alike. -/
theorem step_fault_iff (m : Machine) :
    (∀ s f, m.step = { machine := s, fault := some f } ↔ m.completed = false ∧ Faults m s f) ∧
    ((∃ pc size, m.step.fault = some (.counterOutside pc size)) ↔ m.completed = false ∧ m.Outside m.pc) ∧
    (∀ limit, m.step.fault ≠ some (.stepLimit limit)) ∧
    ∀ s f, m.step = { machine := s, fault := some f } →
      s = { m with pc := s.pc } ∧ (m.Outside m.pc → s.pc = m.pc) ∧
        (¬m.Outside m.pc → s.pc = m.pc + 1 ∧
          ((m.size : Int) ≤ Int64.maxValue.toInt → ∀ c : Word, c.toInt = m.pc → (c + 1).toInt = s.pc)) := by
  refine ⟨fun s f => ⟨faults_of_step, fun h => step_of_faults h.1 h.2⟩, step_counterOutside_iff,
    step_fault_ne_stepLimit m, ?_⟩
  intro s f h
  obtain ⟨-, hf⟩ := faults_of_step h
  refine ⟨hf.frame, hf.pc_eq, fun hin => ⟨hf.pc_eq_add_one hin, ?_⟩⟩
  intro hs c hc
  rw [hf.pc_eq_add_one hin]
  exact toInt_add_one_of_not_outside hin hs hc

theorem step_fault_iff_store_behind_pointer :
    ∃ m s, load .checked [655362, 0] [-1] 0 = some m ∧
      m.step = { machine := s, fault := some (.addressOutside (-1) 3) } ∧ s = { m with pc := s.pc } ∧ s.pc = 1 ∧
        ((0 : Word) + 1).toInt = s.pc := by
  have made : load .checked [655362, 0] [-1] 0 =
      some { registers := #[655362, 0, -1], programLength := 2 } := by rfl
  have h : ({ registers := #[655362, 0, -1], programLength := 2 } : Machine).step =
      { machine := { registers := #[655362, 0, -1], programLength := 2, pc := 1 },
        fault := some (.addressOutside (-1) 3) } := by rfl
  obtain ⟨frame, -, fetched⟩ := (step_fault_iff { registers := #[655362, 0, -1], programLength := 2 }).2.2.2 _ _ h
  obtain ⟨pc, room⟩ := fetched (by decide)
  exact ⟨_, _, made, h, frame, pc, room (by decide) 0 rfl⟩

end StoredProgram.Machine
