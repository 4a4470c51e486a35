import StoredProgram.Proofs.Machine.ControlFlow

/-! # Programs that go forward

A program whose branches go forward, whose stores go behind it, and whose end is a halt passes each of its instructions
at most once. Every step moves the program counter up (`Underway.step`), so no run takes more steps than there are
instructions (`Underway.takes`), and it stops by a halt or by a data access outside. That holds of any machine that the
program has been loaded into, but for one thing: if the registers have been cut off within the program, the run may come
to the cut. -/

namespace StoredProgram

/-- Branches go forward and into the program, stores go behind it, and the end is a halt. -/
structure Forward (is : List Instruction) : Prop where
  branches : ∀ (index : Nat) (h : index < is.length), is[index].operation.isBranch = true →
    is[index].mode = .immediate ∧ index < is[index].value ∧ is[index].value < is.length
  stores : ∀ i ∈ is, i.operation = .store → i.mode = .immediate ∧ is.length ≤ i.value
  last : ∃ i, is.getLast? = some i ∧ i.operation = .halt

theorem Forward.confined {is : List Instruction} (h : Forward is) : Confined is where
  stores := h.stores
  branches i hi hb := by
    obtain ⟨index, hlt, rfl⟩ := List.mem_iff_getElem.mp hi
    obtain ⟨hm, -, hv⟩ := h.branches index hlt hb
    exact ⟨hm, hv⟩
  last := by
    obtain ⟨i, hi, ho⟩ := h.last
    exact ⟨i, hi, Or.inl ho⟩

/-- A run has halted after at most so many steps, or needed a register outside. -/
def Outcome.HaltsWithin (limit : Nat) (o : Outcome) : Prop :=
  (o.fault = none ∧ o.machine.completed = true ∧ o.machine.steps.toNat ≤ limit) ∨
    ∃ address size, o.fault = some (.addressOutside address size)

namespace Machine

variable {is : List Instruction} {ws initial : List Word} {blank : UInt64} {m s : Machine} {f : Fault} {k limit : Nat}

/-- The registers of the program hold its words as far as there are registers, and the program counter is in the program
    until the machine has completed. -/
structure Underway (ws : List Word) (m : Machine) : Prop where
  code : ∀ (index : Nat) (w : Word), index < ws.length → m.register? index = some w → ws[index]? = some w
  counter : m.completed = false → 0 ≤ m.pc ∧ m.pc < ws.length

/-! ### Steps -/

section Steps

variable (hw : List.Forall₂ (fun i w => i.encode = .ok w) is ws)
include hw

theorem Underway.fetch (h : Underway ws m) (hr : m.completed = false) {w : Word} (hreg : m.register? m.pc = some w) :
    ∃ (index : Nat) (hi : index < is.length), m.pc = index ∧ Instruction.decode w = .ok is[index] := by
  obtain ⟨h0, hlt⟩ := h.counter hr
  obtain ⟨index, hpc⟩ := Int.eq_ofNat_of_zero_le h0
  rw [hpc] at hlt hreg
  have here : ws[index]? = some w := h.code index w (Int.ofNat_lt.mp hlt) hreg
  obtain ⟨i, hi, hd⟩ := Instruction.exists_decode_of_getElem? hw here
  obtain ⟨hki, rfl⟩ := List.getElem?_eq_some_iff.mp hi
  exact ⟨index, hki, hpc, hd⟩

theorem Underway.step_fault (h : Underway ws m) (hr : m.completed = false) (hf : m.step.fault = some f) :
    (∃ address, f = .addressOutside address m.size) ∨ f = .counterOutside m.pc m.size ∧ m.size ≤ m.pc := by
  obtain ⟨-, faults⟩ := faults_of_step (step_eq_of_fault hf)
  generalize m.step.machine = s at faults
  cases faults with
  | counter hout =>
    obtain ⟨h0, -⟩ := h.counter hr
    exact Or.inr ⟨rfl, hout.resolve_left (Int.not_lt.mpr h0)⟩
  | word hreg hd =>
    obtain ⟨index, hi, -, hd'⟩ := h.fetch hw hr hreg
    cases hd.symm.trans hd'
  | access _ _ _ => exact Or.inl ⟨_, rfl⟩

variable (hc : Forward is)
include hc

omit hw in
/-- What does not branch goes on to the next instruction, and what branches goes further still. -/
theorem lt_pc_apply {index : Nat} (hi : index < is.length) (hpc : m.pc = index) {e : Effect} {v : Int}
    (hv : m.operand is[index].mode is[index].value = .ok v) (he : is[index].operation.effect m.acc v = e) :
    m.pc < (m.apply e).pc := by
  rw [pc_apply]
  cases e with
  | branch address =>
    obtain ⟨hop, rfl⟩ := Operation.of_effect_eq_branch he
    obtain ⟨hm, hlt, -⟩ := hc.branches index hi hop
    rw [hm] at hv
    cases hv
    exact hpc ▸ hlt
  | halt | accumulate | store | idle => exact Int.lt_succ m.pc

/-- A step leaves what there is of the program as it is, stays in the program unless it halts, and moves the program
    counter up. -/
theorem Underway.step (h : Underway ws m) (hr : m.completed = false) (hf : m.step.fault = none) :
    Underway ws m.step.machine ∧ m.pc < m.step.machine.pc := by
  obtain ⟨w, e, hreg, he, hs⟩ := exists_apply_of_step hr hf
  obtain ⟨index, hi, hpc, hd⟩ := h.fetch hw hr hreg
  obtain ⟨v, hv, he, hst⟩ := (effect_eq_ok_iff hd).mp he
  rw [hs]
  refine ⟨⟨fun index' w' hlt hw' => h.code index' w' hlt ?_, counter_apply hw hc.confined hi hpc hv he⟩,
    lt_pc_apply hc hi hpc hv he⟩
  rw [← hw', register?_apply_of_lt hw hc.confined (List.getElem_mem hi) hv he hst hlt]

/-! ### Runs -/

theorem Underway.takes (h : Underway ws m) (hk : Takes k m s) : Underway ws s ∧ m.pc + k ≤ s.pc := by
  induction hk with
  | none => exact ⟨h, by omega⟩
  | @step k m s hr hf _ ih =>
    obtain ⟨next, hlt⟩ := h.step hw hc hr hf
    obtain ⟨there, hle⟩ := ih next
    exact ⟨there, by omega⟩

/-- From the beginning of a program, fewer steps than it has instructions lead to a machine that goes on. -/
theorem Underway.lt_length (h : Underway ws m) (h0 : m.pc = 0) (hk : Takes k m s) (hr : s.completed = false) :
    k < ws.length := by
  obtain ⟨there, hle⟩ := h.takes hw hc hk
  obtain ⟨-, hlt⟩ := there.counter hr
  omega

end Steps

/-- A run from the beginning of a program ends within the steps that a limit of its length allows. -/
theorem Underway.endsIn_runWithin (hw : List.Forall₂ (fun i w => i.encode = .ok w) is ws) (hc : Forward is)
    (h : Underway ws m) (h0 : m.pc = 0) (hs : m.steps = 0) : ∃ k, EndsIn m k (m.runWithin ws.length) ∧
      ((m.runWithin ws.length).HaltsWithin ws.length ∨
        ∃ pc : Int, m.size ≤ pc ∧ pc < ws.length ∧
          (m.runWithin ws.length).fault = some (.counterOutside pc m.size)) := by
  obtain ⟨s, hk, ⟨hr, hle, ho⟩ | ⟨hr, -, ⟨f, hf⟩, ho⟩ | ⟨hr, he, -⟩⟩ := exists_takes_runWithin ws.length m
  · rw [ho]
    refine ⟨_, .completed hk hr, Or.inl (Or.inl ⟨rfl, hr, ?_⟩)⟩
    rw [hk.steps_eq, hs, UInt64.zero_add, UInt64.toNat_ofNat']
    exact Nat.le_trans (Nat.mod_le ..) hle
  · have there := (h.takes hw hc hk).1
    rw [ho]
    refine ⟨_, .faulted hk hr hf, ?_⟩
    rcases there.step_fault hw hr hf with ⟨address, rfl⟩ | ⟨rfl, hout⟩
    · exact Or.inl (Or.inr ⟨address, _, hf⟩)
    · rw [← hk.reaches.size_eq]
      exact Or.inr ⟨s.pc, hout, (there.counter hr).2, hf⟩
  · exact absurd (h.lt_length hw hc h0 hk hr) (Nat.not_lt.mpr (Nat.le_of_eq he.symm))

theorem underway_load {counting : Counting} (hm : load counting ws initial blank = some m) (hne : ws ≠ []) :
    Underway ws m where
  code _ _ hi h := getElem?_of_register?_load hm h hi
  counter _ := by
    rw [pc_load hm]
    exact ⟨Int.le_refl 0, Int.ofNat_lt.mpr (List.length_pos_iff.mpr hne)⟩

end Machine

namespace Assembly

open Machine

/-- An assembled program that goes forward ends in as many steps as it has instructions at most, on any machine that it
    has been loaded into with any initial words and blank registers: the limit of steps is never met, and a run without
    a limit ends as well. The end is a halt or a data access outside. Only where the number of registers has wrapped
    around to less than the program, the program counter may come to the end of the registers before. Where additions
    are checked it does not wrap around, and there is a machine just if memory has all the registers. -/
theorem run_of_forward {source : Text} {a : Assembly} (h : ofSource source = .ok a) (hf : Forward a.instructions)
    (initial : List Word) (blank : UInt64) :
    (∀ (counting : Counting) (m : Machine), load counting a.words initial blank = some m →
      (∀ limit, (runWithin a.words.length m).fault ≠ some (.stepLimit limit)) ∧
      ∃ o, runWithin a.words.length m = o ∧ (∃ fuel, run fuel m = some o) ∧
        (a.words.length + initial.length + blank.toNat < UInt64.size → o.HaltsWithin a.words.length) ∧
        (o.HaltsWithin a.words.length ∨ ∃ (size : Nat) (pc : Int),
          size = (a.words.length + initial.length + blank.toNat) % UInt64.size ∧ size ≤ pc ∧ pc < a.words.length ∧
            o.fault = some (.counterOutside pc size))) ∧
    ((∃ m, load .checked a.words initial blank = some m) ↔
      a.words.length + initial.length + blank.toNat < memoryLimit) := by
  have hw := (ofSource_eq_ok_iff.mp h).words
  have hne : a.words ≠ [] := by
    obtain ⟨i, hi, -⟩ := hf.last
    intro he
    rw [he, List.forall₂_nil_right_iff] at hw
    rw [hw] at hi
    cases hi
  refine ⟨fun counting m hm => ?_, exists_load_checked_iff⟩
  obtain ⟨k, ends, how⟩ := (underway_load hm hne).endsIn_runWithin hw hf (pc_load hm) (steps_load hm)
  rw [size_load hm] at how
  refine ⟨ends.fault_ne, _, rfl, exists_run_eq_some_iff.mpr (ends_iff_endsIn.mpr ⟨k, ends⟩), fun room => ?_, ?_⟩
  · refine how.resolve_right ?_
    rintro ⟨pc, hout, hlt, -⟩
    rw [Nat.mod_eq_of_lt room] at hout
    omega
  · exact how.imp_right fun ⟨pc, hout, hlt, hf⟩ => ⟨_, pc, rfl, hout, hlt, hf⟩

theorem run_of_forward_skip :
    Forward [⟨.jump, .immediate, 2⟩, ⟨.load, .immediate, 1⟩, .halt] ∧
      ∃ m, load .checked [3932162, 262145, 0] [5] 1 = some m ∧ (runWithin 3 m).HaltsWithin 3 := by
  have h : ofSource "JMP @end\nLDA #1\n@end: HLT".toList =
      .ok ⟨[⟨.jump, .immediate, 2⟩, ⟨.load, .immediate, 1⟩, .halt], [3932162, 262145, 0],
        ⟨[⟨"end".toList, 2⟩], by simp, by simp⟩, .empty⟩ := by rfl
  have hf : Forward [⟨.jump, .immediate, 2⟩, ⟨.load, .immediate, 1⟩, .halt] :=
    ⟨by decide, by decide, .halt, rfl, rfl⟩
  obtain ⟨runs, made⟩ := run_of_forward h hf [5] 1
  obtain ⟨m, hm⟩ := made.mpr (by decide)
  obtain ⟨-, o, rfl, -, halts, -⟩ := runs .checked m hm
  exact ⟨hf, m, hm, halts (by decide)⟩

/-- With so many blank registers, the program is not loaded if additions are checked. If they wrap around, its halt is
    cut off. -/
theorem run_of_cut_halt :
    ∃ a, ofSource "LDA #7\nHLT".toList = .ok a ∧ Forward a.instructions ∧
      load .checked a.words [] 18446744073709551615 = none ∧
      ∃ m o, load .wrapping a.words [] 18446744073709551615 = some m ∧ runWithin 2 m = o ∧
        o.fault = some (.counterOutside 1 1) ∧ ¬o.HaltsWithin 2 := by
  have cut : (runWithin 2 { registers := #[262151], programLength := 2 }).fault = some (.counterOutside 1 1) := by rfl
  refine ⟨⟨[⟨.load, .immediate, 7⟩, .halt], [262151, 0], .empty, .empty⟩, by rfl,
    ⟨by decide, by decide, .halt, rfl, rfl⟩, by rfl, _, _, by rfl, rfl, cut, ?_⟩
  rintro (⟨halted, -⟩ | ⟨address, size, outside⟩)
  · cases halted.symm.trans cut
  · cases outside.symm.trans cut

end Assembly
end StoredProgram
