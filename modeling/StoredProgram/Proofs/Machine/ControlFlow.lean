import StoredProgram.Proofs.Assembly.Passes
import StoredProgram.Proofs.Machine.Limit
import StoredProgram.Proofs.Machine.Load

/-! # Programs that keep to themselves

A program whose stores go behind it, whose branches go into it, and which ends with a halt or a jump never
changes itself and never leaves itself. The invariant is `Intact`: the first registers hold the words of the
program, and the program counter is the address of one of them as long as the machine goes on. Every step
keeps it (`Intact.step`), so the only faults of a run are data accesses outside and the limit of steps. -/

namespace StoredProgram

/-- Stores go behind the program, branches into it, and the end is a halt or a jump. -/
structure Confined (is : List Instruction) : Prop where
  stores : ∀ i ∈ is, i.operation = .store → i.mode = .immediate ∧ is.length ≤ i.value
  branches : ∀ i ∈ is, i.operation.isBranch = true → i.mode = .immediate ∧ i.value < is.length
  last : ∃ i, is.getLast? = some i ∧ (i.operation = .halt ∨ i.operation = .jump)

theorem Confined.succ_lt_length {is : List Instruction} (h : Confined is) {k : Nat} (hk : k < is.length)
    (hh : is[k].operation ≠ .halt) (hj : is[k].operation ≠ .jump) : k + 1 < is.length := by
  obtain ⟨i, hi, ho⟩ := h.last
  refine Nat.lt_of_le_of_ne hk fun he => ?_
  have here : is[k] = i := by
    rw [List.getLast?_eq_getElem?, ← he, Nat.add_sub_cancel, List.getElem?_eq_getElem hk] at hi
    exact Option.some.inj hi
  rw [here] at hh hj
  exact ho.elim hh hj

namespace Machine

variable {is : List Instruction} {ws : List Word} {m : Machine} {f : Fault}

/-- The first registers hold the words of a program. -/
def Holds (ws : List Word) (m : Machine) : Prop :=
  ∀ index : Nat, index < ws.length → m.register? index = ws[index]?

/-- The program is in place, and the program counter is in the program until the machine has completed. -/
structure Intact (ws : List Word) (m : Machine) : Prop where
  code : Holds ws m
  counter : m.completed = false → 0 ≤ m.pc ∧ m.pc < ws.length

/-! ### Steps -/

section Steps

variable (hw : List.Forall₂ (fun i w => i.encode = .ok w) is ws)
include hw

theorem Intact.fetch (h : Intact ws m) (hr : m.completed = false) :
    ∃ (k : Nat) (hk : k < is.length) (w : Word), m.pc = k ∧ m.register? m.pc = some w ∧
      Instruction.decode w = .ok is[k] := by
  obtain ⟨h0, hlt⟩ := h.counter hr
  obtain ⟨k, hk⟩ := Int.eq_ofNat_of_zero_le h0
  rw [hk] at hlt ⊢
  have hkw : k < ws.length := Int.ofNat_lt.mp hlt
  have hki : k < is.length := hw.length_eq ▸ hkw
  refine ⟨k, hki, ws[k], rfl, ?_, Instruction.decode_eq_ok_iff_encode.mpr (hw.get hki hkw)⟩
  rw [h.code k hkw, List.getElem?_eq_getElem hkw]

variable (hc : Confined is)
include hc

/-- An instruction of the program stores nothing in the registers of the program. -/
theorem register?_apply_of_lt {i : Instruction} (hi : i ∈ is) {e : Effect} {v : Int}
    (hv : m.operand i.mode i.value = .ok v) (he : i.operation.effect m.acc v = e)
    (hs : ∀ address, e = .store address → ∃ x, m.register? address = some x) {index : Nat} (hlt : index < ws.length) :
    (m.apply e).register? index = m.register? index := by
  by_cases hst : ∃ address, e = .store address
  · obtain ⟨address, rfl⟩ := hst
    obtain ⟨x, hx⟩ := hs address rfl
    obtain ⟨hop, rfl⟩ := Operation.effect_eq_store_iff.mp he
    obtain ⟨hm, hle⟩ := hc.stores i hi hop
    rw [hm] at hv
    cases hv
    refine register?_apply_store hx fun hb => ?_
    rw [hw.length_eq] at hle
    omega
  · exact register?_apply (fun address ha => hst ⟨address, ha⟩) index

theorem Holds.apply {i : Instruction} (hi : i ∈ is) {e : Effect} {v : Int}
    (hv : m.operand i.mode i.value = .ok v) (he : i.operation.effect m.acc v = e)
    (hs : ∀ address, e = .store address → ∃ x, m.register? address = some x) (h : Holds ws m) :
    Holds ws (m.apply e) := by
  intro index hlt
  rw [← h index hlt]
  exact register?_apply_of_lt hw hc hi hv he hs hlt

theorem counter_apply {k : Nat} (hk : k < is.length) (hpc : m.pc = k) {e : Effect} {v : Int}
    (hv : m.operand is[k].mode is[k].value = .ok v) (he : is[k].operation.effect m.acc v = e)
    (hr : (m.apply e).completed = false) : 0 ≤ (m.apply e).pc ∧ (m.apply e).pc < ws.length := by
  have running : e ≠ .halt := fun h => Bool.eq_false_iff.mp hr (completed_apply.mpr (Or.inl h))
  rw [pc_apply, ← hw.length_eq]
  by_cases hb : ∃ address, e = .branch address
  · obtain ⟨address, rfl⟩ := hb
    obtain ⟨hop, rfl⟩ := Operation.of_effect_eq_branch he
    obtain ⟨hm, hlt⟩ := hc.branches is[k] (List.getElem_mem hk) hop
    rw [hm] at hv
    cases hv
    exact ⟨(Instruction.encode_eq_ok_iff.mp (hw.get hk (hw.length_eq ▸ hk))).1, hlt⟩
  · -- What neither stops nor branches is not the last instruction.
    have next := hc.succ_lt_length hk
      (fun hop => running (he.symm.trans (Operation.effect_eq_halt_iff.mpr hop)))
      (fun hop => hb ⟨v, by rw [← he, hop]; rfl⟩)
    cases e with
    | branch address => exact absurd ⟨address, rfl⟩ hb
    | halt => exact absurd rfl running
    | store address => simp only [hpc]; omega
    | accumulate w => simp only [hpc]; omega
    | idle => simp only [hpc]; omega

/-- A step without a fault keeps an intact program intact. -/
theorem Intact.step (h : Intact ws m) (hr : m.completed = false) (hf : m.step.fault = none) :
    Intact ws m.step.machine := by
  obtain ⟨k, hk, w, hpc, hreg, hd⟩ := h.fetch hw hr
  cases he : m.effect w with
  | error f =>
    rw [step_of_error hr hreg he] at hf
    cases hf
  | ok e =>
    obtain ⟨v, hv, he', hs⟩ := (effect_eq_ok_iff hd).mp he
    rw [step_of_ok hr hreg he]
    exact ⟨h.code.apply hw hc (List.getElem_mem hk) hv he' hs, counter_apply hw hc hk hpc hv he'⟩

omit hc in
theorem Intact.step_fault (h : Intact ws m) (hr : m.completed = false) (hf : m.step.fault = some f) :
    Holds ws m.step.machine ∧ ∃ address, f = .addressOutside address m.size := by
  obtain ⟨k, hk, w, hpc, hreg, hd⟩ := h.fetch hw hr
  cases he : m.effect w with
  | error f' =>
    rw [step_of_error hr hreg he] at hf ⊢
    cases hf
    obtain ⟨address, rfl, -⟩ := (effect_eq_error_iff hd).mp he
    exact ⟨h.code, address, rfl⟩
  | ok e =>
    rw [step_of_ok hr hreg he] at hf
    cases hf

end Steps

/-! ### Runs -/

theorem intact_filled (hne : ws ≠ []) (initial : List Word) (blank : Nat) : Intact ws (filled ws initial blank) := by
  refine ⟨fun index hlt => ?_, fun _ => ⟨Int.le_refl 0, Int.ofNat_lt.mpr (List.length_pos_iff.mpr hne)⟩⟩
  rw [register?_natCast, filled, List.getElem?_toArray, List.append_assoc, List.getElem?_append_left hlt]

variable {o : Outcome}

theorem Intact.reaches (hw : List.Forall₂ (fun i w => i.encode = .ok w) is ws) (hc : Confined is)
    (h : Intact ws m) {s : Machine} (hr : Reaches m s) : Intact ws s :=
  hr.invariant h fun _ h hr hf => h.step hw hc hr hf

theorem Intact.stops (hw : List.Forall₂ (fun i w => i.encode = .ok w) is ws) (h : Intact ws m)
    (ho : Stops m o) : Holds ws o.machine ∧
      (o.fault = none ∨ ∃ address size, o.fault = some (.addressOutside address size)) := by
  cases ho with
  | completed _ => exact ⟨h.code, Or.inl rfl⟩
  | faulted hr hf =>
    obtain ⟨hh, address, rfl⟩ := h.step_fault hw hr hf
    exact ⟨hh, Or.inr ⟨address, _, hf⟩⟩

end Machine

/-- An assembled program that keeps to itself stays in place and in control, however it is run: on every
    machine that a run passes through its words are in their registers, and the program counter is among
    them before each step; and a run without a limit ends with no other fault than a data access outside, a
    run with a limit with no other one than that and the limit. -/
theorem Assembly.run_of_confined {source : Text} {a : Assembly} (h : ofSource source = .ok a)
    (hc : Confined a.instructions) {counting : Counting} {initial : List Word} {blank : UInt64} {m : Machine}
    (hm : Machine.load counting a.words initial blank = some m)
    (hs : a.words.length + initial.length + blank.toNat < UInt64.size) :
    (∀ s, Machine.Reaches m s → Machine.Holds a.words s ∧
      (s.completed = false → 0 ≤ s.pc ∧ s.pc < a.words.length)) ∧
    (∀ (fuel : Nat) (o : Outcome), Machine.run fuel m = some o →
      Machine.Holds a.words o.machine ∧
        (o.fault = none ∨ ∃ address size, o.fault = some (.addressOutside address size))) ∧
    ∀ (limit : Nat) (o : Outcome), Machine.runWithin limit m = o →
      Machine.Holds a.words o.machine ∧ (o.fault = none ∨ o.fault = some (.stepLimit limit) ∨
        ∃ address size, o.fault = some (.addressOutside address size)) := by
  have hw := (ofSource_eq_ok_iff.mp h).words
  have hne : a.words ≠ [] := by
    obtain ⟨i, hi, -⟩ := hc.last
    intro he
    rw [he, List.forall₂_nil_right_iff] at hw
    rw [hw] at hi
    cases hi
  have loaded : Machine.Intact a.words m := Machine.eq_filled hm hs ▸ Machine.intact_filled hne initial blank.toNat
  refine ⟨fun s hr => ?_, fun fuel o ho => ?_, ?_⟩
  · have there := loaded.reaches hw hc hr
    exact ⟨there.code, there.counter⟩
  · obtain ⟨s, hr, ho⟩ := Machine.exists_reaches_of_ends (Machine.ends_of_run ho)
    exact (loaded.reaches hw hc hr).stops hw ho
  · rintro limit _ rfl
    obtain ⟨s, hr, ho | ⟨-, ho⟩⟩ := Machine.exists_reaches_runWithin limit m
    · exact ((loaded.reaches hw hc hr).stops hw ho).imp_right fun ho => ho.imp_right Or.inr
    · rw [ho]
      exact ⟨(loaded.reaches hw hc hr).code, Or.inr (Or.inl rfl)⟩

theorem Assembly.run_of_confined_store_halt :
    Confined [⟨.store, .immediate, 2⟩, .halt] ∧ ∃ m, Machine.load .checked [524290, 0] [] 1 = some m ∧
      Machine.Holds [524290, 0] (m.runWithin 10).machine := by
  have h : ofSource "$define x\nSTR #x\nHLT".toList =
      .ok ⟨[⟨.store, .immediate, 2⟩, .halt], [524290, 0], .empty, ⟨[⟨"x".toList, 2⟩], by simp, by simp⟩⟩ := by rfl
  have hc : Confined [⟨.store, .immediate, 2⟩, .halt] := ⟨by decide, by decide, .halt, rfl, Or.inl rfl⟩
  have made : Machine.load .checked [524290, 0] [] 1 = some _ := Machine.load_of_lt (by decide) .checked
  have runs := Assembly.run_of_confined h hc made (by decide)
  exact ⟨hc, _, made, (runs.2.2 10 _ rfl).1⟩

end StoredProgram
