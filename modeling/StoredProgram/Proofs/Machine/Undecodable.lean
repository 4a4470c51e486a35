import StoredProgram.Proofs.Assembly.Passes
import StoredProgram.Proofs.Machine.Limit
import StoredProgram.Proofs.Machine.Load

/-! # Data that are executed

The words of an assembled program are instructions, and so is the zero of a blank register. But data are held in
the same registers, and a run may come to them or replace an instruction by them. A register of a run holds what
was loaded into it or what the run has stored there (`Reaches.stored`), so a run meets a word that is no
instruction just if it executes an initial word or a stored one (`Assembly.run_undecodable_iff`). -/

namespace StoredProgram

theorem Instruction.decode_zero : decode 0 = .ok halt := rfl

namespace Machine

variable {m s : Machine} {address : Int} {w : Word} {e : DecodeError}

/-- The next step stores a word in the register at an address. -/
def Stores (m : Machine) (address : Int) (w : Word) : Prop :=
  m.completed = false ∧ m.acc = w ∧ ∃ code, m.register? m.pc = some code ∧ m.effect code = .ok (.store address)

/-- On the way from one machine to another, a word is stored in the register at an address. -/
def StoredBefore (m s : Machine) (address : Int) (w : Word) : Prop :=
  ∃ t, Reaches m t ∧ t.Stores address w ∧ Reaches t.step.machine s

/-- A run comes to a machine that is about to execute the word at an address. -/
structure ComesTo (m s : Machine) (address : Int) (w : Word) : Prop where
  reached : Reaches m s
  running : s.completed = false
  counter : s.pc = address
  fetched : s.register? address = some w

/-- The run of a machine with a program and some initial words behind it executes a word that is no instruction, and
    that is an initial word or has been stored by the run. -/
def ExecutesData (ws initial : List Word) (m : Machine) (address : Int) (e : DecodeError) : Prop :=
  ∃ s w, ComesTo m s address w ∧ Instruction.decode w = .error e ∧
    ((∃ k : Nat, address = (ws.length + k : Nat) ∧ initial[k]? = some w) ∨ StoredBefore m s address w)

/-! ### Contents of registers -/

theorem stores_of_register?_step (hc : m.completed = false) (hf : m.step.fault = none)
    (hw : m.step.machine.register? address = some w) : m.register? address = some w ∨ m.Stores address w := by
  obtain ⟨code, e, hr, he, hs⟩ := exists_apply_of_step hc hf
  rw [hs] at hw
  by_cases hst : ∃ target, e = .store target
  · obtain ⟨target, rfl⟩ := hst
    obtain ⟨x, hx⟩ := exists_register?_of_effect_eq_store he
    rw [register?_apply_store_eq hx] at hw
    split at hw
    · rename_i hb
      exact Or.inr ⟨hc, Option.some.inj hw, code, hr, hb ▸ he⟩
    · exact Or.inl hw
  · rw [register?_apply fun target ht => hst ⟨target, ht⟩] at hw
    exact Or.inl hw

/-- What a register holds at some point of a run, it has held from the start or the run has stored there. -/
theorem Reaches.stored (h : Reaches m s) (hw : s.register? address = some w) :
    m.register? address = some w ∨ StoredBefore m s address w := by
  induction h with
  | refl => exact Or.inl hw
  | step h hc hf ih =>
    rcases stores_of_register?_step hc hf hw with hw | hst
    · rcases ih hw with hw | ⟨t, ht, hst, hts⟩
      · exact Or.inl hw
      · exact Or.inr ⟨t, ht, hst, hts.step hc hf⟩
    · exact Or.inr ⟨_, h, hst, .refl⟩

/-! ### Faults of decoding -/

/-- Where all words of a program are instructions, what is none comes from the data. -/
theorem executesData_iff {counting : Counting} {ws initial : List Word} {blank : UInt64}
    (hm : load counting ws initial blank = some m) (hws : ∀ w ∈ ws, ∃ i, Instruction.decode w = .ok i) :
    ExecutesData ws initial m address e ↔ ∃ s, Reaches m s ∧ s.completed = false ∧
      s.step.fault = some (.undecodable address e) := by
  refine ⟨fun h => ?_, fun h => ?_⟩
  · obtain ⟨s, w, h, hd, -⟩ := h
    exact ⟨s, h.reached, h.running, (step_fault_eq_undecodable_iff h.running).mpr ⟨h.counter, w, h.fetched, hd⟩⟩
  · obtain ⟨s, hr, hc, hf⟩ := h
    obtain ⟨hpc, w, hw, hd⟩ := (step_fault_eq_undecodable_iff hc).mp hf
    refine ⟨s, w, ⟨hr, hc, hpc, hw⟩, hd, ?_⟩
    rcases hr.stored hw with hw | hst
    · rcases of_register?_load hm hw with hw | hinit | rfl
      · obtain ⟨i, hi⟩ := hws w hw
        rw [hi] at hd
        cases hd
      · exact Or.inl hinit
      · rw [Instruction.decode_zero] at hd
        cases hd
    · exact Or.inr hst

end Machine

open Machine

theorem Assembly.exists_decode_of_mem_words {source : Text} {a : Assembly} (h : ofSource source = .ok a) {w : Word}
    (hw : w ∈ a.words) : ∃ i, Instruction.decode w = .ok i := by
  obtain ⟨k, hk⟩ := List.mem_iff_getElem?.mp hw
  obtain ⟨i, -, hi⟩ := Instruction.exists_decode_of_getElem? (ofSource_eq_ok_iff.mp h).words hk
  exact ⟨i, hi⟩

/-- A run of an assembled program, without a limit or with some limit, meets a word that is no instruction just
    if it executes data: an initial word, or a word that the program itself has stored. -/
theorem Assembly.run_undecodable_iff {source : Text} {a : Assembly} (h : ofSource source = .ok a)
    {counting : Counting} {initial : List Word} {blank : UInt64} {m : Machine}
    (hm : load counting a.words initial blank = some m) (address : Int) (e : DecodeError) :
    ((∃ fuel o, run fuel m = some o ∧ o.fault = some (.undecodable address e)) ↔
        ExecutesData a.words initial m address e) ∧
      ((∃ limit, (runWithin limit m).fault = some (.undecodable address e)) ↔
        ExecutesData a.words initial m address e) := by
  rw [executesData_iff hm fun w hw => exists_decode_of_mem_words h hw]
  exact ⟨exists_run_fault_iff, exists_runWithin_fault_iff nofun⟩

theorem Assembly.run_undecodable_iff_overwritten_halt :
    ∃ m, load .checked [2097152, 524290, 0] [] 0 = some m ∧
      ExecutesData [2097152, 524290, 0] [] m 2 (.negative (-1)) := by
  have h : ofSource "NOT #0\nSTR #2\nHLT".toList =
      .ok ⟨[⟨.not, .immediate, 0⟩, ⟨.store, .immediate, 2⟩, .halt], [2097152, 524290, 0], .empty, .empty⟩ := by rfl
  have made : load .checked [2097152, 524290, 0] [] 0 = some _ := load_of_lt (by decide) .checked
  exact ⟨_, made, (Assembly.run_undecodable_iff h made 2 (.negative (-1))).2.mp ⟨3, by rfl⟩⟩

/-- A program that stores over its own halt executes what it has stored. -/
theorem Assembly.run_undecodable_of_overwritten_halt :
    ∃ a m, ofSource "NOT #0\nSTR #2\nHLT".toList = .ok a ∧ load .checked a.words [] 0 = some m ∧
      (∃ o, run 3 m = some o ∧ o.fault = some (.undecodable 2 (.negative (-1)))) ∧
      (runWithin 3 m).fault = some (.undecodable 2 (.negative (-1))) :=
  ⟨⟨[⟨.not, .immediate, 0⟩, ⟨.store, .immediate, 2⟩, .halt], [2097152, 524290, 0], .empty, .empty⟩,
    { registers := #[2097152, 524290, 0], programLength := 3 }, by rfl, by rfl, ⟨_, by rfl, by rfl⟩, by rfl⟩

end StoredProgram
