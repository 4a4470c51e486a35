import StoredProgram.Proofs.Assembly.Tables
import StoredProgram.Proofs.CommandLine.Words
import StoredProgram.Proofs.Machine.History
import StoredProgram.Proofs.Machine.Load

/-! # Variables from their seeds to the report

The registers behind a program are those of its variables, in the order of their definitions. The assembler gives them
addresses, loading a machine seeds them with the initial words, and after a run they are printed with their names. All
three count the registers alike: the variable of a rank has the initial word of that rank (`seeded_load`), and its name
stands on the line of that rank (`execute_run_eq_ok_iff`). -/

namespace StoredProgram

namespace Machine

variable {m : Machine} {address : Int}

/-- The instruction at the program counter reads the register at an address, or stores in it. -/
def Accesses (m : Machine) (address : Int) : Prop :=
  ∃ w i, m.register? m.pc = some w ∧ Instruction.decode w = .ok i ∧ i.value = address ∧
    (i.mode ≠ .immediate ∨ i.operation = .store)

theorem step_of_accesses (hc : m.completed = false) (h : m.Accesses address) (hout : m.Outside address) :
    m.step = { machine := { m with pc := m.pc + 1 }, fault := some (.addressOutside address m.size) } := by
  obtain ⟨w, i, hw, hd, rfl, hi⟩ := h
  refine step_of_faults hc (.access hw hd ?_)
  by_cases hm : i.mode = .immediate
  · have here : Resolves m i.mode i.value i.value := by
      rw [hm]
      exact .immediate
    exact .target (hi.resolve_left fun hne => hne hm) here hout
  · exact .value hm hout

end Machine

open Machine

namespace Assembly

variable {source : Text} {a : Assembly} {names : List Text} {initial : List Word} {blank : UInt64} {rank : Nat}
variable {name : Text} {counting : Counting} {m : Machine}

/-- The variable of a rank, in a machine that has been loaded with some initial words and blank registers: its register
    holds the initial word of that rank, or a zero, or there is no such register and no access to it ever succeeds. -/
structure Seeded (a : Assembly) (initial : List Word) (blank : UInt64) (m : Machine) (rank : Nat) (name : Text) :
    Prop where
  address : a.vars.address? name = some ((a.words.length + rank : Nat) : Int)
  seed : ∀ w, initial[rank]? = some w → m.register? (a.words.length + rank : Nat) = some w
  zero : initial.length ≤ rank → rank < initial.length + blank.toNat →
    m.register? (a.words.length + rank : Nat) = some 0
  outside : initial.length + blank.toNat ≤ rank → m.Outside (a.words.length + rank : Nat)
  access : initial.length + blank.toNat ≤ rank → ∀ cs n s, History m cs n s →
    s.completed = false → s.Accesses (a.words.length + rank : Nat) →
      s.step = { machine := { s with pc := s.pc + 1 },
                 fault := some (.addressOutside (a.words.length + rank : Nat) s.size) }

/-! ### Addresses -/

theorem name?_vars (h : ofSource source = .ok a) (hn : List.Forall₂ Declares (declarations source) names) (rank : Nat) :
    a.vars.name? (a.words.length + rank : Nat) = names[rank]? := by
  have h := ofSource_eq_ok_iff.mp h
  rw [h.length_words]
  exact SymbolTable.name?_of_entries (h.entries_vars hn) rank

/-! ### Seeds -/

theorem seeded_load (h : ofSource source = .ok a) (hn : List.Forall₂ Declares (declarations source) names)
    (hm : load counting a.words initial blank = some m)
    (room : a.words.length + initial.length + blank.toNat < UInt64.size) (hr : names[rank]? = some name) :
    a.Seeded initial blank m rank name := by
  have outside : initial.length + blank.toNat ≤ rank → m.Outside (a.words.length + rank : Nat) := by
    intro hle
    refine Or.inr ?_
    rw [size_load hm, Nat.mod_eq_of_lt room]
    omega
  refine ⟨?_, fun w hw => ?_, fun hle hlt => ?_, outside, ?_⟩
  · rw [SymbolTable.address?_eq_some_iff, ← SymbolTable.name?_eq_some_iff, name?_vars h hn, hr]
  · obtain ⟨hlt, -⟩ := List.getElem?_eq_some_iff.mp hw
    rw [eq_filled hm room, register?_filled_add, List.getElem?_append_left hlt, hw]
  · rw [eq_filled hm room, register?_filled_add, List.getElem?_append_right hle,
      List.getElem?_replicate_of_lt (by omega)]
  · intro hle cs n s hs hc ha
    refine step_of_accesses hc ha ?_
    have out := outside hle
    unfold Outside at out ⊢
    rwa [hs.size_eq]

end Assembly

/-! ### Reports -/

namespace Command

variable {source file out : Text} {a : Assembly} {names rows rows' : List Text} {length fuel : Nat} {s : Machine}
variable {options : RunOptions} {counting : Counting}

/-- The lines that are printed of the registers behind a program: one for each of them, in their order, with what they
    hold, and with the names of the variables on as many lines as there are names. -/
structure Printed (length : Nat) (names : List Text) (s : Machine) (rows : List Text) : Prop where
  count : rows.length = s.size - length
  named : ∀ rank name w, names[rank]? = some name → s.register? (length + rank : Nat) = some w →
    rows[rank]? = some (registerText (length + rank) (" (".toList ++ name ++ ")".toList) w)
  plain : ∀ rank w, names.length ≤ rank → s.register? (length + rank : Nat) = some w →
    rows[rank]? = some (registerText (length + rank) [] w)

theorem Printed.unique (h : Printed length names s rows) (h' : Printed length names s rows') : rows = rows' := by
  refine List.ext_getElem? fun rank => ?_
  by_cases hr : rank < s.size - length
  · have inside : length + rank < s.registers.size := by
      show length + rank < s.size
      omega
    have hw : s.register? (length + rank : Nat) = some s.registers[length + rank] := by
      rw [register?_natCast, Array.getElem?_eq_getElem inside]
    cases hn : names[rank]? with
    | some name => rw [h.named rank name _ hn hw, h'.named rank name _ hn hw]
    | none =>
      have behind := List.getElem?_eq_none_iff.mp hn
      rw [h.plain rank _ behind hw, h'.plain rank _ behind hw]
  · have beyond : ∀ {rs : List Text}, Printed length names s rs → rs[rank]? = none := fun hp => by
      rw [List.getElem?_eq_none_iff, hp.count]
      omega
    rw [beyond h, beyond h']

theorem getElem?_map_drop_zipIdx {α β : Type} (f : α × Nat → β) (xs : List α) (length rank : Nat) :
    ((xs.zipIdx.drop length).map f)[rank]? = xs[length + rank]?.map fun x => f (x, length + rank) := by
  rw [List.getElem?_map, List.getElem?_drop, List.getElem?_zipIdx, Option.map_map, Nat.zero_add]
  rfl

theorem printed_registerLine {vars : SymbolTable}
    (hv : ∀ rank, vars.name? (length + rank : Nat) = names[rank]?) (s : Machine) :
    Printed length names s (((s.registers.toList.zipIdx).drop length).map fun (w, index) => registerLine vars w index) where
  count := by
    rw [List.length_map, List.length_drop, List.length_zipIdx, Array.length_toList]
    rfl
  named rank name w hn hw := by
    rw [register?_natCast] at hw
    rw [getElem?_map_drop_zipIdx, Array.getElem?_toList, hw]
    exact congrArg some (registerLine_of_some ((hv rank).trans hn) w)
  plain rank w hle hw := by
    rw [register?_natCast] at hw
    rw [getElem?_map_drop_zipIdx, Array.getElem?_toList, hw]
    exact congrArg some (registerLine_of_none ((hv rank).trans (List.getElem?_eq_none_iff.mpr hle)) w)

/-- What is printed after a run that has succeeded. -/
theorem execute_run_eq_ok_iff (h : Assembly.ofSource source = .ok a)
    (hn : List.Forall₂ Assembly.Declares (Assembly.declarations source) names) (hb : options.binary = false)
    (hd : options.dump = false) :
    (run file options).execute counting fuel (.ok source) = some (.ok out) ↔
      ∃ m s rows, load counting a.words options.registers options.blank = some m ∧
        runProgram fuel options.maxSteps m = some { machine := s } ∧
        Printed a.words.length names s rows ∧ out = Text.unlines (summary s ++ rows) := by
  have program : program file source options.binary = .ok (a.words, a.vars) := by
    rw [hb]
    exact program_source h file
  have printed := printed_registerLine (Assembly.name?_vars h hn)
  cases hm : load counting a.words options.registers options.blank with
  | none => simp [execute_run_of_none options program fuel hm]
  | some m =>
    rw [execute_run options program fuel hm, hd, Option.map_eq_some_iff]
    constructor
    · rintro ⟨⟨s, _ | f⟩, ho, hr⟩
      · cases hr
        exact ⟨m, s, _, rfl, ho, printed s, rfl⟩
      · cases hr
    · rintro ⟨_, s, rows, ⟨⟩, ho, hp, rfl⟩
      refine ⟨_, ho, ?_⟩
      rw [hp.unique (printed s)]
      rfl

/-- The variables of an assembled source have the registers behind its words, in the order of their definitions. A
    loaded machine holds the initial words in them and zeros behind those, and where there are no more registers an
    access to a variable is a fault that names its address. There is such a machine whenever memory has the registers. A
    run of the source that succeeds prints the registers behind the words, and the names of the variables with them. -/
theorem execute_run_variables (h : Assembly.ofSource source = .ok a)
    (hn : List.Forall₂ Assembly.Declares (Assembly.declarations source) names) (counting : Counting) :
    (∀ initial blank, a.words.length + initial.length + blank.toNat < UInt64.size →
      ∀ m, load counting a.words initial blank = some m →
        ∀ rank name, names[rank]? = some name → a.Seeded initial blank m rank name) ∧
    (∀ initial blank, a.words.length + initial.length + blank.toNat < memoryLimit →
      ∃ m, load counting a.words initial blank = some m) ∧
    ∀ file options fuel out, options.binary = false → options.dump = false →
      ((run file options).execute counting fuel (.ok source) = some (.ok out) ↔
        ∃ m s rows, load counting a.words options.registers options.blank = some m ∧
          runProgram fuel options.maxSteps m = some { machine := s } ∧
          Printed a.words.length names s rows ∧ out = Text.unlines (summary s ++ rows)) :=
  ⟨fun _ _ room _ hm _ _ hr => Assembly.seeded_load h hn hm room hr, fun _ _ room => ⟨_, load_of_lt room counting⟩,
    fun _ _ _ _ hb hd => execute_run_eq_ok_iff h hn hb hd⟩

theorem execute_run_variables_three :
    (∃ m, load .checked [327684, 0] [7] 1 = some m ∧ m.register? 2 = some 7 ∧ m.register? 3 = some 0 ∧
      m.step.fault = some (.addressOutside 4 4)) ∧
    ∃ m s rows, load .checked [327684, 0] [7] 3 = some m ∧ runProgram 2 none m = some { machine := s } ∧
      Printed 2 ["x".toList, "y".toList, "z".toList] s rows ∧ Text.unlines (summary s ++ rows) =
        "acc = 0\npc  = 2\nsteps = 2\nR[2] (x) = 7\nR[3] (y) = 0\nR[4] (z) = 0\nR[5] = 0\n".toList := by
  have h : Assembly.ofSource "$define x\n$define y\n$define z\nLDA Rz\nHLT".toList =
      .ok ⟨[⟨.load, .direct, 4⟩, .halt], [327684, 0], .empty,
        ⟨[⟨"x".toList, 2⟩, ⟨"y".toList, 3⟩, ⟨"z".toList, 4⟩], by simp, by simp⟩⟩ := by rfl
  have hn : List.Forall₂ Assembly.Declares
      (Assembly.declarations "$define x\n$define y\n$define z\nLDA Rz\nHLT".toList)
      ["x".toList, "y".toList, "z".toList] := by
    have lines : Assembly.declarations "$define x\n$define y\n$define z\nLDA Rz\nHLT".toList =
        ["$define x".toList, "$define y".toList, "$define z".toList] := by rfl
    rw [lines]
    exact .cons ⟨rfl, Assembly.isVariableName_iff.mp rfl⟩ (.cons ⟨rfl, Assembly.isVariableName_iff.mp rfl⟩
      (.cons ⟨rfl, Assembly.isVariableName_iff.mp rfl⟩ .nil))
  obtain ⟨seeds, -, prints⟩ := execute_run_variables h hn .checked
  obtain ⟨m, made, reads, starts⟩ : ∃ m, load .checked [327684, 0] [7] 1 = some m ∧ m.Accesses 4 ∧
      m.completed = false ∧ m.size = 4 :=
    ⟨{ registers := #[327684, 0, 7, 0], programLength := 2 }, by rfl,
      ⟨327684, ⟨.load, .direct, 4⟩, rfl, rfl, rfl, Or.inl nofun⟩, rfl, rfl⟩
  have x := seeds [7] 1 (by decide) m made 0 "x".toList rfl
  have y := seeds [7] 1 (by decide) m made 1 "y".toList rfl
  have z := seeds [7] 1 (by decide) m made 2 "z".toList rfl
  have fault := congrArg Outcome.fault (z.access (by decide) [] 0 m .start starts.1 reads)
  rw [starts.2] at fault
  refine ⟨⟨m, made, x.seed 7 rfl, y.zero (by decide) (by decide), fault⟩, ?_⟩
  have report : (run [] { registers := [7], blank := 3 }).execute .checked 2
      (.ok "$define x\n$define y\n$define z\nLDA Rz\nHLT".toList) = some (.ok
        "acc = 0\npc  = 2\nsteps = 2\nR[2] (x) = 7\nR[3] (y) = 0\nR[4] (z) = 0\nR[5] = 0\n".toList) := by
    decide +kernel
  obtain ⟨m, s, rows, hm, ho, hp, out⟩ := (prints [] { registers := [7], blank := 3 } 2 _ rfl rfl).mp report
  exact ⟨m, s, rows, hm, ho, hp, out.symm⟩

end Command
end StoredProgram
