import StoredProgram.Proofs.Assembly.Passes

/-! # The grammar of sources

What a source may be and what it means, told from the texts of its lines alone: which lines carry a label,
which name a definition declares, and which instruction a body commands, given all the labels and variables
of the source, also those further down. -/

namespace StoredProgram.Assembly

/-! ### Meaning of names and operands -/

/-- A label means the index of the instruction line that carries it. -/
def LabelAt (ls : List Text) (name : Text) (v : Int) : Prop :=
  ∃ (index : Nat) (line : Text), ls[index]? = some line ∧ (∃ body, Labelled line name body) ∧ v = index

/-- A variable means the register behind the program that has the place of its definition. -/
def VariableAt (first : Nat) (ds : List Text) (name : Text) (v : Int) : Prop :=
  ∃ (rank : Nat) (line : Text), ds[rank]? = some line ∧ Declares line name ∧ v = (first + rank : Nat)

/-- The mode and the value that an operand denotes, among instruction lines and definitions. -/
inductive Denotes (ls ds : List Text) : Text → Mode → Int → Prop
  | label {name : Text} {v : Int} (h : LabelAt ls name v) : Denotes ls ds ('@' :: name) .immediate v
  | number {mode : Mode} {digits : Text} (hne : digits ≠ []) (hd : ∀ c ∈ digits, c.isDigit = true) :
    Denotes ls ds (mode.sigil ++ digits) mode (Nat.ofDigitChars 10 digits 0 : Nat)
  | name {mode : Mode} {name : Text} {v : Int} (h : VariableAt ls.length ds name v)
    (hr : mode = .direct → name.head? ≠ some 'R') : Denotes ls ds (mode.sigil ++ name) mode v

/-- The instruction that a body commands: the mnemonic of a halt, or a mnemonic and an operand with a value
    that fits a word. -/
inductive Commands (ls ds : List Text) : Text → Instruction → Prop
  | halt {body : Text} (h : body.words = [Operation.halt.mnemonic]) : Commands ls ds body .halt
  | operation {body t : Text} {i : Instruction} (h : body.words = [i.operation.mnemonic, t])
    (hv : Denotes ls ds t i.mode i.value) (hlt : i.value < 65536) : Commands ls ds body i

/-- The instruction that a line commands, with its label taken off. -/
def LineCommands (ls ds : List Text) (line : Text) (i : Instruction) : Prop :=
  ∃ body, HasBody line body ∧ Commands ls ds body i

/-! ### Grammar and meaning of sources -/

/-- Instruction lines and definitions that can be assembled: each line is of its form, and no name is
    introduced twice. -/
structure Grammatical (ls ds : List Text) : Prop where
  labelled : ∀ line ∈ ls, line.head? = some '@' → ∃ name body, Labelled line name body
  singleLabel : ∀ (i j : Nat) (line line' name : Text), ls[i]? = some line → ls[j]? = some line' →
    (∃ body, Labelled line name body) → (∃ body, Labelled line' name body) → i = j
  declared : ∀ line ∈ ds, ∃ name, Declares line name
  singleVariable : ∀ (i j : Nat) (line line' name : Text), ds[i]? = some line → ds[j]? = some line' →
    Declares line name → Declares line' name → i = j
  commanding : ∀ line ∈ ls, ∃ i, LineCommands ls ds line i

/-- A word packs an instruction: the opcode, the mode and the value are its digits. -/
def Packs (i : Instruction) (w : Word) : Prop :=
  w.toInt = i.operation.code * 262144 + i.mode.code * 65536 + i.value

/-- What instruction lines and definitions mean: the instructions with their words, and the addresses of
    the names. -/
structure Means (ls ds : List Text) (a : Assembly) : Prop where
  instructions : List.Forall₂ (LineCommands ls ds) ls a.instructions
  words : List.Forall₂ Packs a.instructions a.words
  labels : ∀ name v, a.labels.address? name = some v ↔ LabelAt ls name v
  vars : ∀ name v, a.vars.address? name = some v ↔ VariableAt ls.length ds name v

variable {ls ds : List Text} {labels vars : SymbolTable} {source : Text} {a : Assembly}

theorem address?_eq_some_iff_labelAt (h : labels.entries = labelPass.symbols 0 ls) {name : Text} {v : Int} :
    labels.address? name = some v ↔ LabelAt ls name v := by
  rw [SymbolTable.address?_eq_some_iff, h, SymbolPass.mem_symbols_iff]
  simp only [labelPass_name?_eq_some_iff, Nat.zero_add]
  rfl

theorem address?_eq_some_iff_variableAt {first : Nat} (h : vars.entries = variablePass.symbols first ds)
    {name : Text} {v : Int} : vars.address? name = some v ↔ VariableAt first ds name v := by
  rw [SymbolTable.address?_eq_some_iff, h, SymbolPass.mem_symbols_iff]
  simp only [variablePass_name?_eq_some_iff]
  rfl

theorem head?_ne_of_isDigit {t : Text} (h : ∀ c ∈ t, c.isDigit = true) : t.head? ≠ some 'R' := fun hR =>
  absurd (h 'R' (List.mem_of_head? hR)) (by decide)

theorem VariableAt.isVariableName {first : Nat} {name : Text} {v : Int} (h : VariableAt first ds name v) :
    IsVariableName name := by
  obtain ⟨_, _, -, h, -⟩ := h
  exact h.2

theorem VariableAt.isToken {first : Nat} {name : Text} {v : Int} (h : VariableAt first ds name v) :
    name.IsToken := by
  obtain ⟨_, _, -, h, -⟩ := h
  exact h.isToken

/-- A variable is never read as a number. -/
theorem literal?_of_isVariableName {name : Text} (h : IsVariableName name) : Operand.literal? name = none := by
  refine Option.eq_none_iff_forall_ne_some.mpr fun v hv => ?_
  obtain ⟨hne, hd, -⟩ := Operand.literal?_eq_some_iff.mp hv
  obtain ⟨c, t, rfl⟩ := List.exists_cons_of_ne_nil hne
  have := h.2.1 c rfl
  rw [hd c List.mem_cons_self] at this
  cases this

theorem Denotes.nonneg {t : Text} {m : Mode} {v : Int} (h : Denotes ls ds t m v) : 0 ≤ v := by
  cases h with
  | label h =>
    obtain ⟨_, _, -, -, rfl⟩ := h
    omega
  | number => omega
  | name h =>
    obtain ⟨_, _, -, -, rfl⟩ := h
    omega

/-! ### Reading -/

section Tables

variable (hl : labels.entries = labelPass.symbols 0 ls) (hv : vars.entries = variablePass.symbols ls.length ds)
include hl hv

/-- With the tables of a source, an operand is read as what it denotes, if a word holds that. -/
theorem operand_eq_ok_iff_denotes {t : Text} {m : Mode} {v : Int} (hlt : v < 65536) :
    operand labels vars t = .ok (m, v) ↔ Denotes ls ds t m v := by
  rw [operand_eq_ok_iff]
  refine ⟨fun h => ?_, fun h => ?_⟩
  · obtain ⟨o, ho, hr⟩ := h
    cases o with
    | target name =>
      obtain ⟨rfl, ha⟩ := Operand.resolve?_target.mp hr
      obtain rfl := Operand.ofText?_eq_some_target_iff.mp ho
      exact .label ((address?_eq_some_iff_labelAt hl).mp ha)
    | value mode rest =>
      obtain ⟨rfl, ha⟩ := Operand.resolve?_value.mp hr
      obtain ⟨rfl, hR⟩ := Mode.split?_eq_some_iff.mp (Operand.ofText?_eq_some_value_iff.mp ho)
      rcases Option.or_eq_some_iff.mp ha with ha | ⟨-, ha⟩
      · obtain ⟨hne, hd, rfl, -⟩ := Operand.literal?_eq_some_iff.mp ha
        exact .number hne hd
      · exact .name ((address?_eq_some_iff_variableAt hv).mp ha) hR
  · cases h with
    | label h =>
      refine ⟨_, Operand.ofText?_eq_some_target_iff.mpr rfl, Operand.resolve?_target.mpr ⟨rfl, ?_⟩⟩
      exact (address?_eq_some_iff_labelAt hl).mpr h
    | number hne hd =>
      refine ⟨_, Operand.ofText?_eq_some_value_iff.mpr (Mode.split?_append fun _ => head?_ne_of_isDigit hd),
        Operand.resolve?_value.mpr ⟨rfl, Option.or_eq_some_iff.mpr (Or.inl ?_)⟩⟩
      exact Operand.literal?_eq_some_iff.mpr ⟨hne, hd, rfl, by omega⟩
    | name h hR =>
      refine ⟨_, Operand.ofText?_eq_some_value_iff.mpr (Mode.split?_append hR),
        Operand.resolve?_value.mpr ⟨rfl, Option.or_eq_some_iff.mpr (Or.inr ⟨?_, ?_⟩)⟩⟩
      · exact literal?_of_isVariableName h.isVariableName
      · exact (address?_eq_some_iff_variableAt hv).mpr h

theorem instruction_eq_ok_iff_lineCommands {line : Text} {i : Instruction} :
    (instruction labels vars line = .ok i ∧ ∃ w, i.encode = .ok w) ↔ LineCommands ls ds line i := by
  rw [instruction_eq_ok_iff, Instruction.exists_encode_eq_ok_iff]
  simp only [statement_eq_ok_iff]
  refine ⟨fun h => ?_, fun h => ?_⟩
  · obtain ⟨⟨body, hb, ⟨hw, rfl⟩ | ⟨t, hw, ho⟩⟩, -, hlt⟩ := h
    · exact ⟨body, hb, .halt hw⟩
    · exact ⟨body, hb, .operation hw ((operand_eq_ok_iff_denotes hl hv hlt).mp ho) hlt⟩
  · obtain ⟨body, hb, h⟩ := h
    cases h with
    | halt hw => exact ⟨⟨body, hb, Or.inl ⟨hw, rfl⟩⟩, by decide⟩
    | operation hw ho hlt =>
      exact ⟨⟨body, hb, Or.inr ⟨_, hw, (operand_eq_ok_iff_denotes hl hv hlt).mpr ho⟩⟩, ho.nonneg, hlt⟩

theorem encoded_iff_lineCommands {line : Text} {i : Instruction} {w : Word} :
    (instruction labels vars line = .ok i ∧ i.encode = .ok w) ↔ LineCommands ls ds line i ∧ Packs i w := by
  rw [← instruction_eq_ok_iff_lineCommands hl hv, Instruction.encode_eq_ok_iff,
    Instruction.exists_encode_eq_ok_iff]
  exact ⟨fun ⟨h, h0, hlt, hw⟩ => ⟨⟨h, h0, hlt⟩, hw⟩, fun ⟨⟨h, h0, hlt⟩, hw⟩ => ⟨h, h0, hlt, hw⟩⟩

theorem forall₂_encoded_iff {ks : List Text} {is : List Instruction} {ws : List Word} :
    (List.Forall₂ (fun line i => instruction labels vars line = .ok i) ks is ∧
        List.Forall₂ (fun i w => i.encode = .ok w) is ws) ↔
      List.Forall₂ (LineCommands ls ds) ks is ∧ List.Forall₂ Packs is ws := by
  rw [← exists_forall₂_pairs_iff, ← exists_forall₂_pairs_iff]
  simp only [encoded_iff_lineCommands hl hv]

end Tables

/-! ### Assembling -/

theorem nodup_labels_iff : ((labelPass.symbols 0 ls).map Symbol.name).Nodup ↔
    ∀ (i j : Nat) (line line' name : Text), ls[i]? = some line → ls[j]? = some line' →
      (∃ body, Labelled line name body) → (∃ body, Labelled line' name body) → i = j := by
  simp only [SymbolPass.nodup_names_symbols_iff, labelPass_name?_eq_some_iff]

theorem nodup_variables_iff {first : Nat} : ((variablePass.symbols first ds).map Symbol.name).Nodup ↔
    ∀ (i j : Nat) (line line' name : Text), ds[i]? = some line → ds[j]? = some line' →
      Declares line name → Declares line' name → i = j := by
  simp only [SymbolPass.nodup_names_symbols_iff, variablePass_name?_eq_some_iff]

theorem variablePass_introduced_iff {line : Text} :
    (∃ o, variablePass.introduced line = .ok o) ↔ ∃ name, Declares line name := by
  simp only [variablePass_introduced_eq_ok_iff]
  exact ⟨fun ⟨_, name, _, h⟩ => ⟨name, h⟩, fun ⟨name, h⟩ => ⟨_, name, rfl, h⟩⟩

theorem Assembles.means (h : Assembles ls ds a) : Means ls ds a := by
  obtain ⟨instructions, words⟩ := (forall₂_encoded_iff h.labels h.vars).mp ⟨h.instructions, h.words⟩
  exact ⟨instructions, words, fun _ _ => address?_eq_some_iff_labelAt h.labels,
    fun _ _ => address?_eq_some_iff_variableAt h.vars⟩

theorem Assembles.grammatical (h : Assembles ls ds a) : Grammatical ls ds where
  labelled line hl := labelPass_introduced_iff.mp (h.labelled line hl)
  singleLabel := nodup_labels_iff.mp (h.labels ▸ a.labels.nodup_names)
  declared line hd := variablePass_introduced_iff.mp (h.declared line hd)
  singleVariable := nodup_variables_iff.mp (h.vars ▸ a.vars.nodup_names)
  commanding line hl := by
    obtain ⟨n, hn, rfl⟩ := List.getElem_of_mem hl
    exact ⟨_, h.means.instructions.get hn (h.means.instructions.length_eq ▸ hn)⟩

theorem Assembles.entries_vars (h : Assembles ls ds a) {names : List Text} (hn : List.Forall₂ Declares ds names) :
    a.vars.entries = (names.zipIdx ls.length).map fun (name, address) => ⟨name, address⟩ := by
  have named := hn.imp fun _ _ => variablePass_name?_eq_some_iff.mpr
  exact h.vars.trans (SymbolPass.symbols_eq_map_zipIdx named)

theorem Assembles.exists_names (h : Assembles ls ds a) :
    ∃ names, List.Forall₂ Declares ds names ∧
      a.vars.entries = (names.zipIdx ls.length).map fun (name, address) => ⟨name, address⟩ := by
  obtain ⟨names, hn⟩ := exists_forall₂ h.grammatical.declared
  exact ⟨names, hn, h.entries_vars hn⟩

theorem Grammatical.exists_assembles (h : Grammatical ls ds) : ∃ a, Assembles ls ds a := by
  -- The finished tables are known beforehand, so that lines may refer to names further down.
  let labels := labelPass.table 0 ls (nodup_labels_iff.mpr h.singleLabel)
  let vars := variablePass.table ls.length ds (nodup_variables_iff.mpr h.singleVariable)
  have encoded : ∀ line i, LineCommands ls ds line i →
      instruction labels vars line = .ok i ∧ ∃ w, i.encode = .ok w := fun _ _ =>
    (instruction_eq_ok_iff_lineCommands rfl rfl).mpr
  obtain ⟨is, his⟩ := exists_forall₂ h.commanding
  have packed : ∀ i ∈ is, ∃ w, i.encode = .ok w := by
    intro i hi
    obtain ⟨n, hn, rfl⟩ := List.getElem_of_mem hi
    exact (encoded _ _ (his.get (his.length_eq ▸ hn) hn)).2
  obtain ⟨ws, hws⟩ := exists_forall₂ packed
  exact ⟨⟨is, ws, labels, vars⟩, fun line hl => labelPass_introduced_iff.mpr (h.labelled line hl), rfl,
    fun line hd => variablePass_introduced_iff.mpr (h.declared line hd), rfl,
    his.imp fun line i hi => (encoded line i hi).1, hws⟩

theorem Grammatical.assembles (h : Grammatical ls ds) (hm : Means ls ds a) : Assembles ls ds a := by
  obtain ⟨b, hb⟩ := h.exists_assembles
  have labels : a.labels = b.labels := SymbolTable.eq_of_address?_iff fun name v =>
    (hm.labels name v).trans (hb.means.labels name v).symm
  have vars : a.vars = b.vars := SymbolTable.eq_of_address?_iff fun name v =>
    (hm.vars name v).trans (hb.means.vars name v).symm
  have hl : a.labels.entries = labelPass.symbols 0 ls := labels ▸ hb.labels
  have hv : a.vars.entries = variablePass.symbols ls.length ds := vars ▸ hb.vars
  obtain ⟨instructions, words⟩ := (forall₂_encoded_iff hl hv).mpr ⟨hm.instructions, hm.words⟩
  exact ⟨hb.labelled, hl, hb.declared, hv, instructions, words⟩

theorem assembles_iff : Assembles ls ds a ↔ Grammatical ls ds ∧ Means ls ds a :=
  ⟨fun h => ⟨h.grammatical, h.means⟩, fun h => h.1.assembles h.2⟩

/-- The assembler accepts just the sources that follow the grammar, and gives each what it means. -/
theorem ofSource_iff_grammatical_means (source : Text) :
    ((∃ a, ofSource source = .ok a) ↔ Grammatical (code source) (declarations source)) ∧
      ∀ a, ofSource source = .ok a ↔
        Grammatical (code source) (declarations source) ∧ Means (code source) (declarations source) a := by
  simp only [ofSource_eq_ok_iff, assembles_iff, implies_true, and_true]
  refine ⟨fun h => ?_, fun h => ?_⟩
  · obtain ⟨a, h, -⟩ := h
    exact h
  · obtain ⟨a, ha⟩ := h.exists_assembles
    exact ⟨a, h, ha.means⟩

end StoredProgram.Assembly
