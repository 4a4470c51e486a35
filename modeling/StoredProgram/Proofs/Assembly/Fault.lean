import StoredProgram.Proofs.Assembly.Grammar

/-! # Faults of lines

What can be wrong with a line of a source, told from the source alone, and when the readers of lines refuse a line
for it. The last pass is told with finished tables: the labels and variables of the whole source. -/

namespace StoredProgram

theorem Mode.split?_eq_none_iff {t : Text} : split? t = none ↔ ∀ m : Mode, ¬m.sigil <+: t := by
  refine ⟨fun h m hp => ?_, fun h => ?_⟩
  · obtain ⟨rest, rfl⟩ := hp
    -- A letter `R` is a mode, whether or not another one follows.
    obtain ⟨k, r, hk⟩ : ∃ k r, split? (m.sigil ++ rest) = some (k, r) := by
      by_cases hr : m = direct ∧ rest.head? = some 'R'
      · obtain ⟨rfl, hr⟩ := hr
        obtain ⟨r, rfl⟩ := List.head?_eq_some_iff.mp hr
        exact ⟨indirect, r, rfl⟩
      · exact ⟨m, rest, split?_append fun hm h => hr ⟨hm, h⟩⟩
    rw [hk] at h
    cases h
  · refine Option.eq_none_iff_forall_ne_some.mpr fun (m, rest) hs => h m ⟨rest, ?_⟩
    exact (split?_eq_some_iff.mp hs).1.symm

theorem Operand.ofText?_eq_none_iff {t : Text} :
    ofText? t = none ↔ t.head? ≠ some '@' ∧ ∀ m : Mode, ¬m.sigil <+: t := by
  rw [← Mode.split?_eq_none_iff]
  unfold ofText?
  split
  · simp
  · rename_i hno
    have first : t.head? ≠ some '@' := fun h => by
      obtain ⟨label, rfl⟩ := List.head?_eq_some_iff.mp h
      exact hno label rfl
    simp [first]

namespace Assembly

/-- What may follow a mode: digits of a number that a word holds, or the name of a variable. -/
inductive Stands (ls ds : List Text) : Text → Int → Prop
  | number {digits : Text} {v : Int} (hne : digits ≠ []) (hd : ∀ c ∈ digits, c.isDigit = true)
    (hv : v = (Nat.ofDigitChars 10 digits 0 : Nat)) (hlt : v < 9223372036854775808) : Stands ls ds digits v
  | name {name : Text} {v : Int} (h : VariableAt ls.length ds name v) : Stands ls ds name v

/-- The mode and the value that an operand is read as. -/
inductive Reads (ls ds : List Text) : Text → Mode → Int → Prop
  | label {name : Text} {v : Int} (h : LabelAt ls name v) : Reads ls ds ('@' :: name) .immediate v
  | value {m : Mode} {rest : Text} {v : Int} (hr : m = .direct → rest.head? ≠ some 'R') (h : Stands ls ds rest v) :
    Reads ls ds (m.sigil ++ rest) m v

/-- What is wrong with an operand that cannot be read: there is no such label, it has no mode, or what follows the
    mode stands for nothing. -/
inductive OperandFault (ls ds : List Text) : Text → Problem → Prop
  | label {name : Text} (h : ∀ v, ¬LabelAt ls name v) : OperandFault ls ds ('@' :: name) (.label name)
  | mode {t : Text} (hat : t.head? ≠ some '@') (h : ∀ m : Mode, ¬m.sigil <+: t) : OperandFault ls ds t (.mode t)
  | value {m : Mode} {rest : Text} (hr : m = .direct → rest.head? ≠ some 'R') (h : ∀ v, ¬Stands ls ds rest v) :
    OperandFault ls ds (m.sigil ++ rest) (.value (m.sigil ++ rest))

/-- What is wrong with an instruction line, whose body is what follows its label: there are too few or too many
    tokens, no such operation, an operand that cannot be read, or one that does not fit a word. -/
inductive InstructionFault (ls ds : List Text) (line : Text) : Problem → Prop
  | expressions {body : Text} (hb : HasBody line body) (hone : body.words ≠ [Operation.halt.mnemonic])
    (htwo : ∀ s t, body.words ≠ [s, t]) : InstructionFault ls ds line (.expressions line)
  | operation {body name t : Text} (hb : HasBody line body) (hw : body.words = [name, t])
    (h : ∀ op : Operation, name ≠ op.mnemonic) : InstructionFault ls ds line (.operation name)
  | operand {body t : Text} {op : Operation} {p : Problem} (hb : HasBody line body)
    (hw : body.words = [op.mnemonic, t]) (h : OperandFault ls ds t p) : InstructionFault ls ds line p
  | encoding {body t : Text} {op : Operation} {m : Mode} {v : Int} (hb : HasBody line body)
    (hw : body.words = [op.mnemonic, t]) (h : Reads ls ds t m v) (hv : 65536 ≤ v) :
    InstructionFault ls ds line (.encoding (.overflow v 65536))

variable {ls ds : List Text} {labels vars : SymbolTable} {line body t : Text} {p : Problem}

/-! ### Names -/

theorem labelPass_introduced_eq_error_iff :
    labelPass.introduced line = .error p ↔
      line.head? = some '@' ∧ (∀ name body, ¬Labelled line name body) ∧ p = .labelling line := by
  have refused : ∀ q, labelPass.introduced line = .error q → q = .labelling line := fun q hq => by
    rw [labelPass_introduced, labelName] at hq
    split at hq <;> cases hq
    rfl
  have readable := @labelPass_introduced_iff line
  cases hi : labelPass.introduced line with
  | ok o =>
    constructor
    · intro h
      cases h
    · rintro ⟨hat, hno, -⟩
      obtain ⟨name, body, hb⟩ := readable.mp ⟨o, hi⟩ hat
      exact absurd hb (hno name body)
  | error q =>
    rw [hi] at readable
    have hno : ¬(line.head? = some '@' → ∃ name body, Labelled line name body) := fun h => by
      obtain ⟨o, ho⟩ := readable.mpr h
      cases ho
    push Not at hno
    rw [refused q hi, Except.error.injEq]
    exact ⟨fun h => ⟨hno.1, hno.2, h.symm⟩, fun h => h.2.2.symm⟩

theorem variableName_of_words {name : Text} (hw : line.words = [keyword, name]) :
    variableName line = if isVariableName name then .ok (some name) else .error (.variableName name) := by
  unfold variableName
  rw [hw]
  simp only [ne_eq, not_true_eq_false, ↓reduceIte]
  cases isVariableName name <;> rfl

theorem variableName_of_words_ne (h : ∀ name, line.words ≠ [keyword, name]) :
    variableName line = .error (.definition line) := by
  unfold variableName
  split
  · rename_i word name hw
    rw [if_pos (show word ≠ keyword from fun hk => h name (hk ▸ hw))]
  · rfl

theorem variablePass_introduced_eq_error_iff :
    variablePass.introduced line = .error p ↔
      ((∀ name, line.words ≠ [keyword, name]) ∧ p = .definition line) ∨
        ∃ name, line.words = [keyword, name] ∧ ¬IsVariableName name ∧ p = .variableName name := by
  rw [variablePass_introduced]
  by_cases hw : ∃ name, line.words = [keyword, name]
  · obtain ⟨name, hw⟩ := hw
    rw [variableName_of_words hw, hw]
    simp only [← isVariableName_iff]
    by_cases hn : isVariableName name = true
    · simp [hn]
    · rw [if_neg hn]
      refine ⟨fun h => Or.inr ⟨name, rfl, hn, (Except.error.inj h).symm⟩, fun h => ?_⟩
      rcases h with ⟨h, -⟩ | ⟨name', hw', -, rfl⟩
      · exact absurd rfl (h name)
      · cases hw'
        rfl
  · have hw := not_exists.mp hw
    rw [variableName_of_words_ne hw, Except.error.injEq]
    refine ⟨fun h => Or.inl ⟨hw, h.symm⟩, fun h => ?_⟩
    rcases h with ⟨-, h⟩ | ⟨name, h, -⟩
    · exact h.symm
    · exact absurd h (hw name)

/-! ### Operands -/

theorem operand_eq_error_iff :
    operand labels vars t = .error p ↔ (Operand.ofText? t = none ∧ p = .mode t) ∨
      (∃ name, Operand.ofText? t = some (.target name) ∧ labels.address? name = none ∧ p = .label name) ∨
      ∃ m rest, Operand.ofText? t = some (.value m rest) ∧ (Operand.literal? rest).or (vars.address? rest) = none ∧
        p = .value t := by
  unfold operand
  cases Operand.ofText? t with
  | none => simp [eq_comm]
  | some o =>
    cases o with
    | target name => cases ha : labels.address? name <;> simp [Operand.resolve?, ha, eq_comm]
    | value m rest =>
      cases ha : (Operand.literal? rest).or (vars.address? rest) <;> simp [Operand.resolve?, ha, eq_comm]

section Tables

variable (hl : labels.entries = labelPass.symbols 0 ls) (hv : vars.entries = variablePass.symbols ls.length ds)
include hl hv

omit hl in
theorem stands_iff {v : Int} : Stands ls ds t v ↔ (Operand.literal? t).or (vars.address? t) = some v := by
  rw [Option.or_eq_some_iff, Operand.literal?_eq_some_iff, address?_eq_some_iff_variableAt hv]
  refine ⟨fun h => ?_, fun h => ?_⟩
  · cases h with
    | number hne hd hv hlt => exact Or.inl ⟨hne, hd, hv, hlt⟩
    | name h => exact Or.inr ⟨literal?_of_isVariableName h.isVariableName, h⟩
  · rcases h with ⟨hne, hd, hv, hlt⟩ | ⟨-, h⟩
    · exact .number hne hd hv hlt
    · exact .name h

theorem operand_eq_ok_iff_reads {m : Mode} {v : Int} : operand labels vars t = .ok (m, v) ↔ Reads ls ds t m v := by
  rw [operand_eq_ok_iff]
  refine ⟨fun h => ?_, fun h => ?_⟩
  · obtain ⟨o, ho, hr⟩ := h
    cases o with
    | target name =>
      obtain rfl := Operand.ofText?_eq_some_target_iff.mp ho
      obtain ⟨rfl, ha⟩ := Operand.resolve?_target.mp hr
      exact .label ((address?_eq_some_iff_labelAt hl).mp ha)
    | value k rest =>
      obtain ⟨rfl, hR⟩ := Mode.split?_eq_some_iff.mp (Operand.ofText?_eq_some_value_iff.mp ho)
      obtain ⟨rfl, ha⟩ := Operand.resolve?_value.mp hr
      exact .value hR ((stands_iff hv).mpr ha)
  · cases h with
    | label h =>
      exact ⟨_, Operand.ofText?_eq_some_target_iff.mpr rfl,
        Operand.resolve?_target.mpr ⟨rfl, (address?_eq_some_iff_labelAt hl).mpr h⟩⟩
    | value hR h =>
      exact ⟨_, Operand.ofText?_eq_some_value_iff.mpr (Mode.split?_append hR),
        Operand.resolve?_value.mpr ⟨rfl, (stands_iff hv).mp h⟩⟩

theorem operand_eq_error_iff_fault : operand labels vars t = .error p ↔ OperandFault ls ds t p := by
  rw [operand_eq_error_iff]
  refine ⟨fun h => ?_, fun h => ?_⟩
  · rcases h with ⟨ho, rfl⟩ | ⟨name, ho, ha, rfl⟩ | ⟨m, rest, ho, ha, rfl⟩
    · obtain ⟨hat, hno⟩ := Operand.ofText?_eq_none_iff.mp ho
      exact .mode hat hno
    · obtain rfl := Operand.ofText?_eq_some_target_iff.mp ho
      refine .label fun v hv => ?_
      rw [← address?_eq_some_iff_labelAt hl, ha] at hv
      cases hv
    · obtain ⟨rfl, hr⟩ := Mode.split?_eq_some_iff.mp (Operand.ofText?_eq_some_value_iff.mp ho)
      refine .value hr fun v hs => ?_
      rw [stands_iff hv, ha] at hs
      cases hs
  · cases h with
    | label h =>
      have none := Option.eq_none_iff_forall_ne_some.mpr fun v ha => h v ((address?_eq_some_iff_labelAt hl).mp ha)
      exact Or.inr (Or.inl ⟨_, Operand.ofText?_eq_some_target_iff.mpr rfl, none, rfl⟩)
    | mode hat h => exact Or.inl ⟨Operand.ofText?_eq_none_iff.mpr ⟨hat, h⟩, rfl⟩
    | value hr h =>
      have none := Option.eq_none_iff_forall_ne_some.mpr fun v ha => h v ((stands_iff hv).mpr ha)
      exact Or.inr (Or.inr ⟨_, _, Operand.ofText?_eq_some_value_iff.mpr (Mode.split?_append hr), none, rfl⟩)

/-! ### Instructions -/

omit hl hv in
theorem Reads.nonneg {m : Mode} {v : Int} (h : Reads ls ds t m v) : 0 ≤ v := by
  cases h with
  | label h =>
    obtain ⟨_, _, -, -, rfl⟩ := h
    omega
  | value _ h =>
    cases h with
    | number => omega
    | name h =>
      obtain ⟨_, _, -, -, rfl⟩ := h
      omega

omit hl hv in
theorem statement_eq_error_iff : statement labels vars line body = .error p ↔
    (body.words ≠ [Operation.halt.mnemonic] ∧ (∀ s t, body.words ≠ [s, t]) ∧ p = .expressions line) ∨
      (∃ name t, body.words = [name, t] ∧ (∀ op : Operation, name ≠ op.mnemonic) ∧ p = .operation name) ∨
      ∃ (op : Operation) (t : Text), body.words = [op.mnemonic, t] ∧ operand labels vars t = .error p := by
  unfold statement
  split
  · rename_i name hw
    rw [hw]
    by_cases hn : name = Operation.halt.mnemonic
    · simp [hn]
    · simp [hn, eq_comm]
  · rename_i name t hw
    rw [hw]
    cases hop : Operation.ofMnemonic? name with
    | none =>
      have unknown : ∀ op : Operation, name ≠ op.mnemonic := fun op h => by
        rw [Operation.ofMnemonic?_eq_some_iff.mpr h] at hop
        cases hop
      refine ⟨fun h => Or.inr (Or.inl ⟨name, t, rfl, unknown, (Except.error.inj h).symm⟩), fun h => ?_⟩
      rcases h with ⟨-, h, -⟩ | ⟨_, _, h, -, rfl⟩ | ⟨op, _, h, -⟩
      · exact absurd rfl (h name t)
      · cases h
        rfl
      · exact absurd (List.cons.inj h).1 (unknown op)
    | some op =>
      obtain rfl := Operation.ofMnemonic?_eq_some_iff.mp hop
      simp only [map_eq_error_iff]
      refine ⟨fun h => Or.inr (Or.inr ⟨op, t, rfl, h⟩), fun h => ?_⟩
      rcases h with ⟨-, h, -⟩ | ⟨_, _, h, hno, -⟩ | ⟨_, _, h, ho⟩
      · exact absurd rfl (h op.mnemonic t)
      · exact absurd (List.cons.inj h).1.symm (hno op)
      · obtain rfl : t = _ := by simpa using (List.cons.inj h).2
        exact ho
  · rename_i hone htwo
    refine ⟨fun h => Or.inl ⟨hone _, htwo, (Except.error.inj h).symm⟩, fun h => ?_⟩
    rcases h with ⟨-, -, rfl⟩ | ⟨name, t, hw, -⟩ | ⟨op, t, hw, -⟩
    · rfl
    · exact absurd hw (htwo name t)
    · exact absurd hw (htwo _ t)

omit hl hv in
theorem instruction_eq_error_iff (hr : ∃ o, labelPass.introduced line = .ok o) :
    instruction labels vars line = .error p ↔ ∃ body, HasBody line body ∧ statement labels vars line body = .error p := by
  rw [labelPass_introduced, labelName] at hr
  unfold instruction HasBody
  simp only [← Labelling.ofText_eq_plain_iff, ← Labelling.ofText_eq_labelled_iff]
  cases hl : Labelling.ofText line with
  | plain body => simp
  | labelled name body => simp
  | malformed =>
    rw [hl] at hr
    obtain ⟨o, ho⟩ := hr
    cases ho

omit hl hv in
theorem encoded_eq_error_iff : encoded labels vars line = .error p ↔
    instruction labels vars line = .error p ∨
      ∃ i e, instruction labels vars line = .ok i ∧ i.encode = .error e ∧ p = .encoding e := by
  unfold encoded
  rw [bind_eq_error_iff]
  refine or_congr_right (exists_congr fun i => ?_)
  cases he : i.encode with
  | ok w => simp
  | error e => simp [eq_comm]

/-- With the tables of a source, a line is refused for what is wrong with it. -/
theorem encoded_eq_error_iff_fault (hr : ∃ o, labelPass.introduced line = .ok o) :
    encoded labels vars line = .error p ↔ InstructionFault ls ds line p := by
  rw [encoded_eq_error_iff, instruction_eq_error_iff hr]
  refine ⟨fun h => ?_, fun h => ?_⟩
  · rcases h with ⟨body, hb, h⟩ | ⟨i, e, hi, he, rfl⟩
    · rcases statement_eq_error_iff.mp h with ⟨hone, htwo, rfl⟩ | ⟨name, t, hw, hno, rfl⟩ | ⟨op, t, hw, ho⟩
      · exact .expressions hb hone htwo
      · exact .operation hb hw hno
      · exact .operand hb hw ((operand_eq_error_iff_fault hl hv).mp ho)
    · obtain ⟨body, hb, hs⟩ := instruction_eq_ok_iff.mp hi
      rcases statement_eq_ok_iff.mp hs with ⟨-, rfl⟩ | ⟨t, hw, ho⟩
      · cases he
      · have reads := (operand_eq_ok_iff_reads hl hv).mp ho
        rcases Instruction.encode_eq_error_iff.mp he with ⟨hneg, -⟩ | ⟨hbig, rfl⟩
        · exact absurd reads.nonneg (by omega)
        · exact .encoding hb hw reads hbig
  · cases h with
    | expressions hb hone htwo =>
      exact Or.inl ⟨_, hb, statement_eq_error_iff.mpr (Or.inl ⟨hone, htwo, rfl⟩)⟩
    | operation hb hw hno =>
      exact Or.inl ⟨_, hb, statement_eq_error_iff.mpr (Or.inr (Or.inl ⟨_, _, hw, hno, rfl⟩))⟩
    | operand hb hw h =>
      have ho := (operand_eq_error_iff_fault hl hv).mpr h
      exact Or.inl ⟨_, hb, statement_eq_error_iff.mpr (Or.inr (Or.inr ⟨_, _, hw, ho⟩))⟩
    | @encoding body t op m v hb hw h hbig =>
      have ho := (operand_eq_ok_iff_reads hl hv).mpr h
      exact Or.inr ⟨⟨op, m, v⟩, _, instruction_eq_ok_iff.mpr ⟨body, hb, statement_eq_ok_iff.mpr (Or.inr ⟨t, hw, ho⟩)⟩,
        Instruction.encode_eq_error_iff.mpr (Or.inr ⟨hbig, rfl⟩), rfl⟩

end Tables
end Assembly
end StoredProgram
