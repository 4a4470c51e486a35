import StoredProgram.Assembly.Basic
import StoredProgram.Proofs.Assembly.Labelling
import StoredProgram.Proofs.Instruction.Codec

/-! # Instruction lines

When a line gives an instruction. Reading the line finds its body, the tokens of the body, the operation and
the operand, each of which is what the written form says (`ofMnemonic?_eq_some_iff`, `split?_eq_some_iff`,
`Operand.ofText?_eq_some_iff`), and only the value of the operand depends on the symbol tables
(`Assembly.instruction_eq_ok_iff`). -/

namespace StoredProgram

/-! ### Mnemonics and modes -/

theorem Operation.ofMnemonic?_eq_some_iff {t : Text} {op : Operation} :
    ofMnemonic? t = some op ↔ t = op.mnemonic := by
  refine ⟨fun h => ?_, fun h => h ▸ ofMnemonic?_mnemonic op⟩
  exact (by simpa using List.find?_some h : op.mnemonic = t).symm

theorem Mode.split?_eq_some_iff {t rest : Text} {m : Mode} :
    split? t = some (m, rest) ↔ t = m.sigil ++ rest ∧ (m = .direct → rest.head? ≠ some 'R') := by
  refine ⟨fun h => ?_, fun ⟨h, hr⟩ => h ▸ split?_append hr⟩
  unfold split? at h
  split at h
  · cases h
    exact ⟨rfl, fun h => (nomatch h)⟩
  · cases h
    exact ⟨rfl, fun h => (nomatch h)⟩
  · rename_i t hno
    cases h
    refine ⟨rfl, fun _ hr => ?_⟩
    obtain ⟨s, rfl⟩ := List.head?_eq_some_iff.mp hr
    exact hno s rfl
  · cases h

theorem Mode.sigil_head?_ne (m : Mode) (t : Text) : (m.sigil ++ t).head? ≠ some '@' := by
  cases m <;> exact fun h => absurd (Option.some.inj h) (by decide)

/-! ### Operands -/

namespace Operand

theorem ofText?_eq_some_target_iff {t label : Text} : ofText? t = some (.target label) ↔ t = '@' :: label := by
  unfold ofText?
  split
  · simp
  · rename_i hno
    simp only [Option.map_eq_some_iff, reduceCtorEq, and_false, exists_false, false_iff]
    exact hno label

theorem ofText?_eq_some_value_iff {t rest : Text} {m : Mode} :
    ofText? t = some (.value m rest) ↔ Mode.split? t = some (m, rest) := by
  unfold ofText?
  split
  · rename_i label
    simp only [Option.some.injEq, reduceCtorEq, false_iff, Mode.split?_eq_some_iff]
    exact fun h => Mode.sigil_head?_ne m rest (by rw [← h.1]; rfl)
  · simp

theorem literal?_eq_some_iff {t : Text} {v : Int} :
    literal? t = some v ↔
      t ≠ [] ∧ (∀ c ∈ t, c.isDigit = true) ∧ v = (Nat.ofDigitChars 10 t 0 : Nat) ∧ v < 9223372036854775808 := by
  unfold literal?
  simp only [Option.map_eq_some_iff, Option.bind_eq_some_iff, Word.ofInt?_eq_some_iff, Text.natural?_eq_some_iff]
  refine ⟨fun h => ?_, fun h => ?_⟩
  · obtain ⟨w, ⟨n, ⟨hne, hd, rfl⟩, hw⟩, rfl⟩ := h
    exact ⟨hne, hd, hw, Int64.toInt_lt w⟩
  · obtain ⟨hne, hd, rfl, hlt⟩ := h
    have fits : (Int64.ofInt (Nat.ofDigitChars 10 t 0 : Nat)).toInt = (Nat.ofDigitChars 10 t 0 : Nat) :=
      Int64.toInt_ofInt_of_le (by omega) hlt
    exact ⟨_, ⟨_, ⟨hne, hd, rfl⟩, fits⟩, fits⟩

theorem literal?_digits {digits : Text} {n : Nat} (hne : digits ≠ []) (hd : ∀ c ∈ digits, c.isDigit = true)
    (hn : Nat.ofDigitChars 10 digits 0 = n) :
    literal? digits = if n < 9223372036854775808 then some (n : Int) else none := by
  split
  · rename_i hlt
    exact literal?_eq_some_iff.mpr ⟨hne, hd, by rw [hn], by omega⟩
  · rename_i hge
    refine Option.eq_none_iff_forall_ne_some.mpr fun v hv => ?_
    obtain ⟨-, -, rfl, hlt⟩ := literal?_eq_some_iff.mp hv
    omega

theorem resolve?_target {labels vars : SymbolTable} {label : Text} {m : Mode} {v : Int} :
    (target label).resolve? labels vars = some (m, v) ↔ m = .immediate ∧ labels.address? label = some v := by
  unfold resolve?
  rw [Option.map_eq_some_iff]
  refine ⟨fun h => ?_, fun h => ?_⟩
  · obtain ⟨a, ha, h⟩ := h
    cases h
    exact ⟨rfl, ha⟩
  · obtain ⟨rfl, ha⟩ := h
    exact ⟨v, ha, rfl⟩

theorem resolve?_value {labels vars : SymbolTable} {t : Text} {m k : Mode} {v : Int} :
    (value k t).resolve? labels vars = some (m, v) ↔ m = k ∧ (literal? t).or (vars.address? t) = some v := by
  unfold resolve?
  rw [Option.map_eq_some_iff]
  refine ⟨fun h => ?_, fun h => ?_⟩
  · obtain ⟨a, ha, h⟩ := h
    cases h
    exact ⟨rfl, ha⟩
  · obtain ⟨rfl, ha⟩ := h
    exact ⟨v, ha, rfl⟩

end Operand

/-! ### Instructions -/

namespace Assembly

variable {labels vars : SymbolTable}

theorem operand_eq_ok_iff {t : Text} {m : Mode} {v : Int} :
    operand labels vars t = .ok (m, v) ↔
      ∃ o, Operand.ofText? t = some o ∧ o.resolve? labels vars = some (m, v) := by
  unfold operand
  cases Operand.ofText? t with
  | none => simp
  | some o =>
    simp only [Option.some.injEq, exists_eq_left']
    cases hr : o.resolve? labels vars <;> cases o <;> simp

theorem statement_eq_ok_iff {line body : Text} {i : Instruction} :
    statement labels vars line body = .ok i ↔
      (body.words = [Operation.halt.mnemonic] ∧ i = .halt) ∨
        ∃ t, body.words = [i.operation.mnemonic, t] ∧ operand labels vars t = .ok (i.mode, i.value) := by
  unfold statement
  split
  · rename_i name hw
    rw [hw]
    simp only [List.cons.injEq, reduceCtorEq, and_false, and_true, false_and, exists_false, or_false]
    split
    · rename_i hn
      simp [hn, eq_comm]
    · rename_i hn
      simp [hn]
  · rename_i name t hw
    rw [hw]
    simp only [List.cons.injEq, reduceCtorEq, and_false, and_true, false_and, false_or]
    split
    · rename_i hn
      refine ⟨fun h => (nomatch h), fun ⟨_, ⟨h, _⟩, _⟩ => ?_⟩
      rw [Operation.ofMnemonic?_eq_some_iff.mpr h] at hn
      cases hn
    · rename_i op hn
      rw [map_eq_ok_iff]
      refine ⟨fun h => ?_, fun h => ?_⟩
      · obtain ⟨⟨m, v⟩, hv, rfl⟩ := h
        exact ⟨t, ⟨Operation.ofMnemonic?_eq_some_iff.mp hn, rfl⟩, hv⟩
      · obtain ⟨t', ⟨h, rfl⟩, hv⟩ := h
        rw [Operation.ofMnemonic?_eq_some_iff.mpr h] at hn
        cases hn
        exact ⟨_, hv, rfl⟩
  · rename_i h1 h2
    refine ⟨fun h => (nomatch h), fun h => ?_⟩
    rcases h with ⟨hw, -⟩ | ⟨t, hw, -⟩
    · exact absurd hw (h1 _)
    · exact absurd hw (h2 _ _)

/-- The body of a line: all of it, or what follows the label. -/
def HasBody (line body : Text) : Prop :=
  (line.head? ≠ some '@' ∧ body = line) ∨ ∃ name, Labelled line name body

theorem instruction_eq_ok_iff {line : Text} {i : Instruction} :
    instruction labels vars line = .ok i ↔
      ∃ body, HasBody line body ∧ statement labels vars line body = .ok i := by
  unfold instruction HasBody
  simp only [← Labelling.ofText_eq_plain_iff, ← Labelling.ofText_eq_labelled_iff]
  cases Labelling.ofText line <;> simp

theorem HasBody.instruction_eq {line body : Text} (h : HasBody line body) :
    instruction labels vars line = statement labels vars line body := by
  unfold instruction
  rcases h with ⟨hat, rfl⟩ | ⟨name, h⟩
  · rw [Labelling.ofText_of_head?_ne hat]
  · rw [Labelling.ofText_of_labelled h]

/-- An instruction has the value of the text behind its mode: the number that it is, or else the address of the
    variable that it names. -/
theorem HasBody.instruction_of_words {line body t : Text} {op : Operation} {m : Mode} (h : HasBody line body)
    (hw : body.words = [op.mnemonic, m.sigil ++ t]) (hr : m = .direct → t.head? ≠ some 'R') : instruction labels vars line =
      match (Operand.literal? t).or (vars.address? t) with
      | some v => .ok ⟨op, m, v⟩
      | none => .error (.value (m.sigil ++ t)) := by
  have read : Operand.ofText? (m.sigil ++ t) = some (.value m t) :=
    Operand.ofText?_eq_some_value_iff.mpr (Mode.split?_append hr)
  have named : Operation.ofMnemonic? op.mnemonic = some op := Operation.ofMnemonic?_eq_some_iff.mpr rfl
  rw [h.instruction_eq]
  simp only [statement, hw, named, operand, read, Operand.resolve?]
  cases (Operand.literal? t).or (vars.address? t) <;> rfl

theorem encoded_eq_ok_iff {line : Text} {i : Instruction} {w : Word} :
    encoded labels vars line = .ok (i, w) ↔ instruction labels vars line = .ok i ∧ i.encode = .ok w := by
  unfold encoded
  rw [bind_eq_ok_iff]
  refine ⟨fun h => ?_, fun h => ?_⟩
  · obtain ⟨j, hj, h⟩ := h
    split at h
    · rename_i hw
      cases h
      exact ⟨hj, hw⟩
    · cases h
  · obtain ⟨hi, hw⟩ := h
    exact ⟨i, hi, by rw [hw]⟩

end Assembly
end StoredProgram
