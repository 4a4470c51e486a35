import StoredProgram.Instruction
import StoredProgram.Proofs.Text.Blank
import StoredProgram.Proofs.Text.Lines

/-! # Written instructions

An instruction is written as a mnemonic, with an operand behind a space unless it is the plain halt. So
splitting the text at white space finds the mnemonic and the operand again (`words_line`), and the text can
stand on a line of a source, alone or behind a label (`isLine_line`, `isLine_text`). -/

namespace StoredProgram

theorem Mode.isToken_sigil (m : Mode) : Text.IsToken m.sigil := by
  cases m <;> decide

theorem Mode.isToken_append (m : Mode) {t : Text} (h : t.IsToken) : Text.IsToken (m.sigil ++ t) := by
  refine ⟨List.append_ne_nil_of_right_ne_nil _ h.1, fun c hc => ?_⟩
  exact (List.mem_append.mp hc).elim (m.isToken_sigil.2 c) (h.2 c)

namespace Operation

variable {t : Text}

theorem isToken_mnemonic (op : Operation) : Text.IsToken op.mnemonic := by
  cases op <;> decide

theorem exists_mnemonic_eq_cons (op : Operation) : ∃ c rest, op.mnemonic = c :: rest ∧ c.isUpper = true := by
  cases op <;> exact ⟨_, _, rfl, rfl⟩

/-- An operation with an operand. -/
def line (op : Operation) (t : Text) : Text := op.mnemonic ++ ' ' :: t

theorem words_line_eq_cons (op : Operation) (t : Text) : (op.line t).words = op.mnemonic :: t.words :=
  Text.words_isToken_append op.isToken_mnemonic rfl t

theorem words_line (op : Operation) (h : Text.IsToken t) : (op.line t).words = [op.mnemonic, t] := by
  rw [words_line_eq_cons, Text.words_of_isToken h]

theorem isLine_line (op : Operation) (h : Text.IsToken t) : (op.line t).IsLine := by
  rw [line, ← List.singleton_append, ← List.append_assoc]
  exact op.isToken_mnemonic.isLine.join h.isLine (by decide)

theorem head?_mnemonic_ne (op : Operation) {c : Char} (h : c.isUpper = false) : op.mnemonic.head? ≠ some c := by
  obtain ⟨d, rest, hm, hd⟩ := op.exists_mnemonic_eq_cons
  rw [hm]
  rintro ⟨⟩
  exact absurd hd (Bool.eq_false_iff.mp h)

/-- A written operation starts with an upper-case letter, and so with no sign that has a meaning. -/
theorem head?_line_ne (op : Operation) (t : Text) {c : Char} (h : c.isUpper = false) :
    (op.line t).head? ≠ some c := by
  obtain ⟨d, rest, hm, -⟩ := op.exists_mnemonic_eq_cons
  have first : (op.line t).head? = op.mnemonic.head? := by rw [line, hm]; rfl
  rw [first]
  exact op.head?_mnemonic_ne h

/-! A row whose first token is a mnemonic: trimmed, it starts with an upper-case letter. -/

section Row

variable {row : Text} {ws : List Text}

theorem head?_trim_ne (op : Operation) (hw : row.words = op.mnemonic :: ws) {c : Char} (h : c.isUpper = false) :
    (Text.trim row).head? ≠ some c := by
  rw [Text.head?_of_words (Text.isTrimmed_trim row).1 ((Text.words_trim row).trans hw)]
  exact op.head?_mnemonic_ne h

theorem trim_ne_nil (op : Operation) (hw : row.words = op.mnemonic :: ws) : Text.trim row ≠ [] := by
  intro hnil
  rw [← Text.words_trim, hnil] at hw
  cases hw

end Row
end Operation

namespace Instruction

variable {i : Instruction}

theorem text_of_ne (h : i ≠ halt) : i.text = i.operation.line (i.mode.sigil ++ Text.ofInt i.value) := by
  rw [text, if_neg h, List.append_assoc, List.cons_append, Operation.line]

theorem isToken_operand (m : Mode) {v : Int} (h : 0 ≤ v) : Text.IsToken (m.sigil ++ Text.ofInt v) := by
  obtain ⟨n, rfl⟩ := Int.eq_ofNat_of_zero_le h
  exact m.isToken_append (Text.isToken_ofNat n)

theorem words_text_halt : halt.text.words = [Operation.halt.mnemonic] :=
  Text.words_of_isToken Operation.halt.isToken_mnemonic

theorem words_text_of_ne (h : i ≠ halt) (h0 : 0 ≤ i.value) :
    i.text.words = [i.operation.mnemonic, i.mode.sigil ++ Text.ofInt i.value] := by
  rw [text_of_ne h, Operation.words_line _ (isToken_operand i.mode h0)]

theorem isLine_text (h0 : 0 ≤ i.value) : i.text.IsLine := by
  by_cases h : i = halt
  · rw [h]
    exact Operation.halt.isToken_mnemonic.isLine
  · rw [text_of_ne h]
    exact i.operation.isLine_line (isToken_operand i.mode h0)

theorem head?_text_ne (i : Instruction) {c : Char} (hc : c.isUpper = false) : i.text.head? ≠ some c := by
  by_cases h : i = halt
  · rw [h]
    exact Operation.halt.head?_mnemonic_ne hc
  · rw [text_of_ne h]
    exact i.operation.head?_line_ne _ hc

theorem mem_text {c : Char} (h : c ∈ i.text) : c.isUpper = true ∨ c.isDigit = true ∨ c = ' ' ∨ c = '#' ∨ c = '-' := by
  have letters : ∀ c ∈ i.operation.mnemonic, c.isUpper = true :=
    List.all_eq_true.mp (by cases i.operation <;> rfl)
  have signs : ∀ c ∈ i.mode.sigil, (c.isUpper || c == '#') = true :=
    List.all_eq_true.mp (by cases i.mode <;> rfl)
  simp only [Bool.or_eq_true, beq_iff_eq] at signs
  unfold text at h
  split at h
  · exact Or.inl (letters c h)
  · rw [List.append_assoc, List.cons_append, List.mem_append, List.mem_cons, List.mem_append] at h
    rcases h with h | h | h | h
    · exact Or.inl (letters c h)
    · exact Or.inr (Or.inr (Or.inl h))
    · exact (signs c h).imp_right fun h => Or.inr (Or.inr (Or.inl h))
    · rcases Text.mem_ofInt h with h | h
      · exact Or.inr (Or.inr (Or.inr (Or.inr h)))
      · exact Or.inr (Or.inl h)

end Instruction
end StoredProgram
