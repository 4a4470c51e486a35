import StoredProgram.Proofs.Assembly.FirstFault
import StoredProgram.Proofs.Text.Blank

/-! # Faults that never come

Some faults are looked for and can never be met, since what could cause them is settled before. Labels are taken off the
lines a second time in the last pass, but a line of which this fails has been refused by the first pass
(`encoded_ne_labelling`). Behind a label there is always a token, as lines are trimmed (`Labelled.words_ne_nil`). A value
can be too large to be encoded, but not too small: no literal, label or variable stands for a negative number
(`Faulty.of_encoding`). -/

namespace StoredProgram

variable {line name body : Text}

/-- The white space before the body of a line is not the end of the line. -/
theorem Labelled.words_ne_nil (h : Labelled line name body) (ht : line.IsTrimmed) : body.words ≠ [] := by
  obtain ⟨-, -, gap, ⟨hne, hgap⟩, rfl⟩ := h
  intro hw
  have blank : Text.IsBlank (gap ++ body) := by
    intro c hc
    rcases List.mem_append.mp hc with hc | hc
    · exact Labelling.isSpace_of_isGap (Labelling.isGap_iff.mpr (hgap c hc))
    · exact Text.isBlank_of_words_eq_nil hw c hc
  have rest : gap ++ body ≠ [] := List.append_ne_nil_of_left_ne_nil hne body
  have apart : '@' :: name ++ ':' :: gap ++ body = ('@' :: name ++ [':']) ++ (gap ++ body) := by simp
  have last : ('@' :: name ++ ':' :: gap ++ body).getLast? = some ((gap ++ body).getLast rest) := by
    rw [apart, List.getLast?_append, List.getLast?_eq_some_getLast rest, Option.some_or]
  have space := blank _ (List.getLast_mem rest)
  rw [ht.2 _ last] at space
  cases space

namespace Assembly

/-- The faults that an assembler looks for in a source without ever meeting them. -/
structure Spared (source : Text) : Prop where
  /-- Behind the label pass, the label of a line is taken off without fail. -/
  split : ∀ labels, labelTable (instructionLines source) = .ok labels → ∀ l ∈ instructionLines source,
    Labelling.ofText l.text ≠ .malformed ∧ ∀ labels' vars t, encoded labels' vars l.text ≠ .error (.labelling t)
  /-- So a source is refused for a label only by the label pass. -/
  labelling : ∀ n t, ofSource source = .error ⟨n, .labelling t⟩ ↔
    labelTable (instructionLines source) = .error ⟨n, .labelling t⟩
  body : ∀ l ∈ instructionLines source, ∀ name body, Labelling.ofText l.text = .labelled name body → body.words ≠ []
  /-- No value of an operand is negative, be it a number, the index of a label or the address of a variable. -/
  literal : ∀ t v, Operand.literal? t = some v → 0 ≤ v
  labels : ∀ labels, labelTable (instructionLines source) = .ok labels → ∀ name v, labels.address? name = some v → 0 ≤ v
  vars : ∀ first vars, variableTable first (definitions source) = .ok vars →
    ∀ name v, vars.address? name = some v → 0 ≤ v
  /-- So a value that cannot be encoded is too large. -/
  encoding : ∀ n e, ofSource source = .error ⟨n, .encoding e⟩ → ∃ v, 65536 ≤ v ∧ e = .overflow v 65536

variable {source t : Text} {ls ds : List Text} {labels vars : SymbolTable} {pass : Pass} {n : Nat} {l : Line}

/-! ### Labels -/

theorem isTrimmed_of_mem_instructionLines (h : l ∈ instructionLines source) : l.text.IsTrimmed := by
  have hl := List.mem_map_of_mem (f := Line.text) (List.mem_filter.mp h).1
  rw [Text.map_text_lines] at hl
  exact (Text.isLine_of_mem_lineTexts hl).trimmed

theorem ofText_ne_malformed (h : ∃ o, labelPass.introduced line = .ok o) : Labelling.ofText line ≠ .malformed := by
  intro hm
  obtain ⟨o, ho⟩ := h
  rw [labelPass_introduced, labelName, hm] at ho
  cases ho

/-- A line that the label pass can read is not refused for its label. -/
theorem encoded_ne_labelling (h : ∃ o, labelPass.introduced line = .ok o) :
    encoded labels vars line ≠ .error (.labelling t) := by
  intro he
  rcases encoded_eq_error_iff.mp he with he | ⟨_, _, -, -, he⟩
  · obtain ⟨body, -, hs⟩ := (instruction_eq_error_iff h).mp he
    rcases statement_eq_error_iff.mp hs with ⟨-, -, hp⟩ | ⟨_, _, -, -, hp⟩ | ⟨_, _, -, ho⟩
    · cases hp
    · cases hp
    · rcases operand_eq_error_iff.mp ho with ⟨-, hp⟩ | ⟨_, -, -, hp⟩ | ⟨_, _, -, -, hp⟩ <;> cases hp
  · cases he

theorem Faulty.of_labelling (h : Faulty source pass n (.labelling t)) : pass = .labels := by
  cases h with
  | malformed => rfl
  | labelAgain => rfl
  | instruction _ h =>
    cases h with
    | operand _ _ h => cases h

theorem ofSource_eq_labelling_iff : ofSource source = .error ⟨n, .labelling t⟩ ↔
    labelTable (instructionLines source) = .error ⟨n, .labelling t⟩ := by
  rw [ofSource_eq_error_iff, firstFault_iff, labelTable_eq_error_iff]
  refine ⟨fun h => ?_, fun h => ⟨.labels, h, fun _ hlt => absurd hlt (Nat.not_lt_zero _)⟩⟩
  obtain ⟨pass, h, -⟩ := h
  obtain rfl := h.1.of_labelling
  exact h

/-! ### Values -/

theorem nonneg_of_entries {p : SymbolPass} {first : Nat} (h : vars.entries = p.symbols first ls) {v : Int}
    (hv : vars.address? name = some v) : 0 ≤ v := by
  have hm := SymbolTable.address?_eq_some_iff.mp hv
  have low := (SymbolPass.address_lt_of_mem_symbols (h ▸ hm)).1
  exact Int.le_trans (Int.natCast_nonneg first) low

/-- A value that cannot be encoded is that of an operand, and therefore too large. -/
theorem Faulty.of_encoding {e : PackError} (h : Faulty source pass n (.encoding e)) :
    ∃ v, 65536 ≤ v ∧ e = .overflow v 65536 := by
  cases h with
  | instruction _ h =>
    cases h with
    | operand _ _ h => cases h
    | encoding _ _ _ hv => exact ⟨_, hv, rfl⟩

/-- No source ever meets the faults that it is spared. -/
theorem ofSource_spared (source : Text) : Spared source where
  split labels h l hl := by
    rw [labelTable_eq, SymbolPass.run_eq_ok_iff] at h
    have read := h.1 l.text (List.mem_map_of_mem hl)
    exact ⟨ofText_ne_malformed read, fun _ _ _ => encoded_ne_labelling read⟩
  labelling _ _ := ofSource_eq_labelling_iff
  body l hl name body h := (Labelling.labelled_of_ofText h).words_ne_nil (isTrimmed_of_mem_instructionLines hl)
  literal t v h := by
    obtain ⟨-, -, rfl, -⟩ := Operand.literal?_eq_some_iff.mp h
    exact Int.natCast_nonneg _
  labels labels h name v hv := by
    rw [labelTable_eq, SymbolPass.run_eq_ok_iff] at h
    exact nonneg_of_entries h.2 hv
  vars first vars h name v hv := by
    rw [variableTable_eq, SymbolPass.run_eq_ok_iff] at h
    exact nonneg_of_entries h.2 hv
  encoding n e h := by
    obtain ⟨pass, h, -⟩ := firstFault_iff.mp (ofSource_eq_error_iff.mp h)
    exact h.1.of_encoding

/-- A tab and a no-break space before the only instruction, whose operand is too large. -/
theorem ofSource_spared_label_overflow :
    (∃ labels, labelTable (instructionLines "@go:\t\u00a0LDA #70000".toList) = .ok labels ∧
      labels.address? "go".toList = some 0) ∧
    Labelling.ofText "@go:\t\u00a0LDA #70000".toList = .labelled "go".toList "\u00a0LDA #70000".toList ∧
    Text.words "\u00a0LDA #70000".toList ≠ [] ∧
    ofSource "@go:\t\u00a0LDA #70000".toList = .error ⟨1, .encoding (.overflow 70000 65536)⟩ ∧
    (∃ v, 65536 ≤ v ∧ PackError.overflow 70000 65536 = .overflow v 65536) := by
  have spared := ofSource_spared "@go:\t\u00a0LDA #70000".toList
  have line : (⟨1, "@go:\t\u00a0LDA #70000".toList⟩ : Line) ∈ instructionLines "@go:\t\u00a0LDA #70000".toList := by
    decide +kernel
  have read : Labelling.ofText "@go:\t\u00a0LDA #70000".toList =
    .labelled "go".toList "\u00a0LDA #70000".toList := by rfl
  have refused : ofSource "@go:\t\u00a0LDA #70000".toList = .error ⟨1, .encoding (.overflow 70000 65536)⟩ := by rfl
  exact ⟨⟨⟨[⟨"go".toList, 0⟩], by simp, by simp⟩, by rfl, by rfl⟩, read, spared.body _ line _ _ read, refused,
    spared.encoding _ _ refused⟩

end Assembly
end StoredProgram
