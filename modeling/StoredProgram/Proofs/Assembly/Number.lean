import StoredProgram.Proofs.Assembly.Fault
import StoredProgram.Proofs.Assembly.Rewriting
import StoredProgram.Proofs.Text.Numeral

/-! # Numbers as operands

What follows the mode of an operand may look like a number in two ways. Digits are read as a number of any length, but
only a number that a word holds is known to be one: the others are taken for the name of a variable that there is not,
and only what is left is checked against the value field (`ofSource_digits`). A sign is not read at all, so that an
integer with a sign is the name of a variable like any other (`ofSource_integer`). -/

namespace StoredProgram

variable {labels vars : SymbolTable} {line body t digits source : Text} {a : Assembly} {l : Line} {op : Operation}
variable {m : Mode} {i : Instruction} {w : Word} {n : Nat}

/-! ### Integers -/

namespace Text

/-- A text starts with a sign. -/
def IsSigned (t : Text) : Prop := t.head? = some '+' ∨ t.head? = some '-'

theorem integer?_of_not_isSigned (h : ¬t.IsSigned) : t.integer? = t.natural?.map Int.ofNat := by
  unfold integer?
  split
  · exact absurd (Or.inr rfl) h
  · exact absurd (Or.inl rfl) h
  · rfl

end Text

/-! ### Values of texts -/

namespace Operand

theorem literal?_of_word? (h : t.word? = some w) (hs : ¬t.IsSigned) : literal? t = some w.toInt := by
  rw [Text.word?, Text.integer?_of_not_isSigned hs, Option.bind_map] at h
  exact Option.map_eq_some_iff.mpr ⟨w, h, rfl⟩

end Operand

namespace Assembly

theorem not_isVariableName_digits (hne : digits ≠ []) (hd : ∀ c ∈ digits, c.isDigit = true) :
    ¬IsVariableName digits := by
  intro h
  obtain ⟨c, rest, rfl⟩ := List.exists_cons_of_ne_nil hne
  exact Bool.eq_false_iff.mp (h.2.1 c rfl) (hd c List.mem_cons_self)

/-- An integer is the name of a variable just if it has a sign. -/
theorem isVariableName_iff_isSigned (h : t.word? = some w) : IsVariableName t ↔ t.IsSigned := by
  constructor
  · intro hv
    obtain ⟨digits, hne, hd, rfl | rfl | rfl⟩ := Text.exists_digits_of_word? h
    · exact absurd hv (not_isVariableName_digits hne hd)
    · exact Or.inl rfl
    · exact Or.inr rfl
  · intro hs
    refine ⟨Text.ne_nil_of_word? h, fun c hc => ?_, fun c hc => ?_⟩
    · rcases hs with hs | hs
      · cases hs.symm.trans hc
        rfl
      · cases hs.symm.trans hc
        rfl
    · rcases Text.of_mem_of_word? h hc with hd | rfl | rfl
      · refine ⟨?_, ?_, ?_⟩ <;> rintro rfl <;> exact absurd hd (by decide)
      · decide
      · decide

/-! ### Lines -/

theorem HasBody.exists_introduced (h : HasBody line body) : ∃ o, labelPass.introduced line = .ok o := by
  refine labelPass_introduced_iff.mpr fun hat => ?_
  rcases h with ⟨hno, -⟩ | ⟨name, h⟩
  · exact absurd hat hno
  · exact ⟨name, body, h⟩

/-! ### Sources with one instruction line -/

section Single

variable (hl : instructionLines source = [l]) (hb : HasBody l.text body)
  (hv : variableTable 1 (definitions source) = .ok vars)

include hb in
theorem exists_labelTable_singleton : ∃ labels, labelTable [l] = .ok labels := by
  have single : ((labelPass.symbols 0 [l.text]).map Symbol.name).Nodup := by
    refine SymbolPass.nodup_names_symbols_iff.mpr fun i j _ _ _ hi hj _ _ => ?_
    have hi := (List.getElem?_eq_some_iff.mp hi).1
    have hj := (List.getElem?_eq_some_iff.mp hj).1
    rw [List.length_singleton] at hi hj
    omega
  refine ⟨labelPass.table 0 [l.text] single, ?_⟩
  rw [labelTable_eq, SymbolPass.run_eq_ok_iff]
  exact ⟨List.forall_mem_singleton.mpr hb.exists_introduced, rfl⟩

include hl hb hv in
/-- The outcome is that of the line. -/
theorem exists_ofSource_eq_onLine : ∃ labels, ofSource source =
    (onLine l (encoded labels vars l.text)).map fun q => ⟨[q.1], [q.2], labels, vars⟩ := by
  obtain ⟨labels, ht⟩ := exists_labelTable_singleton hb
  refine ⟨labels, ?_⟩
  unfold ofSource
  simp only [hl, ht, hv, List.length_singleton, List.mapM_cons, List.mapM_nil]
  show (onLine l (encoded labels vars l.text) >>= _) >>= _ = _
  cases onLine l (encoded labels vars l.text) <;> rfl

include hv in
theorem address?_digits (hne : digits ≠ []) (hd : ∀ c ∈ digits, c.isDigit = true) : vars.address? digits = none := by
  refine Option.eq_none_iff_forall_ne_some.mpr fun v ha => not_isVariableName_digits hne hd ?_
  rw [variableTable_eq, SymbolPass.run_eq_ok_iff] at hv
  exact ((address?_eq_some_iff_variableAt hv.2).mp ha).isVariableName

include hl hb hv in
/-- Digits behind a mode are assembled to their number if the value field holds it. A larger number does not fit, but
    one that no word holds is not even known to be a number. -/
theorem ofSource_digits (hw : body.words = [op.mnemonic, m.sigil ++ digits]) (hne : digits ≠ [])
    (hd : ∀ c ∈ digits, c.isDigit = true) (hn : Nat.ofDigitChars 10 digits 0 = n) :
    (n < 65536 → ∃ a, ofSource source = .ok a ∧ a.instructions = [⟨op, m, n⟩]) ∧
      (65536 ≤ n → n < 9223372036854775808 → ofSource source = .error ⟨l.number, .encoding (.overflow n 65536)⟩) ∧
      (9223372036854775808 ≤ n → ofSource source = .error ⟨l.number, .value (m.sigil ++ digits)⟩) := by
  obtain ⟨labels, outcome⟩ := exists_ofSource_eq_onLine hl hb hv
  have read : instruction labels vars l.text =
      if n < 9223372036854775808 then .ok ⟨op, m, n⟩ else .error (.value (m.sigil ++ digits)) := by
    rw [hb.instruction_of_words hw fun _ => head?_ne_of_isDigit hd, Operand.literal?_digits hne hd hn,
      address?_digits hv hne hd, Option.or_none]
    by_cases hlt : n < 9223372036854775808
    · rw [if_pos hlt, if_pos hlt]
    · rw [if_neg hlt, if_neg hlt]
  refine ⟨fun hlt => ?_, fun hge hlt => ?_, fun hge => ?_⟩
  · rw [if_pos (by omega)] at read
    have fits : 0 ≤ (n : Int) ∧ (n : Int) < 65536 := by omega
    obtain ⟨w, hw⟩ : ∃ w, (⟨op, m, n⟩ : Instruction).encode = .ok w := Instruction.exists_encode_eq_ok_iff.mpr fits
    rw [outcome, encoded_eq_ok_iff.mpr ⟨read, hw⟩]
    exact ⟨_, rfl, rfl⟩
  · rw [if_pos hlt] at read
    have large : 65536 ≤ (n : Int) := by omega
    have refused : (⟨op, m, n⟩ : Instruction).encode = .error (.overflow n 65536) :=
      Instruction.encode_eq_error_iff.mpr (Or.inr ⟨large, rfl⟩)
    rw [outcome, encoded_eq_error_iff.mpr (Or.inr ⟨_, _, read, refused, rfl⟩)]
    rfl
  · rw [if_neg (by omega)] at read
    rw [outcome, encoded_eq_error_iff.mpr (Or.inl read)]
    rfl

end Single

theorem ofSource_digits_seventeen_bits :
    ofSource "$define x\nLDA RR0065536".toList = .error ⟨2, .encoding (.overflow 65536 65536)⟩ := by
  have single : instructionLines "$define x\nLDA RR0065536".toList = [⟨2, "LDA RR0065536".toList⟩] := by rfl
  have body : HasBody "LDA RR0065536".toList "LDA RR0065536".toList := Or.inl ⟨by decide, rfl⟩
  have words : Text.words "LDA RR0065536".toList =
      [Operation.load.mnemonic, Mode.indirect.sigil ++ "0065536".toList] := by rfl
  have digits : ∀ c ∈ "0065536".toList, c.isDigit = true := List.all_eq_true.mp rfl
  obtain ⟨-, refused, -⟩ := ofSource_digits single body rfl words (by simp) digits rfl
  exact refused (by decide) (by decide)

/-- The first number that no word holds is said to be no number. -/
theorem ofSource_digits_sixty_four_bits :
    ofSource "LDA #9223372036854775808".toList = .error ⟨1, .value "#9223372036854775808".toList⟩ ∧
      ∀ e, ofSource "LDA #9223372036854775808".toList ≠ .error ⟨1, .encoding e⟩ := by
  have read : ofSource "LDA #9223372036854775808".toList = .error ⟨1, .value "#9223372036854775808".toList⟩ := by rfl
  refine ⟨read, fun e he => ?_⟩
  cases read.symm.trans he

/-! ### Integers with a sign -/

theorem Assembles.instruction_of_getElem? {ls ds : List Text} (h : Assembles ls ds a) {index : Nat}
    (hl : ls[index]? = some line) (hi : a.instructions[index]? = some i) :
    instruction a.labels a.vars line = .ok i := by
  obtain ⟨hll, rfl⟩ := List.getElem?_eq_some_iff.mp hl
  obtain ⟨hil, rfl⟩ := List.getElem?_eq_some_iff.mp hi
  exact h.instructions.get hll hil

theorem exists_address?_of_isSigned (h : t.word? = some w) (hs : t.IsSigned) :
    ∃ source a v, ofSource source = .ok a ∧ a.vars.address? t = some v := by
  have fit : VariablesFit [t] :=
    ⟨List.forall_mem_singleton.mpr ⟨(isVariableName_iff_isSigned h).mpr hs, Text.isToken_of_word? h⟩,
      List.nodup_singleton t⟩
  have bare : LabelsFit .empty ([] : List Instruction).length := ⟨nofun, nofun⟩
  obtain ⟨table, ht, he⟩ := exists_ofSource_written .nil bare fit
  refine ⟨_, _, 0, ht, SymbolTable.address?_eq_some_iff.mpr ?_⟩
  rw [he]
  exact List.mem_cons_self

/-- An integer with a sign can be defined as a variable, and then it stands for the address of the variable; one without
    a sign cannot, and always stands for itself. -/
theorem ofSource_integer (h : t.word? = some w) :
    ((∃ source a v, ofSource source = .ok a ∧ a.vars.address? t = some v) ↔ t.IsSigned) ∧
      ∀ source a, ofSource source = .ok a →
        ∀ (index : Nat) (line body : Text) (op : Operation) (m : Mode) (i : Instruction),
          (code source)[index]? = some line → HasBody line body → body.words = [op.mnemonic, m.sigil ++ t] →
            a.instructions[index]? = some i →
              (¬t.IsSigned → i = ⟨op, m, w.toInt⟩) ∧
                (t.IsSigned → ∃ v, i = ⟨op, m, v⟩ ∧ a.vars.address? t = some v) := by
  refine ⟨⟨?_, exists_address?_of_isSigned h⟩, ?_⟩
  · rintro ⟨source, a, v, ha, hv⟩
    have named := ((ofSource_eq_ok_iff.mp ha).means.vars t v).mp hv
    exact (isVariableName_iff_isSigned h).mp named.isVariableName
  · intro source a ha index line body op m i hl hb hw hi
    have read := (ofSource_eq_ok_iff.mp ha).instruction_of_getElem? hl hi
    rw [hb.instruction_of_words hw fun _ => Text.head?_ne_of_word? h] at read
    constructor
    · intro hs
      rw [Operand.literal?_of_word? h hs] at read
      exact (Except.ok.inj read).symm
    · intro hs
      rw [literal?_of_isVariableName ((isVariableName_iff_isSigned h).mpr hs), Option.none_or] at read
      cases hv : a.vars.address? t with
      | none =>
        rw [hv] at read
        cases read
      | some v =>
        rw [hv] at read
        exact ⟨v, (Except.ok.inj read).symm, rfl⟩

theorem ofSource_integer_minus_seven :
    (∃ source a v, ofSource source = .ok a ∧ a.vars.address? "-7".toList = some v) ∧
      ∃ a v, ofSource "@go: JMP #-7\n$define -7".toList = .ok a ∧ a.instructions = [⟨.jump, .immediate, v⟩] ∧
        a.vars.address? "-7".toList = some v := by
  have h : Text.word? "-7".toList = some (-7) := by rfl
  have ha : ofSource "@go: JMP #-7\n$define -7".toList = .ok ⟨[⟨.jump, .immediate, 1⟩], [3932161],
      ⟨[⟨"go".toList, 0⟩], by simp, by simp⟩, ⟨[⟨"-7".toList, 1⟩], by simp, by simp⟩⟩ := by rfl
  have body : HasBody "@go: JMP #-7".toList "JMP #-7".toList :=
    Or.inr ⟨"go".toList, Labelling.ofText_eq_labelled_iff.mp (by rfl)⟩
  have signed : Text.IsSigned "-7".toList := Or.inr rfl
  obtain ⟨definable, stands⟩ := ofSource_integer h
  obtain ⟨v, hi, hv⟩ := (stands _ _ ha 0 _ _ .jump .immediate _ (by rfl) body rfl rfl).2 signed
  exact ⟨definable.mpr signed, _, v, ha, congrArg ([·]) hi, hv⟩

/-- A variable is named like the integer five, and five is read as its address. -/
theorem ofSource_variable_plus_five :
    ∃ a, ofSource "$define +5\nLDA R+5".toList = .ok a ∧ Text.word? "+5".toList = some 5 ∧
      a.vars.address? "+5".toList = some 1 ∧ a.instructions = [⟨.load, .direct, 1⟩] :=
  ⟨⟨[⟨.load, .direct, 1⟩], [327681], .empty, ⟨[⟨"+5".toList, 1⟩], by simp, by simp⟩⟩, by rfl, by rfl, by rfl, rfl⟩

end Assembly
end StoredProgram
