import StoredProgram.Proofs.Assembly.Grammar
import StoredProgram.Proofs.Instruction.Text

/-! # One more instruction

A source is extended by a line with an operation and an operand. What stands before keeps its meaning, but
for the variables, which move one register up. So the extended source is assembled just if the operand
denotes a value that fits a word (`exists_ofSource_extended_iff`). The name of a variable behind a mode does,
and has the address of the variable, unless the mode is direct and the name starts with the letter `R`. -/

namespace StoredProgram.Assembly

variable {ls ds : List Text} {line name t : Text} {m : Mode} {v : Int} {i : Instruction}
variable {source : Text} {a b : Assembly} {op : Operation}

/-! ### Lines before -/

theorem LabelAt.append (h : LabelAt ls name v) : LabelAt (ls ++ [line]) name v := by
  obtain ⟨index, l, hi, hb, rfl⟩ := h
  have hlt := (List.getElem?_eq_some_iff.mp hi).1
  exact ⟨index, l, by rw [List.getElem?_append_left hlt, hi], hb, rfl⟩

theorem variableAt_succ_iff {first : Nat} : VariableAt (first + 1) ds name (v + 1) ↔ VariableAt first ds name v := by
  unfold VariableAt
  have shift : ∀ rank : Nat, v + 1 = (first + 1 + rank : Nat) ↔ v = (first + rank : Nat) := by omega
  simp only [shift]

theorem Denotes.exists_append (hv : ∀ name v, VariableAt ls.length ds name v → v < 65535)
    (h : Denotes ls ds t m v) (hlt : v < 65536) : ∃ u, Denotes (ls ++ [line]) ds t m u ∧ u < 65536 := by
  cases h with
  | label h => exact ⟨v, .label h.append, hlt⟩
  | number hne hd => exact ⟨_, .number hne hd, hlt⟩
  | name h hr =>
    refine ⟨v + 1, .name ?_ hr, Int.add_lt_add_right (hv _ _ h) 1⟩
    rw [List.length_append, List.length_singleton]
    exact variableAt_succ_iff.mpr h

theorem LineCommands.exists_append (hv : ∀ name v, VariableAt ls.length ds name v → v < 65535) {l : Text}
    (h : LineCommands ls ds l i) : ∃ j, LineCommands (ls ++ [line]) ds l j := by
  obtain ⟨body, hb, h⟩ := h
  cases h with
  | halt hw => exact ⟨_, body, hb, .halt hw⟩
  | operation hw hd hlt =>
    obtain ⟨u, hu, hlt⟩ := hd.exists_append hv hlt
    exact ⟨⟨i.operation, i.mode, u⟩, body, hb, .operation hw hu hlt⟩

theorem symbols_labelPass_append (hat : line.head? ≠ some '@') :
    labelPass.symbols 0 (ls ++ [line]) = labelPass.symbols 0 ls := by
  rw [SymbolPass.symbols_append, SymbolPass.symbols, labelPass_name?_eq_none hat]
  exact List.append_nil _

/-- With a line that has no label, the grammar asks only that the line command an instruction. -/
theorem grammatical_append_iff (h : Grammatical ls ds)
    (hv : ∀ name v, VariableAt ls.length ds name v → v < 65535) (hat : line.head? ≠ some '@') :
    Grammatical (ls ++ [line]) ds ↔ ∃ i, LineCommands (ls ++ [line]) ds line i := by
  refine ⟨fun h => h.commanding line List.mem_concat_self, fun hline => ?_⟩
  refine ⟨fun l hl hl' => ?_, ?_, h.declared, h.singleVariable, fun l hl => ?_⟩
  · rcases List.mem_append.mp hl with hl | hl
    · exact h.labelled l hl hl'
    · exact absurd (List.mem_singleton.mp hl ▸ hl') hat
  · rw [← nodup_labels_iff, symbols_labelPass_append hat, nodup_labels_iff]
    exact h.singleLabel
  · rcases List.mem_append.mp hl with hl | hl
    · obtain ⟨i, hi⟩ := h.commanding l hl
      exact hi.exists_append hv
    · exact List.mem_singleton.mp hl ▸ hline

/-! ### The added line -/

theorem lineCommands_line_iff (ht : t.IsToken) :
    LineCommands ls ds (op.line t) i ↔ i.operation = op ∧ Denotes ls ds t i.mode i.value ∧ i.value < 65536 := by
  have words := op.words_line ht
  refine ⟨fun h => ?_, fun h => ?_⟩
  · obtain ⟨body, hb, h⟩ := h
    have whole : body = op.line t := by
      rcases hb with ⟨-, hb⟩ | ⟨name, hb⟩
      · exact hb
      · exact absurd hb.head?_eq (op.head?_line_ne t (by decide))
    subst whole
    cases h with
    | halt hw =>
      rw [words] at hw
      exact absurd (List.cons.inj hw).2 (List.cons_ne_nil _ _)
    | operation hw hd hlt =>
      rw [words] at hw
      obtain ⟨hm, rfl⟩ : op.mnemonic = i.operation.mnemonic ∧ t = _ := by simpa using hw
      have same := Operation.ofMnemonic?_eq_some_iff.mpr hm
      rw [Operation.ofMnemonic?_mnemonic] at same
      exact ⟨(Option.some.inj same).symm, hd, hlt⟩
  · obtain ⟨rfl, hd, hlt⟩ := h
    exact ⟨_, Or.inl ⟨i.operation.head?_line_ne t (by decide), rfl⟩, .operation words hd hlt⟩

/-- A source with one more line, an operation with an operand. -/
def extended (source : Text) (op : Operation) (t : Text) : Text := source ++ '\n' :: op.line t

theorem code_extended (ht : t.IsToken) : code (extended source op t) = code source ++ [op.line t] := by
  rw [extended, code_append_newline, code_of_isLine (op.isLine_line ht) (op.head?_line_ne t (by decide))]

theorem declarations_extended (ht : t.IsToken) :
    declarations (extended source op t) = declarations source := by
  rw [extended, declarations_append_newline,
    declarations_of_isLine (op.isLine_line ht) (op.head?_line_ne t (by decide)), List.append_nil]

theorem lt_of_variableAt (h : Assembles ls ds a) (hb : ∀ s ∈ a.vars.entries, s.address < 65535) (name : Text)
    (v : Int) (hv : VariableAt ls.length ds name v) : v < 65535 :=
  hb _ (SymbolTable.address?_eq_some_iff.mp ((h.means.vars name v).mpr hv))

/-- An extended source is assembled just if the operand denotes a value that fits a word. -/
theorem exists_ofSource_extended_iff (h : ofSource source = .ok a) (hb : ∀ s ∈ a.vars.entries, s.address < 65535)
    (ht : t.IsToken) :
    (∃ b, ofSource (extended source op t) = .ok b) ↔
      ∃ m v, Denotes (code source ++ [op.line t]) (declarations source) t m v ∧ v < 65536 := by
  have h := ofSource_eq_ok_iff.mp h
  have lines := grammatical_append_iff h.grammatical (lt_of_variableAt h hb) (op.head?_line_ne t (by decide))
  simp only [ofSource_eq_ok_iff, code_extended ht, declarations_extended ht]
  refine ⟨fun h => ?_, fun h => ?_⟩
  · obtain ⟨b, hb⟩ := h
    obtain ⟨i, hi⟩ := lines.mp hb.grammatical
    exact ⟨i.mode, i.value, ((lineCommands_line_iff ht).mp hi).2⟩
  · obtain ⟨m, v, hd, hlt⟩ := h
    exact (lines.mpr ⟨⟨op, m, v⟩, (lineCommands_line_iff ht).mpr ⟨rfl, hd, hlt⟩⟩).exists_assembles

theorem LineCommands.unique (h : Assembles ls ds a) {j : Instruction} (hi : LineCommands ls ds line i)
    (hj : LineCommands ls ds line j) : i = j := by
  have hi := ((instruction_eq_ok_iff_lineCommands h.labels h.vars).mpr hi).1
  rw [((instruction_eq_ok_iff_lineCommands h.labels h.vars).mpr hj).1] at hi
  exact (Except.ok.inj hi).symm

theorem Assembles.exists_getLast? (h : Assembles (ls ++ [line]) ds a) :
    ∃ i, a.instructions.getLast? = some i ∧ LineCommands (ls ++ [line]) ds line i := by
  have instructions := List.forall₂_reverse_iff.mpr h.means.instructions
  rw [List.reverse_append, List.reverse_singleton, List.singleton_append] at instructions
  obtain ⟨i, is, hi, -, he⟩ := List.forall₂_cons_left_iff.mp instructions
  refine ⟨i, ?_, hi⟩
  rw [← List.head?_reverse, he, List.head?_cons]

theorem getLast?_instructions_extended (hb : ofSource (extended source op t) = .ok b) (ht : t.IsToken)
    (hd : Denotes (code source ++ [op.line t]) (declarations source) t m v) (hlt : v < 65536) :
    b.instructions.getLast? = some ⟨op, m, v⟩ := by
  rw [ofSource_eq_ok_iff, code_extended ht, declarations_extended ht] at hb
  obtain ⟨i, hl, hi⟩ := hb.exists_getLast?
  rw [hl]
  exact congrArg some (hi.unique hb ((lineCommands_line_iff ht).mpr ⟨rfl, hd, hlt⟩))

/-! ### Names behind modes -/

/-- What follows a mode is a number or the name of a variable. -/
theorem denotes_append_iff (hr : m = .direct → t.head? ≠ some 'R') {k : Mode} :
    Denotes ls ds (m.sigil ++ t) k v ↔
      k = m ∧ ((∃ n : Nat, Text.natural? t = some n ∧ v = n) ∨ VariableAt ls.length ds t v) := by
  have split := Mode.split?_append hr
  refine ⟨fun h => ?_, fun h => ?_⟩
  · generalize hs : m.sigil ++ t = s at h split
    cases h with
    | label h => exact absurd (congrArg List.head? hs) (m.sigil_head?_ne t)
    | number hne hd =>
      cases split.symm.trans (Mode.split?_append fun _ => head?_ne_of_isDigit hd)
      exact ⟨rfl, Or.inl ⟨_, Text.natural?_eq_some_iff.mpr ⟨hne, hd, rfl⟩, rfl⟩⟩
    | name h hr =>
      cases split.symm.trans (Mode.split?_append hr)
      exact ⟨rfl, Or.inr h⟩
  · obtain ⟨rfl, ⟨n, hn, rfl⟩ | h⟩ := h
    · obtain ⟨hne, hd, rfl⟩ := Text.natural?_eq_some_iff.mp hn
      exact .number hne hd
    · exact .name h hr

theorem address?_vars_extended (h : ofSource source = .ok a) (ht : t.IsToken)
    (hx : ofSource (extended source op t) = .ok b) :
    b.vars.address? name = some (v + 1) ↔ a.vars.address? name = some v := by
  rw [ofSource_eq_ok_iff, code_extended ht, declarations_extended ht] at hx
  rw [hx.means.vars, (ofSource_eq_ok_iff.mp h).means.vars, List.length_append, List.length_singleton,
    variableAt_succ_iff]

theorem denotes_extended_iff (h : ofSource source = .ok a) (hr : m = .direct → t.head? ≠ some 'R') {k : Mode} :
    Denotes (code source ++ [line]) (declarations source) (m.sigil ++ t) k v ↔
      k = m ∧ ((∃ n : Nat, Text.natural? t = some n ∧ v = n) ∨ a.vars.address? t = some (v - 1)) := by
  rw [denotes_append_iff hr, (ofSource_eq_ok_iff.mp h).means.vars, List.length_append, List.length_singleton,
    ← variableAt_succ_iff (v := v - 1), Int.sub_add_cancel]

theorem exists_ofSource_extended_name (h : ofSource source = .ok a)
    (hb : ∀ s ∈ a.vars.entries, s.address < 65535) (hn : a.vars.address? name = some v)
    (hr : m = .direct → name.head? ≠ some 'R') :
    ∃ b, ofSource (extended source op (m.sigil ++ name)) = .ok b ∧
      b.vars.address? name = some (v + 1) ∧ b.instructions.getLast? = some ⟨op, m, v + 1⟩ := by
  have ht : name.IsToken := (((ofSource_eq_ok_iff.mp h).means.vars name v).mp hn).isToken
  have hlt := hb _ (SymbolTable.address?_eq_some_iff.mp hn)
  have hd : Denotes (code source ++ [op.line (m.sigil ++ name)]) (declarations source) (m.sigil ++ name) m
      (v + 1) :=
    (denotes_extended_iff h hr).mpr ⟨rfl, Or.inr (by rwa [Int.add_sub_cancel])⟩
  have hmt := m.isToken_append ht
  obtain ⟨b, hx⟩ := (exists_ofSource_extended_iff h hb hmt).mpr ⟨m, v + 1, hd, Int.add_lt_add_right hlt 1⟩
  exact ⟨b, hx, (address?_vars_extended h hmt hx).mpr hn,
    getLast?_instructions_extended hx hmt hd (Int.add_lt_add_right hlt 1)⟩

theorem exists_ofSource_extended_indirect_iff (h : ofSource source = .ok a)
    (hb : ∀ s ∈ a.vars.entries, s.address < 65535) (ht : Text.IsToken (Mode.indirect.sigil ++ t)) :
    (∃ b, ofSource (extended source op (Mode.indirect.sigil ++ t)) = .ok b) ↔
      (∃ n : Nat, Text.natural? t = some n ∧ n < 65536) ∨ ∃ u, a.vars.address? t = some u := by
  rw [exists_ofSource_extended_iff h hb ht]
  simp only [denotes_extended_iff h (m := .indirect) (fun h => (nomatch h))]
  refine ⟨fun h => ?_, fun h => ?_⟩
  · obtain ⟨_, v, ⟨rfl, ⟨n, hn, rfl⟩ | hu⟩, hlt⟩ := h
    · exact Or.inl ⟨n, hn, Int.ofNat_lt.mp hlt⟩
    · exact Or.inr ⟨_, hu⟩
  · rcases h with ⟨n, hn, hlt⟩ | ⟨u, hu⟩
    · exact ⟨_, n, ⟨rfl, Or.inl ⟨n, hn, rfl⟩⟩, Int.ofNat_lt.mpr hlt⟩
    · have hlt := hb _ (SymbolTable.address?_eq_some_iff.mp hu)
      exact ⟨_, u + 1, ⟨rfl, Or.inr (by rwa [Int.add_sub_cancel])⟩, Int.add_lt_add_right hlt 1⟩

theorem getLast?_instructions_extended_indirect (h : ofSource source = .ok a)
    (hb : ∀ s ∈ a.vars.entries, s.address < 65535) (ht : Text.IsToken (Mode.indirect.sigil ++ t))
    (hx : ofSource (extended source op (Mode.indirect.sigil ++ t)) = .ok b) :
    ∃ u, b.instructions.getLast? = some ⟨op, .indirect, u⟩ ∧
      ((∃ n : Nat, Text.natural? t = some n ∧ u = n) ∨ b.vars.address? t = some u) := by
  obtain ⟨m, u, hd, hlt⟩ := (exists_ofSource_extended_iff h hb ht).mp ⟨b, hx⟩
  have last := getLast?_instructions_extended hx ht hd hlt
  obtain ⟨rfl, hu⟩ := (denotes_extended_iff h (m := .indirect) (fun h => (nomatch h))).mp hd
  refine ⟨u, last, hu.imp_right fun hu => ?_⟩
  have := (address?_vars_extended h ht hx).mpr hu
  rwa [Int.sub_add_cancel] at this

/-- Every variable can be used in every mode, and never means anything else, but for one case: a direct mode
    before a name that starts with the letter `R` is read as the indirect mode before the rest of the name. -/
theorem ofSource_extended (h : ofSource source = .ok a) (hb : ∀ s ∈ a.vars.entries, s.address < 65535)
    (hn : a.vars.address? name = some v) (op : Operation) :
    (∀ m : Mode, (m = .direct → name.head? ≠ some 'R') →
      ∃ b, ofSource (extended source op (m.sigil ++ name)) = .ok b ∧
        b.vars.address? name = some (v + 1) ∧ b.instructions.getLast? = some ⟨op, m, v + 1⟩) ∧
    ∀ rest : Text, name = 'R' :: rest →
      ((∃ b, ofSource (extended source op (Mode.direct.sigil ++ name)) = .ok b) ↔
        (∃ n : Nat, Text.natural? rest = some n ∧ n < 65536) ∨ ∃ u, a.vars.address? rest = some u) ∧
      ∀ b, ofSource (extended source op (Mode.direct.sigil ++ name)) = .ok b →
        ∃ u, b.instructions.getLast? = some ⟨op, .indirect, u⟩ ∧
          ((∃ n : Nat, Text.natural? rest = some n ∧ u = n) ∨ b.vars.address? rest = some u) := by
  refine ⟨fun m hr => exists_ofSource_extended_name h hb hn hr, ?_⟩
  rintro rest rfl
  have ht : Text.IsToken (Mode.indirect.sigil ++ rest) :=
    Mode.direct.isToken_append (((ofSource_eq_ok_iff.mp h).means.vars _ v).mp hn).isToken
  exact ⟨exists_ofSource_extended_indirect_iff h hb ht,
    fun b hx => getLast?_instructions_extended_indirect h hb ht hx⟩

theorem ofSource_extended_load_Rx :
    (∃ b, ofSource (extended "$define Rx\n$define x\nHLT".toList .load "#Rx".toList) = .ok b ∧
      b.vars.address? "Rx".toList = some 2 ∧ b.instructions.getLast? = some ⟨.load, .immediate, 2⟩) ∧
    ∃ b u, ofSource (extended "$define Rx\n$define x\nHLT".toList .load "RRx".toList) = .ok b ∧
      b.instructions.getLast? = some ⟨.load, .indirect, u⟩ ∧ b.vars.address? "x".toList = some u := by
  have h : ofSource "$define Rx\n$define x\nHLT".toList =
      .ok ⟨[.halt], [0], .empty, ⟨[⟨"Rx".toList, 1⟩, ⟨"x".toList, 2⟩], by simp, by simp⟩⟩ := by rfl
  have hx : SymbolTable.address? ⟨[⟨"Rx".toList, 1⟩, ⟨"x".toList, 2⟩], by simp, by simp⟩ "Rx".toList = some 1 := by rfl
  obtain ⟨every, direct⟩ := ofSource_extended h (by decide) hx .load
  obtain ⟨accepted, last⟩ := direct "x".toList rfl
  obtain ⟨b, hb⟩ := accepted.mpr (Or.inr ⟨2, by rfl⟩)
  obtain ⟨u, hu, ⟨n, hn, -⟩ | hx⟩ := last b hb
  · cases hn
  · exact ⟨every .immediate (fun h => (nomatch h)), b, u, hb, hu, hx⟩

/-- The direct mode before the name `Rx` is not read as such. -/
theorem ofSource_extended_load_Rx_ne_direct :
    ∃ a, ofSource "$define Rx\n$define x\nHLT".toList = .ok a ∧ (∀ s ∈ a.vars.entries, s.address < 65535) ∧
      a.vars.address? "Rx".toList = some 1 ∧
      ¬∃ b, ofSource (extended "$define Rx\n$define x\nHLT".toList .load (Mode.direct.sigil ++ "Rx".toList)) =
        .ok b ∧ b.instructions.getLast? = some ⟨.load, .direct, 2⟩ := by
  refine ⟨⟨[.halt], [0], .empty, ⟨[⟨"Rx".toList, 1⟩, ⟨"x".toList, 2⟩], by simp, by simp⟩⟩, by rfl, by decide,
    by rfl, fun ⟨b, hb, hl⟩ => ?_⟩
  have read : ofSource (extended "$define Rx\n$define x\nHLT".toList .load (Mode.direct.sigil ++ "Rx".toList)) =
      .ok ⟨[.halt, ⟨.load, .indirect, 3⟩], [0, 393219], .empty,
        ⟨[⟨"Rx".toList, 2⟩, ⟨"x".toList, 3⟩], by simp, by simp⟩⟩ := by rfl
  cases read.symm.trans hb
  exact absurd hl (by decide)

end StoredProgram.Assembly
