import StoredProgram.Proofs.Assembly.Fault
import StoredProgram.Proofs.Instruction.Text
import StoredProgram.Proofs.Text.Rows

/-! # Relocation

Lines that name no symbol are put before a source. They are assembled as they are alone, and the source behind them is
moved up as a whole: the addresses of its symbols rise by the number of lines, and so do the values of the instructions
that refer to symbols, while numbers stay as they are. This goes well as long as the risen values fit a word
(`ofSource_relocated`). -/

namespace StoredProgram

/-! ### Symbols that move up -/

namespace SymbolTable

/-- A table with all addresses moved up. -/
def shift (t : SymbolTable) (k : Nat) : SymbolTable where
  entries := t.entries.map fun s => ⟨s.name, s.address + k⟩
  increasing := List.pairwise_map.mpr (t.increasing.imp fun h => Int.add_lt_add_right h k)
  single := by
    intro x hx y hy hn
    obtain ⟨s, hs, rfl⟩ := List.mem_map.mp hx
    obtain ⟨r, hr, rfl⟩ := List.mem_map.mp hy
    exact congrArg (· + (k : Int)) (t.single s hs r hr hn)

theorem address?_shift (t : SymbolTable) (k : Nat) (name : Text) :
    (t.shift k).address? name = (t.address? name).map (· + (k : Int)) := by
  unfold address? shift
  rw [List.find?_map, Option.map_map, Option.map_map]
  rfl

end SymbolTable

theorem Assembly.SymbolPass.symbols_shift (p : SymbolPass) (first k : Nat) (ls : List Text) :
    p.symbols (first + k) ls = (p.symbols first ls).map fun s => ⟨s.name, s.address + k⟩ := by
  induction ls generalizing first with
  | nil => rfl
  | cons line ls ih =>
    have next : first + k + 1 = first + 1 + k := by omega
    rw [symbols, symbols, List.map_append, next, ih]
    cases p.name? line <;> simp

/-! ### Operands that refer to symbols -/

/-- An operand refers to a symbol if it is the name of a label, or a mode with the name of a variable. -/
def Operand.isSymbolic : Operand → Bool
  | .target _ => true
  | .value _ t => (literal? t).isNone

namespace Assembly

/-- The operand that stands behind a mnemonic. -/
def operand? (body : Text) : Option Operand :=
  match body.words with
  | [_, t] => Operand.ofText? t
  | _ => none

/-- An instruction line refers to a symbol. -/
def isSymbolic (line : Text) : Bool :=
  match Labelling.ofText line with
  | .malformed => false
  | .plain body => (operand? body).any Operand.isSymbolic
  | .labelled _ body => (operand? body).any Operand.isSymbolic

/-- An instruction with its value moved up, if it refers to a symbol. -/
def raised (k : Nat) (symbolic : Bool) (i : Instruction) : Instruction :=
  if symbolic then ⟨i.operation, i.mode, i.value + k⟩ else i

variable {labels vars : SymbolTable} {k : Nat}

theorem resolve?_shift (o : Operand) : o.resolve? (labels.shift k) (vars.shift k) =
    (o.resolve? labels vars).map fun (mode, value) => (mode, if o.isSymbolic then value + k else value) := by
  cases o with
  | target name =>
    simp only [Operand.resolve?, Operand.isSymbolic, if_true, SymbolTable.address?_shift, Option.map_map]
    rfl
  | value mode t =>
    simp only [Operand.resolve?, Operand.isSymbolic, SymbolTable.address?_shift]
    rcases (Operand.literal? t).eq_none_or_eq_some with h | ⟨value, h⟩
    · simp [h, Function.comp_def]
    · simp [h]

theorem operand_shift (t : Text) : operand (labels.shift k) (vars.shift k) t =
    (operand labels vars t).map fun (mode, value) =>
      (mode, if (Operand.ofText? t).any Operand.isSymbolic then value + k else value) := by
  unfold operand
  cases Operand.ofText? t with
  | none => rfl
  | some o =>
    simp only [resolve?_shift, Option.any_some]
    cases o.resolve? labels vars with
    | some r => rfl
    | none => cases o <;> rfl

theorem statement_shift (line body : Text) : statement (labels.shift k) (vars.shift k) line body =
    (statement labels vars line body).map (raised k ((operand? body).any Operand.isSymbolic)) := by
  unfold statement operand?
  rcases body.words with _ | ⟨name, _ | ⟨t, _ | ⟨_, _⟩⟩⟩
  · rfl
  · simp only
    split <;> rfl
  · simp only
    cases Operation.ofMnemonic? name with
    | none => rfl
    | some operation =>
      simp only [operand_shift]
      cases operand labels vars t with
      | error p => rfl
      | ok r =>
        simp only [Except.map, raised]
        split <;> rfl
  · rfl

/-- With all symbols moved up, a line is read as before, but for a value that refers to a symbol. -/
theorem instruction_shift (line : Text) : instruction (labels.shift k) (vars.shift k) line =
    (instruction labels vars line).map (raised k (isSymbolic line)) := by
  unfold instruction isSymbolic
  cases Labelling.ofText line with
  | malformed => rfl
  | plain body => exact statement_shift line body
  | labelled name body => exact statement_shift line body

/-! ### Lines without symbols -/

/-- A row of a text with a halt, or with an operation, a mode and a number that fits a word. -/
structure IsNumeric (row : Text) : Prop where
  single : '\n' ∉ row
  body : row.words = [Operation.halt.mnemonic] ∨ ∃ (op : Operation) (m : Mode) (digits : Text),
    row.words = [op.mnemonic, m.sigil ++ digits] ∧ digits ≠ [] ∧ (∀ c ∈ digits, c.isDigit = true) ∧
      Nat.ofDigitChars 10 digits 0 < 65536

namespace IsNumeric

variable {row : Text}

theorem exists_words (h : IsNumeric row) : ∃ (op : Operation) (ws : List Text), row.words = op.mnemonic :: ws := by
  rcases h.body with hw | ⟨op, m, digits, hw, -⟩
  · exact ⟨.halt, [], hw⟩
  · exact ⟨op, _, hw⟩

theorem head?_trim_ne (h : IsNumeric row) {c : Char} (hc : c.isUpper = false) : (Text.trim row).head? ≠ some c := by
  obtain ⟨op, ws, hw⟩ := h.exists_words
  exact op.head?_trim_ne hw hc

theorem trim_ne_nil (h : IsNumeric row) : Text.trim row ≠ [] := by
  obtain ⟨op, ws, hw⟩ := h.exists_words
  exact op.trim_ne_nil hw

theorem exists_instruction (h : IsNumeric row) :
    ∃ i : Instruction, (0 ≤ i.value ∧ i.value < 65536) ∧
      ∀ labels vars, instruction labels vars (Text.trim row) = .ok i := by
  have plain : HasBody (Text.trim row) (Text.trim row) := .inl ⟨h.head?_trim_ne (by decide), rfl⟩
  have words := Text.words_trim row
  rcases h.body with hw | ⟨op, m, digits, hw, hne, hd, hlt⟩
  · refine ⟨.halt, by decide, fun labels vars => instruction_eq_ok_iff.mpr ⟨_, plain, ?_⟩⟩
    exact statement_eq_ok_iff.mpr (.inl ⟨words.trans hw, rfl⟩)
  · refine ⟨⟨op, m, (Nat.ofDigitChars 10 digits 0 : Nat)⟩, ⟨Int.natCast_nonneg _, Int.ofNat_lt.mpr hlt⟩, ?_⟩
    intro labels vars
    rw [plain.instruction_of_words (words.trans hw) fun _ => head?_ne_of_isDigit hd,
      Operand.literal?_digits hne hd rfl, if_pos (by omega), Option.some_or]

theorem exists_encoded (h : IsNumeric row) : ∃ q : Instruction × Word,
    (∀ labels vars, instruction labels vars (Text.trim row) = .ok q.1) ∧ q.1.encode = .ok q.2 := by
  obtain ⟨i, hv, hi⟩ := h.exists_instruction
  obtain ⟨w, hw⟩ := Instruction.exists_encode_eq_ok_iff.mpr hv
  exact ⟨(i, w), hi, hw⟩

end IsNumeric

/-! ### A source behind lines without symbols -/

/-- What a source is assembled to behind others, with its symbols moved up. -/
def relocated (head : Assembly) (k : Nat) (code : List Text) (a : Assembly) : Assembly where
  instructions := head.instructions ++ List.zipWith (fun line => raised k (isSymbolic line)) code a.instructions
  words := head.words ++ List.zipWith (fun line w => if isSymbolic line then w + Int64.ofNat k else w) code a.words
  labels := a.labels.shift k
  vars := a.vars.shift k

/-- An instruction can be moved up if it refers to no symbol, or to one whose risen value fits a word. -/
def CanRise (k : Nat) (line : Text) (i : Instruction) : Prop := isSymbolic line = true → i.value + k < 65536

instance (k : Nat) (line : Text) (i : Instruction) : Decidable (CanRise k line i) :=
  inferInstanceAs (Decidable (_ → _))

variable {line : Text} {i : Instruction}

theorem encode_raised {w : Word} (hw : i.encode = .ok w) (h : CanRise k line i) :
    (raised k (isSymbolic line) i).encode = .ok (if isSymbolic line then w + Int64.ofNat k else w) := by
  unfold raised
  split
  · rename_i hs
    have hlt := h hs
    obtain ⟨h0, -, hw⟩ := Instruction.encode_eq_ok_iff.mp hw
    have hop := i.operation.code_lt
    have hm := i.mode.code_lt
    have hk : (Int64.ofNat k).toInt = k := Int64.toInt_ofNat_of_lt (by omega)
    have sum : (w + Int64.ofNat k).toInt = w.toInt + k := by
      rw [Int64.toInt_add, hk, Int.bmod_eq_of_le (by omega) (by omega)]
    refine Instruction.encode_eq_ok_iff.mpr ⟨?_, hlt, ?_⟩
    · show 0 ≤ i.value + k
      omega
    · show (w + Int64.ofNat k).toInt = i.operation.code * 262144 + i.mode.code * 65536 + (i.value + k)
      omega
  · exact hw

theorem encoded_shift_of_canRise {w : Word} (hi : instruction labels vars line = .ok i) (hw : i.encode = .ok w)
    (h : CanRise k line i) : ∃ q, encoded (labels.shift k) (vars.shift k) line = .ok q := by
  refine ⟨(_, _), encoded_eq_ok_iff.mpr ⟨?_, encode_raised hw h⟩⟩
  rw [instruction_shift, hi]
  rfl

theorem encoded_shift_of_not_canRise (hi : instruction labels vars line = .ok i) (h : ¬CanRise k line i) :
    encoded (labels.shift k) (vars.shift k) line = .error (.encoding (.overflow (i.value + k) 65536)) := by
  obtain ⟨hs, hbig⟩ := Classical.not_imp.mp h
  have read : instruction (labels.shift k) (vars.shift k) line = .ok ⟨i.operation, i.mode, i.value + k⟩ := by
    rw [instruction_shift, hi, hs]
    rfl
  have overflow : Instruction.encode ⟨i.operation, i.mode, i.value + k⟩ = .error (.overflow (i.value + k) 65536) :=
    Instruction.encode_eq_error_iff.mpr (.inr ⟨Int.not_lt.mp hbig, rfl⟩)
  exact encoded_eq_error_iff.mpr (.inr ⟨_, _, read, overflow, rfl⟩)

section Prepended

variable {rs : List Text} {source : Text} {a : Assembly}

/-! ### The lines of both -/

theorem lines_unlines_append (h : ∀ row ∈ rs, IsNumeric row) (source : Text) :
    (Text.unlines rs ++ source).lines =
      Text.numbered 1 rs ++ source.lines.map (Line.lowered rs.length) := by
  rw [Text.lines_eq_numbered, Text.splitOn_unlines_append fun row hr => (h row hr).single, Text.numbered_append,
    Text.numbered_add, ← Text.lines_eq_numbered]

theorem map_text_numbered (h : ∀ row ∈ rs, IsNumeric row) (first : Nat) :
    (Text.numbered first rs).map Line.text = rs.map Text.trim := by
  rw [Text.map_text_numbered, List.filter_eq_self]
  intro line hl
  obtain ⟨row, hr, rfl⟩ := List.mem_map.mp hl
  simpa using (h row hr).trim_ne_nil

theorem isDefinition_eq_false_of_mem (h : ∀ row ∈ rs, IsNumeric row) {first : Nat} {l : Line}
    (hl : l ∈ Text.numbered first rs) : isDefinition l = false := by
  obtain ⟨row, hr, ht⟩ := List.mem_map.mp (map_text_numbered h first ▸ List.mem_map_of_mem hl)
  rw [isDefinition, ← ht]
  exact isPrefixOf_eq_false ((h row hr).head?_trim_ne (by decide))

theorem instructionLines_unlines_append (h : ∀ row ∈ rs, IsNumeric row) (source : Text) :
    instructionLines (Text.unlines rs ++ source) =
      Text.numbered 1 rs ++ (instructionLines source).map (Line.lowered rs.length) := by
  have all : (Text.numbered 1 rs).filter (!isDefinition ·) = Text.numbered 1 rs :=
    List.filter_eq_self.mpr fun l hl => by rw [isDefinition_eq_false_of_mem h hl, Bool.not_false]
  rw [instructionLines, lines_unlines_append h, List.filter_append, all, List.filter_map]
  rfl

theorem definitions_unlines_append (h : ∀ row ∈ rs, IsNumeric row) (source : Text) :
    definitions (Text.unlines rs ++ source) = (definitions source).map (Line.lowered rs.length) := by
  have none : (Text.numbered 1 rs).filter isDefinition = [] :=
    List.filter_eq_nil_iff.mpr fun l hl => by rw [isDefinition_eq_false_of_mem h hl]; exact Bool.false_ne_true
  rw [definitions, lines_unlines_append h, List.filter_append, none, List.filter_map]
  rfl

theorem code_unlines_append (h : ∀ row ∈ rs, IsNumeric row) (source : Text) :
    code (Text.unlines rs ++ source) = rs.map Text.trim ++ code source := by
  rw [← map_text_instructionLines, instructionLines_unlines_append h, List.map_append, map_text_numbered h,
    List.map_map, ← map_text_instructionLines]
  rfl

theorem declarations_unlines_append (h : ∀ row ∈ rs, IsNumeric row) (source : Text) :
    declarations (Text.unlines rs ++ source) = declarations source := by
  rw [← map_text_definitions, definitions_unlines_append h, List.map_map, ← map_text_definitions]
  rfl

/-! ### The tables of both -/

variable {ls ds : List Text}

theorem labelPass_symbols_eq_nil (h : ∀ row ∈ rs, IsNumeric row) (first : Nat) :
    labelPass.symbols first (rs.map Text.trim) = [] := by
  rw [List.eq_nil_iff_forall_not_mem]
  intro s hs
  obtain ⟨index, line, hl, hn, -⟩ := SymbolPass.mem_symbols_iff.mp hs
  obtain ⟨row, hr, rfl⟩ := List.mem_map.mp (List.mem_of_getElem? hl)
  rw [labelPass_name?_eq_none ((h row hr).head?_trim_ne (by decide))] at hn
  cases hn

theorem labels_append (h : ∀ row ∈ rs, IsNumeric row) (ha : Assembles ls ds a) :
    (a.labels.shift rs.length).entries = labelPass.symbols 0 (rs.map Text.trim ++ ls) := by
  rw [SymbolPass.symbols_append, labelPass_symbols_eq_nil h, List.nil_append, List.length_map,
    SymbolPass.symbols_shift, ← ha.labels]
  rfl

theorem vars_append (ha : Assembles ls ds a) :
    (a.vars.shift rs.length).entries = variablePass.symbols (rs.map Text.trim ++ ls).length ds := by
  rw [List.length_append, List.length_map, Nat.add_comm, SymbolPass.symbols_shift, ← ha.vars]
  rfl

/-! ### The outcome -/

/-- Lines without symbols are read alike with any tables. -/
theorem exists_assembles_numeric (h : ∀ row ∈ rs, IsNumeric row) : ∃ head, Assembles (rs.map Text.trim) [] head ∧
    ∀ labels vars, List.Forall₂ (fun line i => instruction labels vars line = .ok i) (rs.map Text.trim)
      head.instructions := by
  have read : ∀ line ∈ rs.map Text.trim, ∃ q : Instruction × Word,
      (∀ labels vars, instruction labels vars line = .ok q.1) ∧ q.1.encode = .ok q.2 := by
    intro line hl
    obtain ⟨row, hr, rfl⟩ := List.mem_map.mp hl
    exact (h row hr).exists_encoded
  obtain ⟨ps, hp⟩ := exists_forall₂ read
  obtain ⟨instructions, words⟩ := (exists_forall₂_pairs_iff
    (R := fun line i => ∀ labels vars, instruction labels vars line = .ok i)
    (S := fun i w => i.encode = .ok w)).mp ⟨ps, hp, rfl, rfl⟩
  have any : ∀ labels vars, List.Forall₂ (fun line i => instruction labels vars line = .ok i) (rs.map Text.trim)
      (ps.map Prod.fst) := fun labels vars => instructions.imp fun _ _ hi => hi labels vars
  have unlabelled : ∀ line ∈ rs.map Text.trim, ∃ o, labelPass.introduced line = .ok o := by
    intro line hl
    obtain ⟨row, hr, rfl⟩ := List.mem_map.mp hl
    exact labelPass_introduced_iff.mpr fun hat => absurd hat ((h row hr).head?_trim_ne (by decide))
  refine ⟨⟨ps.map Prod.fst, ps.map Prod.snd, .empty, .empty⟩, ⟨unlabelled, ?_, nofun, rfl, any _ _, words⟩, any⟩
  exact (labelPass_symbols_eq_nil h 0).symm

theorem encode_relocated {code : List Text} {is : List Instruction} {ws : List Word}
    (hw : List.Forall₂ (fun i w => i.encode = .ok w) is ws) (h : ∀ q ∈ code.zip is, CanRise k q.1 q.2) :
    List.Forall₂ (fun i w => i.encode = .ok w) (List.zipWith (fun line => raised k (isSymbolic line)) code is)
      (List.zipWith (fun line w => if isSymbolic line then w + Int64.ofNat k else w) code ws) := by
  induction hw generalizing code with
  | nil =>
    rw [List.zipWith_nil_right, List.zipWith_nil_right]
    exact .nil
  | @cons i w is ws hw _ ih =>
    cases code with
    | nil => exact .nil
    | cons line code =>
      rw [List.zip_cons_cons, List.forall_mem_cons] at h
      exact .cons (encode_raised hw h.1) (ih h.2)

theorem instructions_relocated {code : List Text} {is : List Instruction}
    (hi : List.Forall₂ (fun line i => instruction labels vars line = .ok i) code is) (k : Nat) :
    List.Forall₂ (fun line i => instruction (labels.shift k) (vars.shift k) line = .ok i) code
      (List.zipWith (fun line => raised k (isSymbolic line)) code is) := by
  induction hi with
  | nil => exact .nil
  | cons hi _ ih =>
    refine .cons ?_ ih
    rw [instruction_shift, hi]
    rfl

theorem assembles_relocated (h : ∀ row ∈ rs, IsNumeric row) (ha : Assembles ls ds a) {head : Assembly}
    (hw : Assembles (rs.map Text.trim) [] head)
    (hi : ∀ labels vars, List.Forall₂ (fun line i => instruction labels vars line = .ok i) (rs.map Text.trim)
      head.instructions) (hr : ∀ q ∈ ls.zip a.instructions, CanRise rs.length q.1 q.2) :
    Assembles (rs.map Text.trim ++ ls) ds (relocated head rs.length ls a) where
  labelled line hl := (List.mem_append.mp hl).elim (hw.labelled line) (ha.labelled line)
  labels := labels_append h ha
  declared := ha.declared
  vars := vars_append ha
  instructions := List.rel_append (hi _ _) (instructions_relocated ha.instructions rs.length)
  words := List.rel_append hw.words (encode_relocated ha.words hr)

theorem labelTable_append (h : ∀ row ∈ rs, IsNumeric row) (ha : Assembles (code source) (declarations source) a)
    {head : Assembly} (hw : Assembles (rs.map Text.trim) [] head) :
    labelTable (instructionLines (Text.unlines rs ++ source)) = .ok (a.labels.shift rs.length) := by
  rw [labelTable_eq, SymbolPass.run_eq_ok_iff, map_text_instructionLines, code_unlines_append h]
  exact ⟨fun line hl => (List.mem_append.mp hl).elim (hw.labelled line) (ha.labelled line), labels_append h ha⟩

theorem variableTable_append (h : ∀ row ∈ rs, IsNumeric row)
    (ha : Assembles (code source) (declarations source) a) :
    variableTable (instructionLines (Text.unlines rs ++ source)).length (definitions (Text.unlines rs ++ source)) =
      .ok (a.vars.shift rs.length) := by
  rw [variableTable_eq, SymbolPass.run_eq_ok_iff, map_text_definitions, length_instructionLines, code_unlines_append h,
    declarations_unlines_append h]
  exact ⟨ha.declared, vars_append ha⟩

theorem reads_of_mem_zip (ha : Assembles (code source) (declarations source) a) {l : Line}
    (hl : (l, i) ∈ (instructionLines source).zip a.instructions) :
    instruction a.labels a.vars l.text = .ok i ∧ ∃ w, i.encode = .ok w := by
  have read := ha.instructions
  rw [← map_text_instructionLines, List.forall₂_map_left_iff] at read
  refine ⟨List.forall₂_zip read hl, ?_⟩
  obtain ⟨n, hn, rfl⟩ := List.getElem_of_mem (List.of_mem_zip hl).2
  exact ⟨_, ha.words.get hn (ha.words.length_eq ▸ hn)⟩

theorem ofSource_of_encoded_eq_error {e : SourceError} (hl : labelTable (instructionLines source) = .ok labels)
    (hv : variableTable (instructionLines source).length (definitions source) = .ok vars)
    (he : (instructionLines source).mapM (fun l => onLine l (encoded labels vars l.text)) = .error e) :
    ofSource source = .error e :=
  bind_eq_error_iff.mpr (.inr ⟨_, hl, bind_eq_error_iff.mpr (.inr ⟨_, hv, bind_eq_error_iff.mpr (.inl he)⟩)⟩)

/-- The first instruction that cannot be moved up is the error of both. -/
theorem ofSource_append_of_not_canRise (h : ∀ row ∈ rs, IsNumeric row)
    (ha : Assembles (code source) (declarations source) a) {before behind : List (Line × Instruction)} {l : Line}
    (hz : (instructionLines source).zip a.instructions = before ++ (l, i) :: behind)
    (hb : ∀ q ∈ before, CanRise rs.length q.1.text q.2) (hl : ¬CanRise rs.length l.text i) :
    ofSource (Text.unlines rs ++ source) =
      .error ⟨l.number + rs.length, .encoding (.overflow (i.value + rs.length) 65536)⟩ := by
  obtain ⟨head, hw, hi⟩ := exists_assembles_numeric h
  have reads : ∀ q ∈ before ++ (l, i) :: behind, instruction a.labels a.vars q.1.text = .ok q.2 ∧
      ∃ w, q.2.encode = .ok w := fun q hq => reads_of_mem_zip ha (hz ▸ hq)
  have whole : instructionLines (Text.unlines rs ++ source) =
      (Text.numbered 1 rs ++ before.map (Line.lowered rs.length ∘ Prod.fst)) ++
        l.lowered rs.length :: behind.map (Line.lowered rs.length ∘ Prod.fst) := by
    have same : (instructionLines source).length = a.instructions.length :=
      length_instructionLines.trans ha.instructions.length_eq
    rw [instructionLines_unlines_append h, ← List.map_fst_zip (Nat.le_of_eq same), hz, List.append_assoc, List.map_map,
      List.map_append]
    rfl
  refine ofSource_of_encoded_eq_error (labelTable_append h ha hw) (variableTable_append h ha)
    (mapM_eq_error_iff.mpr ⟨_, _, _, whole, fun k hk => ?_, ?_⟩)
  · simp only [onLine, mapError_eq_ok_iff]
    rcases List.mem_append.mp hk with hk | hk
    · obtain ⟨row, hr, ht⟩ := List.mem_map.mp (map_text_numbered h 1 ▸ List.mem_map_of_mem hk)
      obtain ⟨q, hi, hw⟩ := (h row hr).exists_encoded
      exact ⟨q, encoded_eq_ok_iff.mpr ⟨ht ▸ hi _ _, hw⟩⟩
    · obtain ⟨q, hq, rfl⟩ := List.mem_map.mp hk
      obtain ⟨hi, w, hw⟩ := reads q (List.mem_append_left _ hq)
      exact encoded_shift_of_canRise hi hw (hb q hq)
  · rw [onLine_eq_error_iff]
    exact ⟨rfl, encoded_shift_of_not_canRise (reads (l, i) (List.mem_append_right _ List.mem_cons_self)).1 hl⟩

theorem exists_first_not_canRise {qs : List (Line × Instruction)} (h : ¬∀ q ∈ qs, CanRise k q.1.text q.2) :
    ∃ before l i behind, qs = before ++ (l, i) :: behind ∧ (∀ q ∈ before, CanRise k q.1.text q.2) ∧
      ¬CanRise k l.text i := by
  obtain ⟨q, hq, hno⟩ : ∃ q ∈ qs, ¬CanRise k q.1.text q.2 := by simpa using h
  obtain ⟨⟨l, i⟩, before, behind, hb, hl, hs, -⟩ :=
    List.exists_of_eraseP (p := fun q => !decide (CanRise k q.1.text q.2)) hq (by simpa using hno)
  exact ⟨before, l, i, behind, hs, by simpa using hb, by simpa using hl⟩

/-- A source behind rows without symbols is assembled just if the instructions that refer to symbols can be moved up,
    and then it is moved up behind what the rows are assembled to; otherwise the first instruction that cannot is the
    error. -/
theorem ofSource_relocated (h : ofSource source = .ok a) (hr : ∀ row ∈ rs, IsNumeric row) :
    ((∃ b, ofSource (Text.unlines rs ++ source) = .ok b) ↔
      ∀ q ∈ (instructionLines source).zip a.instructions, CanRise rs.length q.1.text q.2) ∧
    (∃ head, ofSource (Text.unlines rs) = .ok head ∧ ∀ b, ofSource (Text.unlines rs ++ source) = .ok b →
      b = relocated head rs.length (code source) a) ∧
    ∀ before l i behind, (instructionLines source).zip a.instructions = before ++ (l, i) :: behind →
      (∀ q ∈ before, CanRise rs.length q.1.text q.2) → ¬CanRise rs.length l.text i →
        ofSource (Text.unlines rs ++ source) =
          .error ⟨l.number + rs.length, .encoding (.overflow (i.value + rs.length) 65536)⟩ := by
  have ha := ofSource_eq_ok_iff.mp h
  obtain ⟨head, hw, hi⟩ := exists_assembles_numeric hr
  have alone : ofSource (Text.unlines rs) = .ok head := by
    rw [← List.append_nil (Text.unlines rs), ofSource_eq_ok_iff, code_unlines_append hr, declarations_unlines_append hr]
    exact (List.append_nil (rs.map Text.trim)).symm ▸ hw
  have succeeds : (∀ q ∈ (instructionLines source).zip a.instructions, CanRise rs.length q.1.text q.2) →
      ofSource (Text.unlines rs ++ source) = .ok (relocated head rs.length (code source) a) := by
    intro hall
    rw [ofSource_eq_ok_iff, code_unlines_append hr, declarations_unlines_append hr]
    refine assembles_relocated hr ha hw hi fun q hq => ?_
    rw [← map_text_instructionLines, List.zip_map_left] at hq
    obtain ⟨r, hr, rfl⟩ := List.mem_map.mp hq
    exact hall r hr
  have accepted : (∃ b, ofSource (Text.unlines rs ++ source) = .ok b) →
      ∀ q ∈ (instructionLines source).zip a.instructions, CanRise rs.length q.1.text q.2 := by
    rintro ⟨b, hb⟩
    refine Classical.byContradiction fun hno => ?_
    obtain ⟨before, l, i, behind, hz, hbefore, hl⟩ := exists_first_not_canRise hno
    cases hb.symm.trans (ofSource_append_of_not_canRise hr ha hz hbefore hl)
  refine ⟨⟨accepted, fun hall => ⟨_, succeeds hall⟩⟩, ⟨head, alone, fun b hb => ?_⟩, fun _ _ _ _ hz hbefore hl => ?_⟩
  · exact Except.ok.inj (hb.symm.trans (succeeds (accepted ⟨b, hb⟩)))
  · exact ofSource_append_of_not_canRise hr ha hz hbefore hl

theorem ofSource_relocated_load_jump :
    (∃ b, ofSource "LDA #7\n HLT\t\n$define x\nLDA Rx\n@a: JMP @a".toList = .ok b ∧
      b.words = [262151, 0, 327684, 3932163]) ∧
    ofSource (Text.unlines (List.replicate 65535 "HLT".toList) ++ "$define x\nLDA Rx\n@a: JMP @a".toList) =
      .error ⟨65537, .encoding (.overflow 65537 65536)⟩ := by
  have h : ofSource "$define x\nLDA Rx\n@a: JMP @a".toList = .ok ⟨[⟨.load, .direct, 2⟩, ⟨.jump, .immediate, 1⟩],
      [327682, 3932161], ⟨[⟨"a".toList, 1⟩], by simp, by simp⟩, ⟨[⟨"x".toList, 2⟩], by simp, by simp⟩⟩ := by rfl
  constructor
  · have numeric : ∀ row ∈ ["LDA #7".toList, " HLT\t".toList], IsNumeric row := by
      rintro row (_ | ⟨_, _ | ⟨_, ⟨⟩⟩⟩)
      · exact ⟨by decide, .inr ⟨.load, .immediate, "7".toList, by rfl, by decide, by simp, by decide⟩⟩
      · exact ⟨by decide, .inl (by rfl)⟩
    obtain ⟨accepted, ⟨head, alone, moved⟩, -⟩ := ofSource_relocated h numeric
    obtain ⟨b, hb⟩ := accepted.mpr (by decide)
    have read : ofSource (Text.unlines ["LDA #7".toList, " HLT\t".toList]) =
        .ok ⟨[⟨.load, .immediate, 7⟩, .halt], [262151, 0], .empty, .empty⟩ := by rfl
    cases alone.symm.trans read
    exact ⟨b, hb, by rw [moved b hb]; rfl⟩
  · obtain ⟨rs, hrs⟩ : ∃ rs, rs = List.replicate 65535 "HLT".toList := ⟨_, rfl⟩
    have len : rs.length = 65535 := by rw [hrs, List.length_replicate]
    have halts : ∀ row ∈ rs, IsNumeric row := fun row hr =>
      List.eq_of_mem_replicate (hrs ▸ hr) ▸ ⟨by decide, .inl (by rfl)⟩
    have fails := (ofSource_relocated h halts).2.2 [] ⟨2, "LDA Rx".toList⟩ ⟨.load, .direct, 2⟩ _ rfl nofun
    rw [len] at fails
    rw [← hrs]
    exact fails (by decide)

end Prepended
end Assembly
end StoredProgram
