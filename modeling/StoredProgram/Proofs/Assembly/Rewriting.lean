import StoredProgram.Proofs.Assembly.Grammar
import StoredProgram.Proofs.Instruction.Text

/-! # Writing sources

A program can be written as a source again: a definition for each variable, and each instruction on a line
of its own, behind its label if it has one. Assembling the source gives back the program with all of its
symbols. -/

namespace StoredProgram.Assembly

/-! ### Lines -/

/-- The line that defines a variable. -/
def definitionLine (name : Text) : Text := keyword ++ ' ' :: name

/-- The line of an instruction, which stands behind its label if it has one. -/
def codeLine (label : Option Text) (i : Instruction) : Text :=
  match label with
  | none => i.text
  | some name => '@' :: name ++ ':' :: [' '] ++ i.text

/-- The lines of instructions, with the labels of their indices. -/
def codeLines (labels : SymbolTable) (is : List Instruction) : List Text :=
  is.mapIdx fun index i => codeLine (labels.name? index) i

/-- A source with the given variables, and with instructions that have the given labels. -/
def written (labels : SymbolTable) (vars : List Text) (is : List Instruction) : Text :=
  Text.unlines (vars.map definitionLine ++ codeLines labels is)

/-- Labels that the lines of a program can carry. -/
structure LabelsFit (labels : SymbolTable) (n : Nat) : Prop where
  named : ∀ s ∈ labels.entries, IsLabelName s.name ∧ '\n' ∉ s.name
  placed : ∀ s ∈ labels.entries, 0 ≤ s.address ∧ s.address < n

/-- Names of variables that one source can define. -/
structure VariablesFit (vars : List Text) : Prop where
  named : ∀ name ∈ vars, IsVariableName name ∧ Text.IsToken name
  distinct : vars.Nodup

variable {labels : SymbolTable} {vars : List Text} {is : List Instruction} {ws : List Word}
variable {i : Instruction} {label : Option Text} {name : Text}

theorem isToken_keyword : Text.IsToken keyword := by decide

/-! ### Definitions -/

theorem declares_definitionLine (h : IsVariableName name) (ht : Text.IsToken name) :
    Declares (definitionLine name) name := by
  refine ⟨?_, h⟩
  rw [definitionLine, Text.words_isToken_append isToken_keyword rfl, Text.words_of_isToken ht]

theorem isLine_definitionLine (ht : Text.IsToken name) : (definitionLine name).IsLine := by
  rw [definitionLine, ← List.singleton_append, ← List.append_assoc]
  exact isToken_keyword.isLine.join ht.isLine (by decide)

theorem keyword_isPrefixOf_definitionLine : keyword.isPrefixOf (definitionLine name) = true :=
  List.isPrefixOf_iff_prefix.mpr (List.prefix_append _ _)

/-! ### Instruction lines -/

theorem labelled_codeLine (h : IsLabelName name) : Labelled (codeLine (some name) i) name i.text := by
  refine ⟨h, fun c hc => ⟨?_, ?_⟩, [' '], ⟨List.cons_ne_nil _ _, by simp⟩, rfl⟩
  · rintro rfl
    exact i.head?_text_ne (by decide) hc
  · rintro rfl
    exact i.head?_text_ne (by decide) hc

/-- A written line carries just its label. -/
theorem labelled_codeLine_iff (hl : ∀ name ∈ label, IsLabelName name) :
    (∃ body, Labelled (codeLine label i) name body) ↔ label = some name := by
  cases label with
  | none =>
    simp only [reduceCtorEq, iff_false, not_exists]
    exact fun body h => i.head?_text_ne (by decide) h.head?_eq
  | some name' =>
    have written := Labelling.ofText_of_labelled (labelled_codeLine (i := i) (hl name' rfl))
    simp only [← Labelling.ofText_eq_labelled_iff, written, Labelling.labelled.injEq, exists_and_left,
      exists_eq', and_true, Option.some.injEq]

theorem hasBody_codeLine (hl : ∀ name ∈ label, IsLabelName name) : HasBody (codeLine label i) i.text := by
  cases label with
  | none => exact Or.inl ⟨i.head?_text_ne (by decide), rfl⟩
  | some name => exact Or.inr ⟨name, labelled_codeLine (hl name rfl)⟩

theorem isLine_codeLine (h0 : 0 ≤ i.value) (hl : ∀ name ∈ label, '\n' ∉ name) : (codeLine label i).IsLine := by
  cases label with
  | none => exact Instruction.isLine_text h0
  | some name =>
    have sign : Text.IsToken ['@'] := by decide
    have gap : '\n' ∉ name ++ ':' :: [' '] := by simp [hl name rfl]
    exact sign.isLine.join (Instruction.isLine_text h0) gap

theorem keyword_isPrefixOf_codeLine : keyword.isPrefixOf (codeLine label i) = false := by
  cases label with
  | none => exact isPrefixOf_eq_false (i.head?_text_ne (by decide))
  | some name => exact isPrefixOf_eq_false (by decide : some '@' ≠ some '$')

theorem lineCommands_codeLine {ls ds : List Text} (hl : ∀ name ∈ label, IsLabelName name) (h0 : 0 ≤ i.value)
    (hlt : i.value < 65536) : LineCommands ls ds (codeLine label i) i := by
  refine ⟨i.text, hasBody_codeLine hl, ?_⟩
  by_cases h : i = .halt
  · rw [h]
    exact .halt Instruction.words_text_halt
  · refine .operation (Instruction.words_text_of_ne h h0) ?_ hlt
    obtain ⟨n, hn⟩ := Int.eq_ofNat_of_zero_le h0
    have value : (Nat.ofDigitChars 10 (Text.ofNat n) 0 : Nat) = n :=
      Nat.ofDigitChars_toDigits (by decide) (by decide)
    have denotes : Denotes ls ds (i.mode.sigil ++ Text.ofNat n) i.mode
        (Nat.ofDigitChars 10 (Text.ofNat n) 0 : Nat) :=
      .number (Text.isToken_ofNat n).1 Text.isDigit_of_mem_ofNat
    rw [hn]
    rwa [value] at denotes

/-! ### Programs -/

theorem mem_codeLines_iff {line : Text} :
    line ∈ codeLines labels is ↔ ∃ (index : Nat) (i : Instruction),
      is[index]? = some i ∧ line = codeLine (labels.name? index) i := by
  rw [codeLines, List.mem_mapIdx]
  refine ⟨fun h => ?_, fun h => ?_⟩
  · obtain ⟨index, h, rfl⟩ := h
    exact ⟨index, _, List.getElem?_eq_getElem h, rfl⟩
  · obtain ⟨index, i, hi, rfl⟩ := h
    obtain ⟨h, rfl⟩ := List.getElem?_eq_some_iff.mp hi
    exact ⟨index, h, rfl⟩

theorem getElem?_codeLines_eq_some_iff {index : Nat} {line : Text} :
    (codeLines labels is)[index]? = some line ↔
      ∃ i, is[index]? = some i ∧ codeLine (labels.name? index) i = line := by
  rw [codeLines, List.getElem?_mapIdx, Option.map_eq_some_iff]

theorem LabelsFit.isLabelName {n : Nat} (hl : LabelsFit labels n) {index : Int} :
    ∀ name ∈ labels.name? index, IsLabelName name := fun _ h =>
  (hl.named _ (SymbolTable.name?_eq_some_iff.mp h)).1

theorem LabelsFit.newline_not_mem {n : Nat} (hl : LabelsFit labels n) {index : Int} :
    ∀ name ∈ labels.name? index, '\n' ∉ name := fun _ h =>
  (hl.named _ (SymbolTable.name?_eq_some_iff.mp h)).2

theorem labelAt_codeLines_iff (hl : LabelsFit labels is.length) {v : Int} :
    LabelAt (codeLines labels is) name v ↔ labels.address? name = some v := by
  rw [SymbolTable.address?_eq_some_iff]
  refine ⟨fun h => ?_, fun h => ?_⟩
  · obtain ⟨index, line, hi, hb, rfl⟩ := h
    obtain ⟨i, -, rfl⟩ := getElem?_codeLines_eq_some_iff.mp hi
    exact SymbolTable.name?_eq_some_iff.mp ((labelled_codeLine_iff hl.isLabelName).mp hb)
  · obtain ⟨h0, hlt⟩ := hl.placed _ h
    obtain ⟨index, rfl⟩ := Int.eq_ofNat_of_zero_le h0
    have hi : index < is.length := Int.ofNat_lt.mp hlt
    refine ⟨index, _, getElem?_codeLines_eq_some_iff.mpr ⟨_, List.getElem?_eq_getElem hi, rfl⟩, ?_, rfl⟩
    exact (labelled_codeLine_iff hl.isLabelName).mpr (SymbolTable.name?_eq_some_iff.mpr h)

theorem names_definitionLines (hv : VariablesFit vars) :
    List.Forall₂ (fun line name => variablePass.name? line = some name) (vars.map definitionLine) vars := by
  rw [List.forall₂_map_left_iff, List.forall₂_same]
  intro name hn
  obtain ⟨hname, ht⟩ := hv.named name hn
  exact variablePass_name?_eq_some_iff.mpr (declares_definitionLine hname ht)

theorem nodup_definitionLines (hv : VariablesFit vars) (first : Nat) :
    ((variablePass.symbols first (vars.map definitionLine)).map Symbol.name).Nodup := by
  rw [SymbolPass.map_name_symbols (names_definitionLines hv)]
  exact hv.distinct

theorem grammatical_written (hl : LabelsFit labels is.length) (hv : VariablesFit vars)
    (his : ∀ i ∈ is, 0 ≤ i.value ∧ i.value < 65536) :
    Grammatical (codeLines labels is) (vars.map definitionLine) where
  labelled line h hat := by
    obtain ⟨index, i, -, rfl⟩ := mem_codeLines_iff.mp h
    rcases hasBody_codeLine (i := i) hl.isLabelName with ⟨hne, -⟩ | ⟨name, hb⟩
    · exact absurd hat hne
    · exact ⟨name, _, hb⟩
  singleLabel index index' line line' name hi hi' hb hb' := by
    have h := (labelAt_codeLines_iff hl).mp ⟨index, line, hi, hb, rfl⟩
    rw [(labelAt_codeLines_iff hl).mp ⟨index', line', hi', hb', rfl⟩] at h
    exact (Int.ofNat.inj (Option.some.inj h)).symm
  declared line h := by
    obtain ⟨name, hn, rfl⟩ := List.mem_map.mp h
    exact ⟨name, declares_definitionLine (hv.named name hn).1 (hv.named name hn).2⟩
  singleVariable := nodup_variables_iff.mp (nodup_definitionLines hv 0)
  commanding line h := by
    obtain ⟨index, i, hi, rfl⟩ := mem_codeLines_iff.mp h
    obtain ⟨h0, hlt⟩ := his i (List.mem_of_getElem? hi)
    exact ⟨i, lineCommands_codeLine hl.isLabelName h0 hlt⟩

/-! ### Sources -/

theorem lineTexts_written (hl : LabelsFit labels is.length) (hv : VariablesFit vars)
    (his : ∀ i ∈ is, 0 ≤ i.value) :
    (written labels vars is).lineTexts = vars.map definitionLine ++ codeLines labels is := by
  refine Text.lineTexts_unlines fun line h => ?_
  rcases List.mem_append.mp h with h | h
  · obtain ⟨name, hn, rfl⟩ := List.mem_map.mp h
    exact isLine_definitionLine (hv.named name hn).2
  · obtain ⟨index, i, hi, rfl⟩ := mem_codeLines_iff.mp h
    exact isLine_codeLine (his i (List.mem_of_getElem? hi)) hl.newline_not_mem

theorem isPrefixOf_of_mem_definitionLines {line : Text} (h : line ∈ vars.map definitionLine) :
    keyword.isPrefixOf line = true := by
  obtain ⟨name, -, rfl⟩ := List.mem_map.mp h
  exact keyword_isPrefixOf_definitionLine

theorem isPrefixOf_of_mem_codeLines {line : Text} (h : line ∈ codeLines labels is) :
    keyword.isPrefixOf line = false := by
  obtain ⟨_, _, -, rfl⟩ := mem_codeLines_iff.mp h
  exact keyword_isPrefixOf_codeLine

theorem code_written (hl : LabelsFit labels is.length) (hv : VariablesFit vars) (his : ∀ i ∈ is, 0 ≤ i.value) :
    code (written labels vars is) = codeLines labels is := by
  rw [code, lineTexts_written hl hv his, List.filter_append, List.filter_eq_nil_iff.mpr, List.nil_append,
    List.filter_eq_self]
  · exact fun line h => by rw [isPrefixOf_of_mem_codeLines h]; rfl
  · exact fun line h => by rw [isPrefixOf_of_mem_definitionLines h]; decide

theorem declarations_written (hl : LabelsFit labels is.length) (hv : VariablesFit vars)
    (his : ∀ i ∈ is, 0 ≤ i.value) : declarations (written labels vars is) = vars.map definitionLine := by
  rw [declarations, lineTexts_written hl hv his, List.filter_append, List.filter_eq_self.mpr,
    List.filter_eq_nil_iff.mpr, List.append_nil]
  · exact fun line h => by rw [isPrefixOf_of_mem_codeLines h]; decide
  · exact fun line h => isPrefixOf_of_mem_definitionLines h

theorem value_of_forall₂_encode (hw : List.Forall₂ (fun i w => i.encode = .ok w) is ws) :
    ∀ i ∈ is, 0 ≤ i.value ∧ i.value < 65536 := by
  intro i hi
  obtain ⟨n, hn, rfl⟩ := List.getElem_of_mem hi
  exact Instruction.exists_encode_eq_ok_iff.mp ⟨_, hw.get hn (hw.length_eq ▸ hn)⟩

theorem forall₂_lineCommands {ls ds : List Text} (hl : LabelsFit labels is.length)
    (his : ∀ i ∈ is, 0 ≤ i.value ∧ i.value < 65536) :
    List.Forall₂ (LineCommands ls ds) (codeLines labels is) is := by
  refine List.forall₂_iff_get.mpr ⟨List.length_mapIdx, fun index h h' => ?_⟩
  obtain ⟨h0, hlt⟩ := his is[index] (List.getElem_mem h')
  rw [List.get_eq_getElem, List.get_eq_getElem]
  simp only [codeLines, List.getElem_mapIdx]
  exact lineCommands_codeLine hl.isLabelName h0 hlt

theorem exists_ofSource_written (hw : List.Forall₂ (fun i w => i.encode = .ok w) is ws)
    (hl : LabelsFit labels is.length) (hv : VariablesFit vars) :
    ∃ table : SymbolTable, ofSource (written labels vars is) = .ok ⟨is, ws, labels, table⟩ ∧
      table.entries = (vars.zipIdx is.length).map fun (name, address) => ⟨name, address⟩ := by
  have his := value_of_forall₂_encode hw
  have h0 : ∀ i ∈ is, 0 ≤ i.value := fun i hi => (his i hi).1
  have length : (codeLines labels is).length = is.length := List.length_mapIdx
  let table := variablePass.table is.length (vars.map definitionLine) (nodup_definitionLines hv _)
  have means : Means (codeLines labels is) (vars.map definitionLine) ⟨is, ws, labels, table⟩ := by
    refine ⟨forall₂_lineCommands hl his, hw.imp fun _ _ h => (Instruction.encode_eq_ok_iff.mp h).2.2,
      fun _ _ => (labelAt_codeLines_iff hl).symm, fun _ _ => ?_⟩
    rw [length]
    exact address?_eq_some_iff_variableAt rfl
  refine ⟨table, ?_, SymbolPass.symbols_eq_map_zipIdx (names_definitionLines hv)⟩
  rw [ofSource_eq_ok_iff, code_written hl hv h0, declarations_written hl hv h0]
  exact (grammatical_written hl hv his).assembles means

/-! ### Assembled programs -/

variable {source : Text} {a : Assembly}

theorem isLine_of_mem_code {line : Text} (h : line ∈ code source) : line.IsLine :=
  Text.isLine_of_mem_lineTexts (List.mem_filter.mp h).1

theorem labelsFit_of_assembles (h : Assembles (code source) (declarations source) a) :
    LabelsFit a.labels a.instructions.length := by
  refine ⟨fun s hs => ?_, fun s hs => ?_⟩
  · rw [h.labels] at hs
    obtain ⟨index, line, hi, hn, -⟩ := SymbolPass.mem_symbols_iff.mp hs
    obtain ⟨body, hname, -, gap, -, hline⟩ := labelPass_name?_eq_some_iff.mp hn
    refine ⟨hname, fun hc => (isLine_of_mem_code (List.mem_of_getElem? hi)).single ?_⟩
    rw [hline]
    exact List.mem_append_left _ (List.mem_append_left _ (List.mem_cons_of_mem _ hc))
  · have bounds := SymbolPass.address_lt_of_mem_symbols (h.labels ▸ hs)
    rw [Nat.zero_add, h.instructions.length_eq] at bounds
    exact bounds

theorem variablesFit_of_assembles (h : Assembles (code source) (declarations source) a) :
    VariablesFit (a.vars.entries.map Symbol.name) := by
  refine ⟨fun name hn => ?_, a.vars.nodup_names⟩
  obtain ⟨s, hs, rfl⟩ := List.mem_map.mp hn
  rw [h.vars] at hs
  obtain ⟨_, line, -, hd, -⟩ := SymbolPass.mem_symbols_iff.mp hs
  have hd := variablePass_name?_eq_some_iff.mp hd
  exact ⟨hd.2, hd.isToken⟩

theorem entries_vars_of_assembles {ls ds : List Text} (h : Assembles ls ds a) :
    a.vars.entries = ((a.vars.entries.map Symbol.name).zipIdx ls.length).map
      fun (name, address) => ⟨name, address⟩ := by
  obtain ⟨names, -, he⟩ := h.exists_names
  have named : a.vars.entries.map Symbol.name = names := by
    rw [he, List.map_map]
    exact List.zipIdx_map_fst ls.length names
  rw [named, he]

theorem ofSource_written_of_assembles (h : Assembles (code source) (declarations source) a) :
    ofSource (written a.labels (a.vars.entries.map Symbol.name) a.instructions) = .ok a := by
  obtain ⟨table, ht, he⟩ :=
    exists_ofSource_written h.words (labelsFit_of_assembles h) (variablesFit_of_assembles h)
  have same : table = a.vars := by
    refine SymbolTable.ext (he.trans ?_)
    rw [← h.instructions.length_eq]
    exact (entries_vars_of_assembles h).symm
  rw [ht, same]

/-- Assembling undoes writing. Whatever words can be decoded, a source written from them, with labels and
    variables that fit, is assembled to the words, their instructions, the labels, and the variables one
    after the other behind the program; and what a source is assembled to can be written and assembled again. -/
theorem ofSource_written :
    (∀ (ws : List Word) (is : List Instruction) (labels : SymbolTable) (vars : List Text),
      Instruction.decodeAll ws = .ok is → LabelsFit labels ws.length → VariablesFit vars →
      ∃ table : SymbolTable, ofSource (written labels vars is) = .ok ⟨is, ws, labels, table⟩ ∧
        table.entries = (vars.zipIdx ws.length).map fun (name, address) => ⟨name, address⟩) ∧
    ∀ (source : Text) (a : Assembly), ofSource source = .ok a →
      ofSource (written a.labels (a.vars.entries.map Symbol.name) a.instructions) = .ok a := by
  refine ⟨fun ws is labels vars h hl hv => ?_, fun source a h => ?_⟩
  · have hw := Instruction.decodeAll_eq_ok_iff.mp h
    rw [← hw.length_eq] at hl ⊢
    exact exists_ofSource_written hw hl hv
  · exact ofSource_written_of_assembles (ofSource_eq_ok_iff.mp h)

theorem ofSource_written_load_halt :
    ∃ a : Assembly,
      ofSource (written ⟨[⟨"end".toList, 1⟩], by simp, by simp⟩ ["x".toList] [⟨.load, .direct, 2⟩, .halt]) =
        .ok a ∧ a.words = [327682, 0] ∧ a.vars.entries = [⟨"x".toList, 2⟩] ∧
      ofSource (written a.labels (a.vars.entries.map Symbol.name) a.instructions) = .ok a := by
  have label : IsLabelName "end".toList ∧ '\n' ∉ "end".toList := by decide
  have name : IsVariableName "x".toList ∧ Text.IsToken "x".toList :=
    ⟨isVariableName_iff.mp rfl, by decide⟩
  have words : Instruction.decodeAll [327682, 0] = .ok [⟨.load, .direct, 2⟩, .halt] := by
    refine Instruction.decodeAll_eq_ok_iff.mpr (.cons ?_ (.cons ?_ .nil)) <;>
      exact Instruction.encode_eq_ok_iff.mpr (by decide)
  obtain ⟨table, h, he⟩ := ofSource_written.1 _ _ ⟨[⟨"end".toList, 1⟩], by simp, by simp⟩ ["x".toList] words
    ⟨by simpa using label, by simp⟩ ⟨by simpa using name, by simp⟩
  have again := ofSource_written.2 _ _ h
  exact ⟨_, h, rfl, he, again⟩

end StoredProgram.Assembly
