import StoredProgram.Proofs.Assembly.Arrangement
import StoredProgram.Proofs.Assembly.Rewriting

/-! # Renaming labels

The labels of a source can be given other names: at the lines that carry them and in the operands that refer to them.
Names are then looked up as before, under other names, and nothing else of an instruction depends on them. So the source
is assembled to the same program with the same variables, and its labels are the old ones under their new names
(`ofSource_renamed`), whatever the new names look like otherwise. -/

namespace StoredProgram

variable {s t w line body name row source : Text} {c : Char} {r : Text → Text} {labels vars : SymbolTable}
variable {i : Instruction} {m : Mode} {v : Int} {a : Assembly} {ls ds rs : List Text}

/-! ### The last token -/

namespace Text

/-- The text up to its last white space. -/
def beforeLast (t : Text) : Text := t.rdropWhile (!isSpace ·)

/-- What follows the last white space of a text. -/
def lastToken (t : Text) : Text := t.rtakeWhile (!isSpace ·)

theorem beforeLast_append_lastToken (t : Text) : t.beforeLast ++ t.lastToken = t :=
  List.rdropWhile_append_rtakeWhile

theorem beforeLast_eq_nil_or (t : Text) : t.beforeLast = [] ∨ ∃ s c, isSpace c = true ∧ t.beforeLast = s ++ [c] := by
  by_cases h : t.beforeLast = []
  · exact Or.inl h
  · have last : isSpace (t.beforeLast.getLast h) = true := by
      simpa [beforeLast] using List.rdropWhile_last_not (!isSpace ·) t h
    exact Or.inr ⟨_, _, last, (List.dropLast_append_getLast h).symm⟩

theorem words_beforeLast_append (t : Text) (hw : IsToken w) : words (t.beforeLast ++ w) = words t.beforeLast ++ [w] := by
  rcases beforeLast_eq_nil_or t with h | ⟨s, c, hc, h⟩
  · rw [h]
    exact words_of_isToken hw
  · rw [h, List.append_assoc, List.singleton_append, words_append_cons hc, words_append_cons hc, words_of_isToken hw]
    have none : words [] = [] := rfl
    rw [none, List.append_nil]

theorem isToken_lastToken (hne : t ≠ []) (ht : ∀ c ∈ t.getLast?, isSpace c = false) : IsToken t.lastToken := by
  refine ⟨fun h => ?_, fun c hc => ?_⟩
  · have last := List.rtakeWhile_eq_nil_iff.mp h hne
    rw [ht _ (List.getLast?_eq_some_getLast hne)] at last
    exact last rfl
  · simpa using List.mem_rtakeWhile_imp hc

theorem words_eq_append_lastToken (hne : t ≠ []) (ht : ∀ c ∈ t.getLast?, isSpace c = false) :
    words t = words t.beforeLast ++ [t.lastToken] := by
  rw [← words_beforeLast_append t (isToken_lastToken hne ht), beforeLast_append_lastToken]

/-- The last token does not depend on what stands before a white space. -/
theorem beforeLast_append_cons (hc : isSpace c = true) (s t : Text) :
    (s ++ c :: t).beforeLast = s ++ c :: t.beforeLast := by
  unfold beforeLast List.rdropWhile
  rw [List.reverse_append, List.reverse_cons, List.append_assoc, List.dropWhile_append]
  split
  · rename_i h
    rw [List.isEmpty_iff.mp h]
    simp [hc]
  · simp

theorem lastToken_append_cons (hc : isSpace c = true) (s t : Text) : (s ++ c :: t).lastToken = t.lastToken := by
  have whole := beforeLast_append_lastToken (s ++ c :: t)
  rw [beforeLast_append_cons hc, List.append_assoc, List.cons_append] at whole
  have rest := (List.cons.inj (List.append_cancel_left whole)).2
  exact List.append_cancel_left (rest.trans (beforeLast_append_lastToken t).symm)

/-- A text that ends in a token is a line if it starts like one. -/
theorem isLine_append (hs : ∀ c ∈ (s ++ w).head?, isSpace c = false) (hn : '\n' ∉ s) (hw : IsToken w) :
    IsLine (s ++ w) where
  trimmed := by
    refine ⟨hs, fun c hc => ?_⟩
    rw [List.getLast?_append_of_ne_nil _ hw.1] at hc
    exact hw.isTrimmed.2 c hc
  nonempty := List.append_ne_nil_of_right_ne_nil _ hw.1
  single h := (List.mem_append.mp h).elim hn hw.isLine.single

end Text

/-! ### Names -/

/-- New names for the symbols of a table: tokens without a colon, and no two the same. -/
structure Renames (r : Text → Text) (t : SymbolTable) : Prop where
  named : ∀ s ∈ t.entries, (r s.name).IsToken ∧ ':' ∉ r s.name
  injective : ∀ s ∈ t.entries, ∀ u ∈ t.entries, r s.name = r u.name → s.name = u.name

/-- A table with its symbols under new names. -/
def SymbolTable.renamed (t : SymbolTable) (h : Renames r t) : SymbolTable where
  entries := t.entries.map fun s => ⟨r s.name, s.address⟩
  increasing := List.pairwise_map.mpr t.increasing
  single := by
    intro x hx y hy hn
    obtain ⟨s, hs, rfl⟩ := List.mem_map.mp hx
    obtain ⟨u, hu, rfl⟩ := List.mem_map.mp hy
    exact t.single s hs u hu (h.injective s hs u hu hn)

theorem SymbolTable.address?_renamed {t : SymbolTable} (h : Renames r t) (ha : t.address? name = some v) :
    (t.renamed h).address? (r name) = some v :=
  address?_eq_some_iff.mpr (List.mem_map_of_mem (address?_eq_some_iff.mp ha))

theorem Renames.isToken {t : SymbolTable} (h : Renames r t) (ha : t.address? name = some v) : (r name).IsToken :=
  (h.named _ (SymbolTable.address?_eq_some_iff.mp ha)).1

theorem Assembly.SymbolPass.symbols_map {p : SymbolPass} {f : Text → Text} (first : Nat)
    (h : ∀ line ∈ ls, p.name? (f line) = (p.name? line).map r) :
    p.symbols first (ls.map f) = (p.symbols first ls).map fun s => ⟨r s.name, s.address⟩ := by
  induction ls generalizing first with
  | nil => rfl
  | cons line ls ih =>
    obtain ⟨hline, hls⟩ := List.forall_mem_cons.mp h
    rw [List.map_cons, symbols, symbols, List.map_append, ih _ hls, hline]
    cases p.name? line <;> rfl

namespace Assembly

/-! ### Texts with new names -/

/-- A token that refers to a label refers to its new name. -/
def renameToken (r : Text → Text) : Text → Text
  | '@' :: name => '@' :: r name
  | t => t

/-- The operand of an instruction is its last token. -/
def renameOperand (r : Text → Text) (t : Text) : Text := t.beforeLast ++ renameToken r t.lastToken

/-- An instruction line with new names for its label and its operand. -/
def renameLine (r : Text → Text) : Text → Text
  | '@' :: t => '@' :: r (t.takeWhile Labelling.inName) ++ renameOperand r (t.dropWhile Labelling.inName)
  | t => renameOperand r t

/-- A row holds an instruction line. -/
def isInstruction (row : Text) : Bool := !row.trim.isEmpty && !definesVariable row

/-- The row of an instruction line keeps the white space around the line; other rows stay as they are. -/
def renameRow (r : Text → Text) (row : Text) : Text :=
  if isInstruction row then
    row.takeWhile Text.isSpace ++ renameLine r row.trim ++ (row.dropWhile Text.isSpace).rtakeWhile Text.isSpace
  else row

/-- A source with new names for its labels, row by row. -/
def renamed (r : Text → Text) (source : Text) : Text :=
  ['\n'].intercalate ((source.splitOn '\n').map (renameRow r))

theorem renameToken_of_head?_ne (h : t.head? ≠ some '@') : renameToken r t = t := by
  unfold renameToken
  split
  · exact absurd rfl h
  · rfl

theorem head?_renameToken (r : Text → Text) (t : Text) : (renameToken r t).head? = t.head? := by
  unfold renameToken
  split <;> rfl

theorem head?_renameOperand (r : Text → Text) (t : Text) : (renameOperand r t).head? = t.head? := by
  conv => rhs; rw [← Text.beforeLast_append_lastToken t]
  rw [renameOperand, List.head?_append, List.head?_append, head?_renameToken]

theorem renameOperand_append_cons (hc : Text.isSpace c = true) (s t : Text) :
    renameOperand r (s ++ c :: t) = s ++ c :: renameOperand r t := by
  unfold renameOperand
  rw [Text.beforeLast_append_cons hc, Text.lastToken_append_cons hc, List.append_assoc, List.cons_append]

theorem renameLine_of_head?_ne (h : line.head? ≠ some '@') : renameLine r line = renameOperand r line := by
  unfold renameLine
  split
  · exact absurd rfl h
  · rfl

theorem head?_renameLine (r : Text → Text) (line : Text) : (renameLine r line).head? = line.head? := by
  unfold renameLine
  split
  · rfl
  · exact head?_renameOperand r _

theorem renameOperand_id (t : Text) : renameOperand id t = t := by
  have same : ∀ w : Text, renameToken id w = w := fun w => by
    unfold renameToken
    split <;> rfl
  rw [renameOperand, same, Text.beforeLast_append_lastToken]

theorem renameLine_id (line : Text) : renameLine id line = line := by
  unfold renameLine
  split
  · rw [renameOperand_id, List.cons_append, id, List.takeWhile_append_dropWhile]
  · exact renameOperand_id _

theorem renameRow_id (row : Text) : renameRow id row = row := by
  have behind : row.trim ++ (row.dropWhile Text.isSpace).rtakeWhile Text.isSpace = row.dropWhile Text.isSpace :=
    List.rdropWhile_append_rtakeWhile
  unfold renameRow
  split
  · rw [renameLine_id, List.append_assoc, behind, List.takeWhile_append_dropWhile]
  · rfl

/-- Nothing but the names of labels is replaced. -/
theorem renamed_id (source : Text) : renamed id source = source := by
  have rows : (source.splitOn '\n').map (renameRow id) = source.splitOn '\n' :=
    (List.map_congr_left fun row _ => renameRow_id row).trans (List.map_id _)
  rw [renamed, rows, List.intercalate_splitOn]

/-! ### Lines with new names -/

theorem isLabelName_of_isToken (ht : name.IsToken) (hc : ':' ∉ name) : IsLabelName name := by
  refine ⟨ht.1, fun c hm => ⟨fun h => hc (h ▸ hm), ?_, ?_⟩⟩
  · rintro rfl
    exact absurd (ht.2 _ hm) (by decide)
  · rintro rfl
    exact absurd (ht.2 _ hm) (by decide)

theorem renameOperand_gap {gap : Text} (h : IsGap gap) (s t : Text) :
    renameOperand r (s ++ gap ++ t) = s ++ gap ++ renameOperand r t := by
  have last : gap.dropLast ++ [gap.getLast h.1] = gap := List.dropLast_append_getLast h.1
  have space : Text.isSpace (gap.getLast h.1) = true :=
    Labelling.isSpace_of_isGap (Labelling.isGap_iff.mpr (h.2 _ (List.getLast_mem h.1)))
  have split : ∀ t : Text, s ++ gap ++ t = (s ++ gap.dropLast) ++ gap.getLast h.1 :: t := fun t => by
    conv => lhs; rw [← last]
    simp
  rw [split, renameOperand_append_cons space, split]

/-- The label of a line is renamed, and the operand of its body. -/
theorem exists_renameLine_of_labelled (h : Labelled line name body) : ∃ gap, IsGap gap ∧
    line = '@' :: name ++ ':' :: gap ++ body ∧
      renameLine r line = '@' :: r name ++ ':' :: gap ++ renameOperand r body := by
  obtain ⟨hname, -, gap, hgap, hline⟩ := h
  have hin := (Labelling.isLabelName_iff.mp hname).2
  refine ⟨gap, hgap, hline, ?_⟩
  have whole : line = '@' :: (name ++ ':' :: (gap ++ body)) := by simp [hline]
  have behind : renameOperand r (':' :: (gap ++ body)) = ':' :: (gap ++ renameOperand r body) :=
    renameOperand_gap hgap [':'] body
  rw [whole, renameLine, Labelling.takeWhile_inName hin, Labelling.dropWhile_inName hin, behind]
  simp

theorem labelled_renameLine (h : Labelled line name body) (hn : IsLabelName (r name)) :
    Labelled (renameLine r line) (r name) (renameOperand r body) := by
  obtain ⟨gap, hgap, -, he⟩ := exists_renameLine_of_labelled h
  exact ⟨hn, (head?_renameOperand r body).symm ▸ h.2.1, gap, hgap, he⟩

/-! ### Instructions -/

section Lines

variable (hr : Renames r labels)

theorem operand_renamed (ht : t.IsToken) (h : operand labels vars t = .ok (m, v)) :
    operand (labels.renamed hr) vars (renameToken r t) = .ok (m, v) ∧ (renameToken r t).IsToken := by
  obtain ⟨o, ho, hv⟩ := operand_eq_ok_iff.mp h
  cases o with
  | target name =>
    obtain rfl := Operand.ofText?_eq_some_target_iff.mp ho
    obtain ⟨rfl, ha⟩ := Operand.resolve?_target.mp hv
    refine ⟨operand_eq_ok_iff.mpr ⟨.target (r name), Operand.ofText?_eq_some_target_iff.mpr rfl,
      Operand.resolve?_target.mpr ⟨rfl, SymbolTable.address?_renamed hr ha⟩⟩, List.cons_ne_nil _ _, ?_⟩
    exact List.forall_mem_cons.mpr ⟨by decide, (hr.isToken ha).2⟩
  | value k rest =>
    have hs := Mode.split?_eq_some_iff.mp (Operand.ofText?_eq_some_value_iff.mp ho)
    have same : renameToken r t = t := renameToken_of_head?_ne (hs.1 ▸ Mode.sigil_head?_ne k rest)
    rw [same]
    exact ⟨operand_eq_ok_iff.mpr ⟨_, ho, Operand.resolve?_value.mpr (Operand.resolve?_value.mp hv)⟩, ht⟩

/-- The body of a line commands the same with its operand renamed, and still ends in a token. -/
theorem statement_renamed (hne : body ≠ []) (hb : ∀ c ∈ body.getLast?, Text.isSpace c = false)
    (h : statement labels vars line body = .ok i) :
    statement (labels.renamed hr) vars (renameLine r line) (renameOperand r body) = .ok i ∧
      (renameToken r body.lastToken).IsToken := by
  have token := Text.isToken_lastToken hne hb
  have split := Text.words_eq_append_lastToken hne hb
  have split' : (renameToken r body.lastToken).IsToken →
      (renameOperand r body).words = body.beforeLast.words ++ [renameToken r body.lastToken] :=
    Text.words_beforeLast_append body
  rcases statement_eq_ok_iff.mp h with ⟨hw, rfl⟩ | ⟨t, hw, ho⟩
  · -- A halt has no operand: its last token is its mnemonic.
    obtain ⟨before, last⟩ : body.beforeLast.words = [] ∧ body.lastToken = Operation.halt.mnemonic := by
      simpa using List.append_inj' (show _ = [] ++ [_] from split.symm.trans hw) rfl
    have same : renameToken r body.lastToken = body.lastToken :=
      renameToken_of_head?_ne (last ▸ Operation.halt.head?_mnemonic_ne (by decide))
    rw [same, before, last] at split'
    rw [same]
    exact ⟨statement_eq_ok_iff.mpr (Or.inl ⟨split' (last ▸ token), rfl⟩), token⟩
  · obtain ⟨before, last⟩ : body.beforeLast.words = [i.operation.mnemonic] ∧ body.lastToken = t := by
      simpa using List.append_inj' (show _ = [_] ++ [_] from split.symm.trans hw) rfl
    obtain ⟨operand, token'⟩ := operand_renamed hr token (last ▸ ho)
    refine ⟨statement_eq_ok_iff.mpr (Or.inr ⟨_, ?_, operand⟩), token'⟩
    rw [split' token', before]
    rfl

/-- A line with new names can stand in the place of a line. -/
structure Replaces (r : Text → Text) (labels vars : SymbolTable) (line line' : Text) (i : Instruction) : Prop where
  isLine : line'.IsLine
  start : line'.head? ≠ some '$'
  readable : ∃ o, labelPass.introduced line' = .ok o
  name : labelPass.name? line' = (labelPass.name? line).map r
  instruction : instruction labels vars line' = .ok i

theorem head?_ne_of_statement (hl : line.IsLine) (h : statement labels vars line line = .ok i) (hc : c.isUpper = false) :
    line.head? ≠ some c := by
  rw [← Text.trim_eq_self hl.trimmed]
  rcases statement_eq_ok_iff.mp h with ⟨hw, -⟩ | ⟨t, hw, -⟩
  · exact Operation.head?_trim_ne _ hw hc
  · exact Operation.head?_trim_ne _ hw hc

theorem replaces_plain (hl : line.IsLine) (hat : line.head? ≠ some '@')
    (h : statement labels vars line line = .ok i) :
    Replaces r (labels.renamed hr) vars line (renameLine r line) i := by
  obtain ⟨commands, token⟩ := statement_renamed hr hl.nonempty hl.trimmed.2 h
  have hat' : (renameLine r line).head? ≠ some '@' := by rwa [head?_renameLine]
  have whole := renameLine_of_head?_ne (r := r) hat
  have start : (renameLine r line).head? ≠ some '$' := by
    rw [head?_renameLine]
    exact head?_ne_of_statement hl h (by decide)
  refine ⟨?_, start, labelPass_introduced_iff.mpr fun h => absurd h hat', ?_, ?_⟩
  · have first : ∀ c ∈ (renameOperand r line).head?, Text.isSpace c = false := by
      rw [head?_renameOperand]
      exact hl.trimmed.1
    rw [whole]
    exact Text.isLine_append first (fun hn => hl.single ((List.rdropWhile_prefix _ line).subset hn)) token
  · rw [labelPass_name?_eq_none hat, labelPass_name?_eq_none hat']
    rfl
  · refine instruction_eq_ok_iff.mpr ⟨renameLine r line, Or.inl ⟨hat', rfl⟩, ?_⟩
    rw [whole] at commands ⊢
    exact commands

theorem replaces_labelled (hl : line.IsLine) (hlab : Labelled line name body) (hn : (r name).IsToken ∧ ':' ∉ r name)
    (h : statement labels vars line body = .ok i) :
    Replaces r (labels.renamed hr) vars line (renameLine r line) i := by
  obtain ⟨gap, hgap, hline, hline'⟩ := exists_renameLine_of_labelled (r := r) hlab
  have nonempty : body ≠ [] := by
    rintro rfl
    cases h
  have ends : ∀ c ∈ body.getLast?, Text.isSpace c = false := by
    rw [← List.getLast?_append_of_ne_nil _ nonempty, ← hline]
    exact hl.trimmed.2
  obtain ⟨commands, token⟩ := statement_renamed hr nonempty ends h
  have hlab' := labelled_renameLine hlab (isLabelName_of_isToken hn.1 hn.2)
  have start : (renameLine r line).head? ≠ some '$' := by
    rw [hlab'.head?_eq]
    decide
  refine ⟨?_, start, labelPass_introduced_iff.mpr fun _ => ⟨_, _, hlab'⟩, ?_, ?_⟩
  · -- The line ends in the last token of its body.
    have whole : renameLine r line =
        ('@' :: r name ++ ':' :: gap ++ body.beforeLast) ++ renameToken r body.lastToken := by
      rw [hline', renameOperand, List.append_assoc _ body.beforeLast]
    have single : '\n' ∉ '@' :: r name ++ ':' :: gap ++ body.beforeLast := by
      have outside : '\n' ∉ '@' :: name ++ ':' :: gap ++ body := hline ▸ hl.single
      have kept : '\n' ∉ gap ∧ '\n' ∉ body := by simp_all
      have front : '\n' ∉ body.beforeLast := fun hm => kept.2 ((List.rdropWhile_prefix _ body).subset hm)
      simp [hn.1.isLine.single, kept.1, front]
    have first : ∀ c ∈ (renameLine r line).head?, Text.isSpace c = false := by
      rw [head?_renameLine]
      exact hl.trimmed.1
    rw [whole] at first ⊢
    exact Text.isLine_append first single token
  · rw [labelPass_name?_eq_some_iff.mpr ⟨_, hlab⟩, labelPass_name?_eq_some_iff.mpr ⟨_, hlab'⟩]
    rfl
  · exact instruction_eq_ok_iff.mpr ⟨_, Or.inr ⟨_, hlab'⟩, commands⟩

end Lines

/-! ### Rows -/

theorem code_eq_map_filter (source : Text) :
    code source = ((source.splitOn '\n').filter isInstruction).map Text.trim := by
  rw [code, Text.lineTexts, List.filter_filter, List.filter_map]
  refine congrArg _ (List.filter_congr fun row _ => ?_)
  exact Bool.and_comm _ _

theorem declarations_eq_map_filter (source : Text) :
    declarations source = ((source.splitOn '\n').filter definesVariable).map Text.trim := by
  rw [declarations, Text.lineTexts, List.filter_filter, List.filter_map]
  refine congrArg _ (List.filter_congr fun row _ => ?_)
  show (definesVariable row && !(Text.trim row).isEmpty) = definesVariable row
  unfold definesVariable
  cases Text.trim row with
  | nil => rfl
  | cons c rest => simp

theorem renameRow_of_not_isInstruction (h : isInstruction row = false) : renameRow r row = row := by
  rw [renameRow, h]
  rfl

theorem trim_renameRow (h : isInstruction row = true) (hl : (renameLine r row.trim).IsLine) :
    Text.trim (renameRow r row) = renameLine r row.trim := by
  have front : Text.IsBlank (row.takeWhile Text.isSpace) := fun c hc => List.mem_takeWhile_imp hc
  have back : Text.IsBlank ((row.dropWhile Text.isSpace).rtakeWhile Text.isSpace) := fun c hc =>
    List.mem_rtakeWhile_imp hc
  rw [renameRow, if_pos h, Text.trim_append_isBlank back, Text.trim_append_of_isBlank front,
    Text.trim_eq_self hl.trimmed]

theorem newline_not_mem_renameRow (hn : '\n' ∉ row)
    (hl : isInstruction row = true → (renameLine r row.trim).IsLine) : '\n' ∉ renameRow r row := by
  unfold renameRow
  split
  · rename_i h
    have front : '\n' ∉ row.takeWhile Text.isSpace := fun hm => hn ((List.takeWhile_prefix _).subset hm)
    have back : '\n' ∉ (row.dropWhile Text.isSpace).rtakeWhile Text.isSpace := fun hm =>
      hn ((List.dropWhile_suffix _).subset ((List.rtakeWhile_suffix _ _).subset hm))
    simp [front, back, (hl h).single]
  · exact hn

section Rows

variable (hls : ∀ line ∈ code source, (renameLine r line).IsLine ∧ (renameLine r line).head? ≠ some '$')
include hls

theorem of_mem_splitOn (hrow : row ∈ source.splitOn '\n') (h : isInstruction row = true) :
    (renameLine r row.trim).IsLine ∧ (renameLine r row.trim).head? ≠ some '$' := by
  refine hls _ ?_
  rw [code_eq_map_filter]
  exact List.mem_map_of_mem (List.mem_filter.mpr ⟨hrow, h⟩)

theorem splitOn_renamed : (renamed r source).splitOn '\n' = (source.splitOn '\n').map (renameRow r) := by
  refine List.splitOn_intercalate '\n' ?_ ?_
  · rw [List.forall_mem_map]
    intro row hrow
    have single : '\n' ∉ row := fun hm => by
      rw [List.splitOn_eq_splitOnP] at hrow
      exact absurd (Text.mem_of_mem_splitOnP hrow _ hm).2 (by simp)
    exact newline_not_mem_renameRow single fun h => (of_mem_splitOn hls hrow h).1
  · simp [List.splitOn_ne_nil]

theorem isInstruction_renameRow (hrow : row ∈ source.splitOn '\n') :
    isInstruction (renameRow r row) = isInstruction row := by
  cases h : isInstruction row with
  | true =>
    obtain ⟨hl, hs⟩ := of_mem_splitOn hls hrow h
    rw [isInstruction, definesVariable, trim_renameRow h hl, isPrefixOf_eq_false hs]
    simp [hl.nonempty]
  | false => rw [renameRow_of_not_isInstruction h, h]

theorem code_renamed : code (renamed r source) = (code source).map (renameLine r) := by
  have same : ((source.splitOn '\n').filter (isInstruction ∘ renameRow r)) = (source.splitOn '\n').filter isInstruction :=
    List.filter_congr fun row hrow => isInstruction_renameRow hls hrow
  rw [code_eq_map_filter, splitOn_renamed hls, List.filter_map, same, List.map_map, code_eq_map_filter, List.map_map]
  refine List.map_congr_left fun row hrow => ?_
  obtain ⟨hrow, h⟩ := List.mem_filter.mp hrow
  exact trim_renameRow h (of_mem_splitOn hls hrow h).1

theorem definesVariable_renameRow (hrow : row ∈ source.splitOn '\n') :
    definesVariable (renameRow r row) = definesVariable row := by
  cases h : isInstruction row with
  | true =>
    obtain ⟨hl, hs⟩ := of_mem_splitOn hls hrow h
    have other : row.trim.isEmpty = false ∧ definesVariable row = false := by simpa [isInstruction] using h
    rw [other.2, definesVariable, trim_renameRow h hl, isPrefixOf_eq_false hs]
  | false => rw [renameRow_of_not_isInstruction h]

theorem declarations_renamed : declarations (renamed r source) = declarations source := by
  have same : (source.splitOn '\n').filter (definesVariable ∘ renameRow r) =
      (source.splitOn '\n').filter definesVariable :=
    List.filter_congr fun row hrow => definesVariable_renameRow hls hrow
  rw [declarations_eq_map_filter, splitOn_renamed hls, List.filter_map, same, List.map_map,
    declarations_eq_map_filter]
  refine List.map_congr_left fun row hrow => ?_
  have other : isInstruction row = false := by simp [isInstruction, (List.mem_filter.mp hrow).2]
  exact congrArg Text.trim (renameRow_of_not_isInstruction other)

end Rows

/-! ### Sources -/

theorem replaces_of_mem (h : Assembles ls ds a) (hr : Renames r a.labels) (hl : line ∈ ls) (hline : line.IsLine)
    (hi : instruction a.labels a.vars line = .ok i) :
    Replaces r (a.labels.renamed hr) a.vars line (renameLine r line) i := by
  obtain ⟨body, ⟨hat, rfl⟩ | ⟨name, hlab⟩, hs⟩ := instruction_eq_ok_iff.mp hi
  · exact replaces_plain hr hline hat hs
  · obtain ⟨s, hs', hname⟩ : ∃ s ∈ a.labels.entries, s.name = name := by
      rw [h.labels]
      exact List.mem_map.mp
        (SymbolPass.mem_names_symbols_iff.mpr ⟨line, hl, labelPass_name?_eq_some_iff.mpr ⟨body, hlab⟩⟩)
    exact replaces_labelled hr hline hlab (hname ▸ hr.named s hs') hs

theorem forall₂_replaces (h : Assembles ls ds a) (hr : Renames r a.labels) (hls : ∀ line ∈ ls, line.IsLine) :
    List.Forall₂ (fun line i => Replaces r (a.labels.renamed hr) a.vars line (renameLine r line) i) ls
      a.instructions := by
  have members := (List.forall₂_and_left ls a.instructions).mpr ⟨fun _ hl => hl, h.instructions⟩
  exact members.imp fun line i hi => replaces_of_mem h hr hi.1 (hls line hi.1) hi.2

theorem exists_replaces (h : Assembles ls ds a) (hr : Renames r a.labels) (hls : ∀ line ∈ ls, line.IsLine)
    (hl : line ∈ ls) : ∃ i, Replaces r (a.labels.renamed hr) a.vars line (renameLine r line) i := by
  have lines := forall₂_replaces h hr hls
  obtain ⟨n, hn, rfl⟩ := List.getElem_of_mem hl
  exact ⟨_, lines.get hn (lines.length_eq ▸ hn)⟩

theorem assembles_renamed (h : Assembles ls ds a) (hr : Renames r a.labels) (hls : ∀ line ∈ ls, line.IsLine) :
    Assembles (ls.map (renameLine r)) ds { a with labels := a.labels.renamed hr } := by
  have names : labelPass.symbols 0 (ls.map (renameLine r)) = (a.labels.renamed hr).entries := by
    rw [SymbolPass.symbols_map 0 fun line hl => (exists_replaces h hr hls hl).elim fun _ h => h.name, ← h.labels]
    rfl
  refine ⟨List.forall_mem_map.mpr fun line hl => ?_, names.symm, h.declared, ?_, ?_, h.words⟩
  · obtain ⟨i, hi⟩ := exists_replaces h hr hls hl
    exact hi.readable
  · rw [List.length_map]
    exact h.vars
  · exact List.forall₂_map_left_iff.mpr ((forall₂_replaces h hr hls).imp fun _ _ h => h.instruction)

/-- A source with new names for its labels is assembled to the same program, with the same variables and with its labels
    under their new names. -/
theorem ofSource_renamed (h : ofSource source = .ok a) (hr : Renames r a.labels) :
    ofSource (renamed r source) = .ok { a with labels := a.labels.renamed hr } := by
  have ha := ofSource_eq_ok_iff.mp h
  have kept : ∀ line ∈ code source, (renameLine r line).IsLine ∧ (renameLine r line).head? ≠ some '$' := by
    intro line hl
    obtain ⟨i, hi⟩ := exists_replaces ha hr (fun _ => isLine_of_mem_code) hl
    exact ⟨hi.isLine, hi.start⟩
  rw [ofSource_eq_ok_iff, code_renamed kept, declarations_renamed kept]
  exact assembles_renamed ha hr fun _ => isLine_of_mem_code

theorem ofSource_renamed_jump :
    renamed ('@' :: '#' :: ·) "$define JMP\n @go:\t LDA RJMP \n@x: BZE @go\nJMP  @x".toList =
        "$define JMP\n @@#go:\t LDA RJMP \n@@#x: BZE @@#go\nJMP  @@#x".toList ∧
      ∃ b, ofSource "$define JMP\n @@#go:\t LDA RJMP \n@@#x: BZE @@#go\nJMP  @@#x".toList = .ok b ∧
        b.instructions = [⟨.load, .direct, 3⟩, ⟨.branchIfZero, .immediate, 0⟩, ⟨.jump, .immediate, 1⟩] ∧
        b.labels.entries = [⟨"@#go".toList, 0⟩, ⟨"@#x".toList, 1⟩] := by
  have h : ofSource "$define JMP\n @go:\t LDA RJMP \n@x: BZE @go\nJMP  @x".toList =
      .ok ⟨[⟨.load, .direct, 3⟩, ⟨.branchIfZero, .immediate, 0⟩, ⟨.jump, .immediate, 1⟩], [327683, 2883584, 3932161],
        ⟨[⟨"go".toList, 0⟩, ⟨"x".toList, 1⟩], by simp, by simp⟩, ⟨[⟨"JMP".toList, 3⟩], by simp, by simp⟩⟩ := by rfl
  have text : renamed ('@' :: '#' :: ·) "$define JMP\n @go:\t LDA RJMP \n@x: BZE @go\nJMP  @x".toList =
      "$define JMP\n @@#go:\t LDA RJMP \n@@#x: BZE @@#go\nJMP  @@#x".toList := by rfl
  have hr : Renames ('@' :: '#' :: ·) ⟨[⟨"go".toList, 0⟩, ⟨"x".toList, 1⟩], by simp, by simp⟩ :=
    ⟨by decide, by decide⟩
  exact ⟨text, _, text ▸ ofSource_renamed h hr, rfl, rfl⟩

end Assembly
end StoredProgram
