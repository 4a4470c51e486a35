import StoredProgram.Proofs.Assembly.Statement
import StoredProgram.Proofs.Assembly.SymbolPass
import StoredProgram.Proofs.Text.Lines

/-! # The three passes

What a source is assembled to depends only on the texts of its instruction lines and of its definitions, each
in their order (`code`, `declarations`). The label pass and the variable pass are passes that collect symbols,
and the last pass reads and encodes each instruction line with the finished tables, so that a source is
assembled just if all of this succeeds (`ofSource_eq_ok_iff`). -/

namespace StoredProgram.Assembly

/-! ### Lines of a source -/

/-- The texts of the lines that hold an instruction. -/
def code (source : Text) : List Text := source.lineTexts.filter (!keyword.isPrefixOf ·)

/-- The texts of the lines that define variables. -/
def declarations (source : Text) : List Text := source.lineTexts.filter keyword.isPrefixOf

variable {source : Text} {a : Assembly}

theorem map_text_instructionLines : (instructionLines source).map Line.text = code source := by
  rw [code, ← Text.map_text_lines, List.filter_map]
  rfl

theorem map_text_definitions : (definitions source).map Line.text = declarations source := by
  rw [declarations, ← Text.map_text_lines, List.filter_map]
  rfl

theorem length_instructionLines : (instructionLines source).length = (code source).length := by
  rw [← map_text_instructionLines, List.length_map]

theorem code_append_newline (s t : Text) : code (s ++ '\n' :: t) = code s ++ code t := by
  rw [code, Text.lineTexts_append_newline, List.filter_append]
  rfl

theorem declarations_append_newline (s t : Text) :
    declarations (s ++ '\n' :: t) = declarations s ++ declarations t := by
  rw [declarations, Text.lineTexts_append_newline, List.filter_append]
  rfl

theorem isPrefixOf_eq_false {line : Text} (h : line.head? ≠ some '$') : keyword.isPrefixOf line = false := by
  refine Bool.eq_false_iff.mpr fun hp => h ?_
  obtain ⟨t, rfl⟩ := List.isPrefixOf_iff_prefix.mp hp
  rfl

theorem code_of_isLine {line : Text} (hl : line.IsLine) (h : line.head? ≠ some '$') : code line = [line] := by
  rw [code, Text.lineTexts_of_isLine hl, List.filter_cons, isPrefixOf_eq_false h]
  rfl

theorem declarations_of_isLine {line : Text} (hl : line.IsLine) (h : line.head? ≠ some '$') :
    declarations line = [] := by
  rw [declarations, Text.lineTexts_of_isLine hl, List.filter_cons, isPrefixOf_eq_false h]
  rfl

/-! ### Passes that collect symbols -/

/-- The label that an instruction line introduces, if it has one. -/
def labelName (line : Text) : Except Problem (Option Text) :=
  match Labelling.ofText line with
  | .plain _ => .ok none
  | .malformed => .error (.labelling line)
  | .labelled name _ => .ok (some name)

/-- The variable that a definition introduces. -/
def variableName (line : Text) : Except Problem (Option Text) :=
  match line.words with
  | [word, name] =>
    if word ≠ keyword then .error (.definition line)
    else if !isVariableName name then .error (.variableName name)
    else .ok (some name)
  | _ => .error (.definition line)

/-- The first pass, over the instruction lines. -/
def labelPass : SymbolPass := ⟨labelName, .labelling⟩

/-- The second pass, over the definitions. -/
def variablePass : SymbolPass := ⟨variableName, .definition⟩

theorem labelPass_introduced (line : Text) : labelPass.introduced line = labelName line := rfl

theorem variablePass_introduced (line : Text) : variablePass.introduced line = variableName line := rfl

theorem labelPass_name?_eq_some_iff {line name : Text} :
    labelPass.name? line = some name ↔ ∃ body, Labelled line name body := by
  rw [SymbolPass.name?_eq_some_iff, labelPass_introduced, labelName]
  simp only [← Labelling.ofText_eq_labelled_iff]
  cases Labelling.ofText line <;> simp

theorem labelPass_name?_eq_none {line : Text} (h : line.head? ≠ some '@') : labelPass.name? line = none := by
  refine Option.eq_none_iff_forall_ne_some.mpr fun name hn => ?_
  obtain ⟨body, hb⟩ := labelPass_name?_eq_some_iff.mp hn
  exact h hb.head?_eq

theorem labelPass_introduced_iff {line : Text} :
    (∃ o, labelPass.introduced line = .ok o) ↔
      (line.head? = some '@' → ∃ name body, Labelled line name body) := by
  rw [labelPass_introduced, labelName]
  simp only [← Labelling.ofText_eq_labelled_iff]
  cases hl : Labelling.ofText line with
  | plain body => simp [(Labelling.ofText_eq_plain_iff.mp hl).1]
  | labelled name body => simp
  | malformed =>
    have hat : line.head? = some '@' := by
      refine Classical.byContradiction fun h => ?_
      rw [Labelling.ofText_of_head?_ne h] at hl
      cases hl
    simp [hat]

/-- A variable has a name that is not empty, does not start with a digit and has no punctuation. -/
def IsVariableName (name : Text) : Prop :=
  name ≠ [] ∧ (∀ c ∈ name.head?, c.isDigit = false) ∧ ∀ c ∈ name, c ≠ '@' ∧ c ≠ '#' ∧ c ≠ ':'

/-- A line that defines a variable is the keyword and the name of the variable. -/
def Declares (line name : Text) : Prop := line.words = [keyword, name] ∧ IsVariableName name

theorem Declares.isToken {line name : Text} (h : Declares line name) : name.IsToken :=
  Text.isToken_of_mem_words (h.1 ▸ List.mem_cons_of_mem _ List.mem_cons_self)

theorem isVariableName_iff {name : Text} : isVariableName name = true ↔ IsVariableName name := by
  unfold isVariableName IsVariableName
  cases name <;> simp [and_assoc]

theorem variablePass_introduced_eq_ok_iff {line : Text} {o : Option Text} :
    variablePass.introduced line = .ok o ↔ ∃ name, o = some name ∧ Declares line name := by
  rw [variablePass_introduced, variableName]
  simp only [Declares, ← isVariableName_iff]
  rcases line.words with _ | ⟨word, _ | ⟨name, _ | ⟨_, _⟩⟩⟩
  · simp
  · simp
  · simp only [List.cons.injEq, and_true, ne_eq, ite_not, Bool.not_eq_true']
    refine ⟨fun h => ?_, fun h => ?_⟩
    · split at h
      · rename_i hw
        split at h
        · cases h
        · rename_i hn
          cases h
          exact ⟨name, rfl, ⟨hw, rfl⟩, by simpa using hn⟩
      · cases h
    · obtain ⟨_, rfl, ⟨hw, rfl⟩, hn⟩ := h
      simp [hw, hn]
  · simp

theorem variablePass_name?_eq_some_iff {line name : Text} :
    variablePass.name? line = some name ↔ Declares line name := by
  rw [SymbolPass.name?_eq_some_iff, variablePass_introduced_eq_ok_iff]
  simp

theorem addLabel_eq (t : SymbolTable) (index : Nat) (line : Text) :
    addLabel t index line = labelPass.add t index line := by
  unfold addLabel SymbolPass.add
  rw [labelPass_introduced, labelName]
  cases Labelling.ofText line <;> rfl

theorem addVariable_eq (t : SymbolTable) (address : Nat) (line : Text) :
    addVariable t address line = variablePass.add t address line := by
  unfold addVariable SymbolPass.add
  rw [variablePass_introduced, variableName]
  rcases line.words with _ | ⟨word, _ | ⟨name, _ | ⟨_, _⟩⟩⟩
  · rfl
  · rfl
  · simp only
    split
    · rfl
    · split <;> rfl
  · rfl

theorem labelTable_eq (ls : List Line) : labelTable ls = labelPass.run 0 ls .empty := by
  simp only [labelTable, SymbolPass.run, addLabel_eq]

theorem variableTable_eq (first : Nat) (ls : List Line) :
    variableTable first ls = variablePass.run first ls .empty := by
  simp only [variableTable, SymbolPass.run, addVariable_eq]

/-! ### Sources -/

/-- An assembly of a source with the given instruction lines and definitions. -/
structure Assembles (code declarations : List Text) (a : Assembly) : Prop where
  labelled : ∀ line ∈ code, ∃ o, labelPass.introduced line = .ok o
  labels : a.labels.entries = labelPass.symbols 0 code
  declared : ∀ line ∈ declarations, ∃ o, variablePass.introduced line = .ok o
  vars : a.vars.entries = variablePass.symbols code.length declarations
  instructions : List.Forall₂ (fun line i => instruction a.labels a.vars line = .ok i) code a.instructions
  words : List.Forall₂ (fun i w => i.encode = .ok w) a.instructions a.words

theorem exists_forall₂ {α β : Type} {R : α → β → Prop} {xs : List α} (h : ∀ x ∈ xs, ∃ y, R x y) :
    ∃ ys, List.Forall₂ R xs ys := by
  induction xs with
  | nil => exact ⟨[], .nil⟩
  | cons x xs ih =>
    obtain ⟨y, hy⟩ := h x List.mem_cons_self
    obtain ⟨ys, hys⟩ := ih fun x' hx => h x' (List.mem_cons_of_mem _ hx)
    exact ⟨y :: ys, .cons hy hys⟩

theorem exists_forall₂_pairs_iff {α β γ : Type} {R : α → β → Prop} {S : β → γ → Prop} {xs : List α}
    {ys : List β} {zs : List γ} :
    (∃ ps : List (β × γ), List.Forall₂ (fun x q => R x q.1 ∧ S q.1 q.2) xs ps ∧ ps.map Prod.fst = ys ∧
        ps.map Prod.snd = zs) ↔ List.Forall₂ R xs ys ∧ List.Forall₂ S ys zs := by
  refine ⟨fun h => ?_, fun h => ?_⟩
  · obtain ⟨ps, h, rfl, rfl⟩ := h
    induction h with
    | nil => exact ⟨.nil, .nil⟩
    | cons h _ ih => exact ⟨.cons h.1 ih.1, .cons h.2 ih.2⟩
  · obtain ⟨h, hs⟩ := h
    induction h generalizing zs with
    | nil =>
      cases hs
      exact ⟨[], .nil, rfl, rfl⟩
    | @cons x y _ _ h _ ih =>
      obtain ⟨z, zs, hz, hrest, rfl⟩ := List.forall₂_cons_left_iff.mp hs
      obtain ⟨ps, hp, rfl, rfl⟩ := ih hrest
      exact ⟨(y, z) :: ps, .cons ⟨h, hz⟩ hp, rfl, rfl⟩

theorem mapM_encoded_eq_ok_iff {labels vars : SymbolTable} {ls : List Line} {ps : List (Instruction × Word)} :
    ls.mapM (fun l => onLine l (encoded labels vars l.text)) = .ok ps ↔
      List.Forall₂ (fun line q => instruction labels vars line = .ok q.1 ∧ q.1.encode = .ok q.2)
        (ls.map Line.text) ps := by
  rw [mapM_eq_ok_iff, List.forall₂_map_left_iff]
  simp only [onLine, mapError_eq_ok_iff, ← encoded_eq_ok_iff]

/-- A source is assembled just if all three passes over its lines succeed. -/
theorem ofSource_eq_ok_iff : ofSource source = .ok a ↔ Assembles (code source) (declarations source) a := by
  unfold ofSource
  simp only [bind_eq_ok_iff, labelTable_eq, variableTable_eq, SymbolPass.run_eq_ok_iff,
    mapM_encoded_eq_ok_iff, map_text_instructionLines, map_text_definitions, length_instructionLines]
  refine ⟨fun h => ?_, fun h => ?_⟩
  · obtain ⟨labels, ⟨h1, h2⟩, vars, ⟨h3, h4⟩, ps, h5, h⟩ := h
    cases h
    obtain ⟨hi, hw⟩ := (exists_forall₂_pairs_iff (R := fun line i => instruction labels vars line = .ok i)
      (S := fun i w => i.encode = .ok w)).mp ⟨ps, h5, rfl, rfl⟩
    exact ⟨h1, h2, h3, h4, hi, hw⟩
  · obtain ⟨h1, h2, h3, h4, h5, h6⟩ := h
    obtain ⟨ps, hp, hi, hw⟩ := exists_forall₂_pairs_iff.mpr ⟨h5, h6⟩
    refine ⟨a.labels, ⟨h1, h2⟩, a.vars, ⟨h3, h4⟩, ps, hp, ?_⟩
    rw [hi, hw]
    rfl

end StoredProgram.Assembly
