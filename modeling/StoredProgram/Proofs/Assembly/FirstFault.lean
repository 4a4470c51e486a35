import StoredProgram.Proofs.Assembly.Fault

/-! # The first fault of a source

A source that cannot be assembled has as its error the first of its faults (`ofSource_eq_error_iff`): faults of
labels come before faults of definitions, and these before faults of instructions, whatever their lines, and the
faults of one pass come in the order of the lines. What is a fault (`Faulty`) depends on the source alone. -/

namespace StoredProgram.Assembly

/-! ### Faults of a source -/

/-- The passes over a source. -/
inductive Pass where
  | labels
  | vars
  | instructions
  deriving DecidableEq

/-- The place of a pass in the order of passes. -/
def Pass.rank : Pass → Nat
  | labels => 0
  | vars => 1
  | instructions => 2

/-- A numbered line that holds an instruction. -/
def InstructionAt (source : Text) (number : Nat) (line : Text) : Prop :=
  source.LineAt number line ∧ keyword.isPrefixOf line = false

/-- A numbered line that defines a variable. -/
def DefinitionAt (source : Text) (number : Nat) (line : Text) : Prop :=
  source.LineAt number line ∧ keyword.isPrefixOf line = true

/-- What is wrong with a line of a source, in the pass that reports it. -/
inductive Faulty (source : Text) : Pass → Nat → Problem → Prop
  | malformed {n : Nat} {line : Text} (hl : InstructionAt source n line) (hat : line.head? = some '@')
    (h : ∀ name body, ¬Labelled line name body) : Faulty source .labels n (.labelling line)
  | labelAgain {n k : Nat} {line line' name : Text} (hl : InstructionAt source n line)
    (hk : InstructionAt source k line') (hlt : k < n) (h : ∃ body, Labelled line name body)
    (h' : ∃ body, Labelled line' name body) : Faulty source .labels n (.labelling line)
  | definition {n : Nat} {line : Text} (hl : DefinitionAt source n line)
    (h : ∀ name, line.words ≠ [keyword, name]) : Faulty source .vars n (.definition line)
  | variableName {n : Nat} {line name : Text} (hl : DefinitionAt source n line) (hw : line.words = [keyword, name])
    (h : ¬IsVariableName name) : Faulty source .vars n (.variableName name)
  | variableAgain {n k : Nat} {line line' name : Text} (hl : DefinitionAt source n line)
    (hk : DefinitionAt source k line') (hlt : k < n) (h : Declares line name) (h' : Declares line' name) :
    Faulty source .vars n (.definition line)
  | instruction {n : Nat} {line : Text} {p : Problem} (hl : InstructionAt source n line)
    (h : InstructionFault (code source) (declarations source) line p) : Faulty source .instructions n p

/-- An error names a fault of a source that no other fault precedes, by pass and then by line. -/
def FirstFault (source : Text) (e : SourceError) : Prop :=
  ∃ pass, Faulty source pass e.line e.problem ∧ ∀ pass' n p, Faulty source pass' n p →
    pass.rank < pass'.rank ∨ pass = pass' ∧ e.line ≤ n

/-- A pass that finds no fault in a source. -/
def Clean (source : Text) (pass : Pass) : Prop := ∀ n p, ¬Faulty source pass n p

/-- An error names the first line with a fault of a pass. -/
def FirstIn (source : Text) (pass : Pass) (e : SourceError) : Prop :=
  Faulty source pass e.line e.problem ∧ ∀ n p, Faulty source pass n p → e.line ≤ n

variable {source : Text} {ls : List Line} {l k : Line} {e : SourceError} {q : Problem} {pass : Pass}

/-- The first fault of a source is the first one of a pass, all passes before it being clean. -/
theorem firstFault_iff : FirstFault source e ↔
    ∃ pass, FirstIn source pass e ∧ ∀ pass' : Pass, pass'.rank < pass.rank → Clean source pass' := by
  refine exists_congr fun pass => ⟨fun h => ?_, fun h => ?_⟩
  · obtain ⟨hf, hfirst⟩ := h
    refine ⟨⟨hf, fun n p hp => ?_⟩, fun pass' hlt n p hp => ?_⟩
    · obtain h | ⟨-, h⟩ := hfirst pass n p hp
      · exact absurd h (Nat.lt_irrefl _)
      · exact h
    · obtain h | ⟨rfl, -⟩ := hfirst pass' n p hp
      · exact absurd hlt (Nat.lt_asymm h)
      · exact absurd hlt (Nat.lt_irrefl _)
  · obtain ⟨⟨hf, hfirst⟩, clean⟩ := h
    refine ⟨hf, fun pass' n p hp => ?_⟩
    rcases Nat.lt_trichotomy pass.rank pass'.rank with h | h | h
    · exact Or.inl h
    · obtain rfl : pass = pass' := by
        cases pass <;> cases pass' <;> first | rfl | cases h
      exact Or.inr ⟨rfl, hfirst n p hp⟩
    · exact absurd hp (clean pass' h n p)

/-! ### The first line with a fault -/

/-- An error names a line that has a fault, and no line before it has one. -/
def FirstOf (fault : Line → Problem → Prop) (ls : List Line) (e : SourceError) : Prop :=
  (∃ l ∈ ls, l.number = e.line ∧ fault l e.problem) ∧ ∀ k ∈ ls, ∀ q, fault k q → e.line ≤ k.number

theorem firstOf_iff {fault : Line → Problem → Prop} (hs : ls.Pairwise (·.number < ·.number)) :
    FirstOf fault ls e ↔ ∃ before l behind, ls = before ++ l :: behind ∧ (∀ k ∈ before, ∀ q, ¬fault k q) ∧
      l.number = e.line ∧ fault l e.problem := by
  have first {before behind : List Line} {l : Line} (hs : (before ++ l :: behind).Pairwise (·.number < ·.number)) :=
    Text.forall_mem_before_iff hs (p := fun k => ∃ q, fault k q)
  refine ⟨fun h => ?_, fun h => ?_⟩
  · obtain ⟨⟨l, hl, hn, hf⟩, hfirst⟩ := h
    obtain ⟨before, behind, rfl⟩ := List.append_of_mem hl
    have clean := (first hs).mpr fun k hk ⟨q, hq⟩ => hn ▸ hfirst k hk q hq
    exact ⟨before, l, behind, rfl, fun k hk q hq => clean k hk ⟨q, hq⟩, hn, hf⟩
  · obtain ⟨before, l, behind, rfl, hno, hn, hf⟩ := h
    refine ⟨⟨l, List.mem_append_right _ List.mem_cons_self, hn, hf⟩, fun k hk q hq => hn ▸ ?_⟩
    exact (first hs).mp (fun k hk ⟨q, hq⟩ => hno k hk q hq) k hk ⟨q, hq⟩

/-! ### Passes that collect symbols -/

namespace SymbolPass

variable {p : SymbolPass} {first : Nat}

/-- What is wrong with a line among others: it cannot be read, or it introduces a name again that a line before it
    has introduced. -/
inductive Fault (p : SymbolPass) (ls : List Line) (l : Line) : Problem → Prop
  | unreadable {q : Problem} (h : p.introduced l.text = .error q) : Fault p ls l q
  | again {k : Line} {name : Text} (hk : k ∈ ls) (hlt : k.number < l.number) (h : p.name? l.text = some name)
    (h' : p.name? k.text = some name) : Fault p ls l (p.again l.text)

theorem Fault.mono {ks : List Line} (hm : ∀ k ∈ ks, k.number < l.number → k ∈ ls) (h : p.Fault ks l q) :
    p.Fault ls l q := by
  cases h with
  | unreadable h => exact .unreadable h
  | again hk hlt h h' => exact .again (hm _ hk hlt) hlt h h'

section Order

variable {before behind : List Line} (hs : (before ++ l :: behind).Pairwise (·.number < ·.number))
include hs

/-- Behind lines that a pass has entered, it refuses a line just for its faults. -/
theorem add_eq_error_iff_fault {u : SymbolTable} (hu : p.run first before .empty = .ok u) :
    p.add u (first + before.length) l.text = .error q ↔ p.Fault (before ++ l :: behind) l q := by
  obtain ⟨-, he⟩ := run_eq_ok_iff.mp hu
  have lower : ∀ e ∈ u.entries, e.address < (first + before.length : Nat) := fun e h => by
    have := (address_lt_of_mem_symbols (he ▸ h)).2
    rwa [List.length_map] at this
  rw [add_eq_error_iff lower, he]
  simp only [mem_names_symbols_iff]
  refine ⟨fun h => ?_, fun h => ?_⟩
  · rcases h with h | ⟨name, hn, ⟨line, hm, hn'⟩, rfl⟩
    · exact .unreadable h
    · obtain ⟨k, hk, rfl⟩ := List.mem_map.mp hm
      exact .again (List.mem_append_left _ hk) (Text.number_lt_of_mem_before hs hk) hn hn'
  · cases h with
    | unreadable h => exact Or.inl h
    | again hk hlt h h' =>
      have hm := List.mem_map_of_mem (f := Line.text) (Text.mem_before_of_number_lt hs hk hlt)
      exact Or.inr ⟨_, h, ⟨_, hm, h'⟩, rfl⟩

end Order

theorem exists_run_eq_ok_iff (hs : ls.Pairwise (·.number < ·.number)) :
    (∃ u, p.run first ls .empty = .ok u) ↔ ∀ l ∈ ls, ∀ q, ¬p.Fault ls l q := by
  refine ⟨fun h l hl q hq => ?_, fun h => ?_⟩
  · obtain ⟨u, hu⟩ := h
    obtain ⟨before, behind, rfl⟩ := List.append_of_mem hl
    rw [run_append] at hu
    obtain ⟨u', hu', hu⟩ := bind_eq_ok_iff.mp hu
    obtain ⟨_, hadd, -⟩ := run_cons_eq_ok_iff.mp hu
    rw [(add_eq_error_iff_fault hs hu').mpr hq] at hadd
    cases hadd
  · cases hr : p.run first ls .empty with
    | ok u => exact ⟨u, rfl⟩
    | error e =>
      obtain ⟨before, l, behind, u, rfl, hu, -, hadd⟩ := run_eq_error_iff.mp hr
      exact absurd ((add_eq_error_iff_fault hs hu).mp hadd) (h l (by simp) e.problem)

theorem run_eq_error_iff_firstOf (hs : ls.Pairwise (·.number < ·.number)) :
    p.run first ls .empty = .error e ↔ FirstOf (p.Fault ls) ls e := by
  rw [run_eq_error_iff, firstOf_iff hs]
  refine exists_congr fun before => exists_congr fun l => exists_congr fun behind => ?_
  -- Whether a line has a fault depends on the lines before it, so it may be told among those alone.
  constructor
  · rintro ⟨u, rfl, hu, hn, hadd⟩
    have clean := (exists_run_eq_ok_iff (List.pairwise_append.mp hs).1).mp ⟨u, hu⟩
    refine ⟨rfl, fun k hk q hq => clean k hk q (hq.mono fun j hj hlt => ?_), hn,
      (add_eq_error_iff_fault hs hu).mp hadd⟩
    exact Text.mem_before_of_number_lt hs hj (Nat.lt_trans hlt (Text.number_lt_of_mem_before hs hk))
  · rintro ⟨rfl, clean, hn, hf⟩
    obtain ⟨u, hu⟩ := (exists_run_eq_ok_iff (List.pairwise_append.mp hs).1).mpr fun k hk q hq =>
      clean k hk q (hq.mono fun j hj _ => List.mem_append_left _ hj)
    exact ⟨u, rfl, hu, hn, (add_eq_error_iff_fault hs hu).mpr hf⟩

end SymbolPass

/-! ### Instructions -/

theorem mapM_encoded_eq_error_iff {labels vars : SymbolTable} {fault : Text → Problem → Prop}
    (hs : ls.Pairwise (·.number < ·.number))
    (hf : ∀ l ∈ ls, ∀ q, encoded labels vars l.text = .error q ↔ fault l.text q) :
    ls.mapM (fun l => onLine l (encoded labels vars l.text)) = .error e ↔ FirstOf (fun l q => fault l.text q) ls e := by
  rw [mapM_eq_error_iff, firstOf_iff hs]
  refine exists_congr fun before => exists_congr fun l => exists_congr fun behind => and_congr_right ?_
  rintro rfl
  rw [onLine_eq_error_iff, hf l (List.mem_append_right _ List.mem_cons_self)]
  refine and_congr_left fun _ => forall₂_congr fun k hk => ?_
  have read := hf k (List.mem_append_left _ hk)
  simp only [onLine, mapError_eq_ok_iff, ← read]
  cases encoded labels vars k.text <;> simp

/-! ### Lines of a source -/

theorem pairwise_instructionLines : (instructionLines source).Pairwise (·.number < ·.number) :=
  (Text.pairwise_number_lines source).filter _

theorem pairwise_definitions : (definitions source).Pairwise (·.number < ·.number) :=
  (Text.pairwise_number_lines source).filter _

theorem mem_instructionLines_iff : l ∈ instructionLines source ↔ InstructionAt source l.number l.text := by
  rw [instructionLines, List.mem_filter, Text.mem_lines_iff]
  simp [InstructionAt, isDefinition]

theorem mem_definitions_iff : l ∈ definitions source ↔ DefinitionAt source l.number l.text := by
  rw [definitions, List.mem_filter, Text.mem_lines_iff]
  rfl

/-! ### The first pass with a fault -/

theorem faulty_labels_iff {n : Nat} : Faulty source .labels n q ↔
    ∃ l ∈ instructionLines source, l.number = n ∧ labelPass.Fault (instructionLines source) l q := by
  refine ⟨fun h => ?_, fun h => ?_⟩
  · cases h with
    | @malformed _ line hl hat h =>
      refine ⟨⟨n, line⟩, mem_instructionLines_iff.mpr hl, rfl, .unreadable ?_⟩
      exact labelPass_introduced_eq_error_iff.mpr ⟨hat, h, rfl⟩
    | @labelAgain _ k line line' name hl hk hlt h h' =>
      refine ⟨⟨n, line⟩, mem_instructionLines_iff.mpr hl, rfl, ?_⟩
      exact .again (k := ⟨k, line'⟩) (mem_instructionLines_iff.mpr hk) hlt
        (labelPass_name?_eq_some_iff.mpr h) (labelPass_name?_eq_some_iff.mpr h')
  · obtain ⟨l, hl, rfl, h⟩ := h
    have hl := mem_instructionLines_iff.mp hl
    cases h with
    | unreadable h =>
      obtain ⟨hat, hno, rfl⟩ := labelPass_introduced_eq_error_iff.mp h
      exact .malformed hl hat hno
    | again hk hlt h h' =>
      exact .labelAgain hl (mem_instructionLines_iff.mp hk) hlt (labelPass_name?_eq_some_iff.mp h)
        (labelPass_name?_eq_some_iff.mp h')

theorem faulty_vars_iff {n : Nat} : Faulty source .vars n q ↔
    ∃ l ∈ definitions source, l.number = n ∧ variablePass.Fault (definitions source) l q := by
  refine ⟨fun h => ?_, fun h => ?_⟩
  · cases h with
    | @definition _ line hl h =>
      refine ⟨⟨n, line⟩, mem_definitions_iff.mpr hl, rfl, .unreadable ?_⟩
      exact variablePass_introduced_eq_error_iff.mpr (Or.inl ⟨h, rfl⟩)
    | @variableName _ line name hl hw h =>
      refine ⟨⟨n, line⟩, mem_definitions_iff.mpr hl, rfl, .unreadable ?_⟩
      exact variablePass_introduced_eq_error_iff.mpr (Or.inr ⟨name, hw, h, rfl⟩)
    | @variableAgain _ k line line' name hl hk hlt h h' =>
      refine ⟨⟨n, line⟩, mem_definitions_iff.mpr hl, rfl, ?_⟩
      exact .again (k := ⟨k, line'⟩) (mem_definitions_iff.mpr hk) hlt
        (variablePass_name?_eq_some_iff.mpr h) (variablePass_name?_eq_some_iff.mpr h')
  · obtain ⟨l, hl, rfl, h⟩ := h
    have hl := mem_definitions_iff.mp hl
    cases h with
    | unreadable h =>
      rcases variablePass_introduced_eq_error_iff.mp h with ⟨hno, rfl⟩ | ⟨name, hw, hn, rfl⟩
      · exact .definition hl hno
      · exact .variableName hl hw hn
    | again hk hlt h h' =>
      exact .variableAgain hl (mem_definitions_iff.mp hk) hlt (variablePass_name?_eq_some_iff.mp h)
        (variablePass_name?_eq_some_iff.mp h')

theorem faulty_instructions_iff {n : Nat} : Faulty source .instructions n q ↔
    ∃ l ∈ instructionLines source, l.number = n ∧
      InstructionFault (code source) (declarations source) l.text q := by
  refine ⟨fun h => ?_, fun h => ?_⟩
  · cases h with
    | @instruction _ line _ hl h => exact ⟨⟨n, line⟩, mem_instructionLines_iff.mpr hl, rfl, h⟩
  · obtain ⟨l, hl, rfl, h⟩ := h
    exact .instruction (mem_instructionLines_iff.mp hl) h

section Pass

variable {fault : Line → Problem → Prop}
  (hp : ∀ {n q}, Faulty source pass n q ↔ ∃ l ∈ ls, l.number = n ∧ fault l q)
include hp

theorem clean_iff : Clean source pass ↔ ∀ l ∈ ls, ∀ q, ¬fault l q := by
  refine ⟨fun h l hl q hq => h l.number q (hp.mpr ⟨l, hl, rfl, hq⟩), fun h n q hq => ?_⟩
  obtain ⟨l, hl, -, hf⟩ := hp.mp hq
  exact h l hl q hf

theorem firstIn_iff_firstOf : FirstIn source pass e ↔ FirstOf fault ls e := by
  refine and_congr hp ⟨fun h k hk q hq => h k.number q (hp.mpr ⟨k, hk, rfl, hq⟩), fun h n q hq => ?_⟩
  obtain ⟨k, hk, rfl, hf⟩ := hp.mp hq
  exact h k hk q hf

end Pass

theorem labelTable_eq_error_iff : labelTable (instructionLines source) = .error e ↔ FirstIn source .labels e := by
  rw [labelTable_eq, SymbolPass.run_eq_error_iff_firstOf pairwise_instructionLines,
    firstIn_iff_firstOf faulty_labels_iff]

theorem exists_labelTable_eq_ok_iff :
    (∃ labels, labelTable (instructionLines source) = .ok labels) ↔ Clean source .labels := by
  simp only [labelTable_eq, SymbolPass.exists_run_eq_ok_iff pairwise_instructionLines, clean_iff faulty_labels_iff]

theorem variableTable_eq_error_iff {first : Nat} :
    variableTable first (definitions source) = .error e ↔ FirstIn source .vars e := by
  rw [variableTable_eq, SymbolPass.run_eq_error_iff_firstOf pairwise_definitions,
    firstIn_iff_firstOf faulty_vars_iff]

theorem exists_variableTable_eq_ok_iff {first : Nat} :
    (∃ vars, variableTable first (definitions source) = .ok vars) ↔ Clean source .vars := by
  simp only [variableTable_eq, SymbolPass.exists_run_eq_ok_iff pairwise_definitions, clean_iff faulty_vars_iff]

theorem mapM_encoded_eq_error_iff_firstIn {labels vars : SymbolTable}
    (hl : labelTable (instructionLines source) = .ok labels)
    (hv : variableTable (instructionLines source).length (definitions source) = .ok vars) :
    (instructionLines source).mapM (fun l => onLine l (encoded labels vars l.text)) = .error e ↔
      FirstIn source .instructions e := by
  rw [labelTable_eq, SymbolPass.run_eq_ok_iff, map_text_instructionLines] at hl
  rw [variableTable_eq, SymbolPass.run_eq_ok_iff, map_text_definitions, length_instructionLines] at hv
  rw [firstIn_iff_firstOf faulty_instructions_iff]
  refine mapM_encoded_eq_error_iff pairwise_instructionLines fun l hm q => ?_
  refine encoded_eq_error_iff_fault hl.2 hv.2 (hl.1 l.text ?_)
  exact map_text_instructionLines ▸ List.mem_map_of_mem hm

/-- The error of a source that cannot be assembled is its first fault. -/
theorem ofSource_eq_error_iff : ofSource source = .error e ↔ FirstFault source e := by
  have outcome : ofSource source = .error e ↔ labelTable (instructionLines source) = .error e ∨
      ∃ labels, labelTable (instructionLines source) = .ok labels ∧
        (variableTable (instructionLines source).length (definitions source) = .error e ∨
          ∃ vars, variableTable (instructionLines source).length (definitions source) = .ok vars ∧
            (instructionLines source).mapM (fun l => onLine l (encoded labels vars l.text)) = .error e) := by
    unfold ofSource
    simp only [bind_eq_error_iff]
    simp [pure, Except.pure]
  rw [outcome, firstFault_iff, labelTable_eq_error_iff, variableTable_eq_error_iff]
  refine ⟨fun h => ?_, fun h => ?_⟩
  · rcases h with h | ⟨labels, hl, h | ⟨vars, hv, h⟩⟩
    · exact ⟨.labels, h, fun _ hlt => absurd hlt (Nat.not_lt_zero _)⟩
    · refine ⟨.vars, h, fun pass hlt => ?_⟩
      cases pass with
      | labels => exact exists_labelTable_eq_ok_iff.mp ⟨labels, hl⟩
      | vars => exact absurd hlt (Nat.lt_irrefl _)
      | instructions => exact absurd hlt (by decide)
    · refine ⟨.instructions, (mapM_encoded_eq_error_iff_firstIn hl hv).mp h, fun pass hlt => ?_⟩
      cases pass with
      | labels => exact exists_labelTable_eq_ok_iff.mp ⟨labels, hl⟩
      | vars => exact exists_variableTable_eq_ok_iff.mp ⟨vars, hv⟩
      | instructions => exact absurd hlt (Nat.lt_irrefl _)
  · obtain ⟨pass, h, clean⟩ := h
    cases pass with
    | labels => exact Or.inl h
    | vars =>
      obtain ⟨labels, hl⟩ := exists_labelTable_eq_ok_iff.mpr (clean .labels (by decide))
      exact Or.inr ⟨labels, hl, Or.inl h⟩
    | instructions =>
      obtain ⟨labels, hl⟩ := exists_labelTable_eq_ok_iff.mpr (clean .labels (by decide))
      obtain ⟨vars, hv⟩ := exists_variableTable_eq_ok_iff.mpr (clean .vars (by decide))
      exact Or.inr ⟨labels, hl, Or.inr ⟨vars, hv, (mapM_encoded_eq_error_iff_firstIn hl hv).mpr h⟩⟩

end StoredProgram.Assembly
