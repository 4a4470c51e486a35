import StoredProgram.Proofs.Assembly.Agreement
import StoredProgram.Proofs.Assembly.Passes
import StoredProgram.Proofs.Text.Rows

/-! # The arrangement of a source

A source may be spread out by blank rows anywhere, and its definitions may stand anywhere among its instructions. Blank
rows change only the number of the line of an error, and the places of the definitions change nothing
(`ofSource_arranged`). -/

namespace StoredProgram.Assembly

/-- A row that is read as the definition of a variable. -/
def definesVariable (row : Text) : Bool := keyword.isPrefixOf row.trim

/-- Two sources with the same definitions in one order and with the same other rows in one order. -/
structure Rearranged (source source' : Text) : Prop where
  definitions : source.rows.filter definesVariable = source'.rows.filter definesVariable
  others : source.rows.filter (!definesVariable ·) = source'.rows.filter (!definesVariable ·)

variable {source source' : Text} {a : Assembly}

/-! ### Blank rows -/

theorem ofSource_spread (s : Text.Spread) (ht : source.rows = s.original) (hu : source'.rows = s.result) :
    ofSource source' = (ofSource source).mapError fun e => ⟨e.line + s.shift e.line, e.problem⟩ := by
  have lines : List.Forall₂ (SameLine (fun n n' => n' = n + s.shift n) Eq) source.lines source'.lines := by
    refine (s.lines ht hu).imp fun l l' h => ⟨h.1, ?_⟩
    rw [h.2]
    exact .refl _
  have same := agree_ofLines lines
  rw [← ofSource_eq_ofLines, ← ofSource_eq_ofLines] at same
  generalize ofSource source = r, ofSource source' = r' at same ⊢
  cases same with
  | ok h => exact congrArg Except.ok h.symm
  | @error e e' h =>
    obtain ⟨number, problem⟩ := e'
    obtain ⟨rfl, rfl⟩ : number = e.line + s.shift e.line ∧ e.problem = problem := h
    rfl

/-! ### Places of definitions -/

theorem lineTexts_eq (source : Text) : source.lineTexts = (source.rows.map Text.trim).filter (!·.isEmpty) := by
  rw [← Text.map_text_lines, Text.lines_eq_numbered_rows, Text.map_text_numbered]

theorem code_eq (source : Text) :
    code source = ((source.rows.filter (!definesVariable ·)).map Text.trim).filter (!·.isEmpty) := by
  rw [code, lineTexts_eq, List.filter_comm, List.filter_map]
  rfl

theorem declarations_eq (source : Text) :
    declarations source = ((source.rows.filter definesVariable).map Text.trim).filter (!·.isEmpty) := by
  rw [declarations, lineTexts_eq, List.filter_comm, List.filter_map]
  rfl

theorem ofSource_rearranged (h : Rearranged source source') (ha : ofSource source = .ok a) :
    ofSource source' = .ok a := by
  rw [ofSource_eq_ok_iff, code_eq, declarations_eq, ← h.definitions, ← h.others, ← code_eq, ← declarations_eq,
    ← ofSource_eq_ok_iff]
  exact ha

/-- Blank rows leave the outcome of a source as it is, except that the line of an error moves down by the blank rows
    before it; and definitions may stand anywhere, as long as they keep their order. -/
theorem ofSource_arranged :
    (∀ (s : Text.Spread) (source source' : Text), source.rows = s.original → source'.rows = s.result →
      ofSource source' = (ofSource source).mapError fun e => ⟨e.line + s.shift e.line, e.problem⟩) ∧
    ∀ (source source' : Text) (a : Assembly), Rearranged source source' → ofSource source = .ok a →
      ofSource source' = .ok a :=
  ⟨fun s _ _ => ofSource_spread s, fun _ _ _ => ofSource_rearranged⟩

theorem ofSource_arranged_jump :
    ofSource "\n \t\r\nHLT\n\n$define x\nJMP @x\n\n".toList = .error ⟨6, .label "x".toList⟩ ∧
    ∃ a, ofSource "LDA Rx\n$define x\r\nHLT\n$define y".toList = .ok a ∧ a.words = [327682, 0] := by
  let s : Text.Spread :=
    ⟨[([[], [' ', '\t']], "HLT".toList), ([[]], "$define x".toList), ([], "JMP @x".toList)], [[]], by decide, by decide⟩
  have moved := ofSource_arranged.1 s "HLT\n$define x\nJMP @x".toList "\n \t\r\nHLT\n\n$define x\nJMP @x\n\n".toList
    (by decide +kernel) (by decide +kernel)
  have h : ofSource "$define x\n$define y\nLDA Rx\nHLT".toList = .ok ⟨[⟨.load, .direct, 2⟩, .halt], [327682, 0], .empty,
      ⟨[⟨"x".toList, 2⟩, ⟨"y".toList, 3⟩], by simp, by simp⟩⟩ := by rfl
  have placed := ofSource_arranged.2 _ "LDA Rx\n$define x\r\nHLT\n$define y".toList _
    ⟨by decide +kernel, by decide +kernel⟩ h
  exact ⟨moved, _, placed, rfl⟩

end StoredProgram.Assembly
