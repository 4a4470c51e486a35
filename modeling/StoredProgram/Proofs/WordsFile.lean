import StoredProgram.Proofs.Except
import StoredProgram.Proofs.Text.Lines
import StoredProgram.WordsFile

/-! # Words read and written

A file of words is read if each of its lines denotes a word (`read_eq_ok_iff`). Words are written without white space,
each on a line, so reading finds them again (`read_write`). -/

namespace StoredProgram

theorem Text.isToken_ofInt (n : Int) : IsToken (ofInt n) := by
  cases n with
  | ofNat n => exact isToken_ofNat n
  | negSucc n =>
    refine ⟨List.cons_ne_nil _ _, ?_⟩
    intro c hc
    rcases List.mem_cons.mp hc with rfl | hc
    · rfl
    · exact (isToken_ofNat (n + 1)).2 c hc

namespace WordsFile

variable {t : Text} {ws : List Word}

theorem read_eq_ok_iff :
    read t = .ok ws ↔ List.Forall₂ (fun line w => Text.word? line = some w) t.lineTexts ws := by
  unfold read
  rw [mapM_eq_ok_iff, ← Text.map_text_lines, List.forall₂_map_left_iff]
  constructor
  · intro h
    refine h.imp ?_
    intro l w hl
    split at hl
    · cases hl
      assumption
    · cases hl
  · intro h
    refine h.imp ?_
    intro l w hl
    rw [hl]

theorem lineTexts_write (ws : List Word) : (write ws).lineTexts = ws.map fun w => Text.ofInt w.toInt := by
  refine Text.lineTexts_unlines ?_
  intro l hl
  obtain ⟨w, -, rfl⟩ := List.mem_map.mp hl
  exact (Text.isToken_ofInt w.toInt).isLine

/-- Reading undoes writing. -/
theorem read_write (ws : List Word) : read (write ws) = .ok ws := by
  rw [read_eq_ok_iff, lineTexts_write, List.forall₂_map_left_iff, List.forall₂_same]
  exact fun w _ => Text.word?_ofInt w

end WordsFile
end StoredProgram
