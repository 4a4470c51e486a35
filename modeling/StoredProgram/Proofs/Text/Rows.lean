import Mathlib.Data.List.DropRight
import StoredProgram.Proofs.Text.Blank
import StoredProgram.Proofs.Text.Lines

/-! # Lines as they are written

A text is written in rows, which end in a line feed or in a carriage return and a line feed. Reading it line by line
trims the rows and leaves out the blank ones (`lines_eq_numbered_rows`). So blank rows that are put between the others
move the lines behind them down and do nothing else (`Spread.lines`), and a text behind other rows is moved down as a
whole (`numbered_add`). -/

namespace StoredProgram

/-- A line that stands further down. -/
def Line.lowered (k : Nat) (l : Line) : Line := ⟨l.number + k, l.text⟩

namespace Text

/-! ### Line feeds -/

theorem splitOn_append_newline (s t : Text) : (s ++ '\n' :: t).splitOn '\n' = s.splitOn '\n' ++ t.splitOn '\n' := by
  rw [List.splitOn_eq_splitOnP, List.splitOnP_append_cons s t (by simp)]
  rfl

theorem splitOn_append_of_not_mem {row : Text} (h : '\n' ∉ row) (t : Text) :
    (row ++ t).splitOn '\n' = (t.splitOn '\n').modifyHead (row ++ ·) := by
  rw [List.splitOn_eq_splitOnP, List.splitOn_eq_splitOnP]
  induction row with
  | nil => exact List.modifyHead_id.symm ▸ rfl
  | cons c row ih =>
    have other : (c == '\n') = false := by
      rw [beq_eq_false_iff_ne]
      exact fun hc => h (hc ▸ List.mem_cons_self)
    rw [List.cons_append, List.splitOnP_cons_eq_if_modifyHead, other, ih fun hc => h (List.mem_cons_of_mem _ hc),
      if_neg Bool.false_ne_true, List.modifyHead_modifyHead]
    rfl

/-- Rows that end in line feeds are split off. -/
theorem splitOn_unlines_append {rs : List Text} (h : ∀ row ∈ rs, '\n' ∉ row) (t : Text) :
    (unlines rs ++ t).splitOn '\n' = rs ++ t.splitOn '\n' := by
  induction rs with
  | nil => rfl
  | cons row rs ih =>
    obtain ⟨hrow, hrs⟩ := List.forall_mem_cons.mp h
    have first : unlines (row :: rs) ++ t = row ++ ([] ++ '\n' :: (unlines rs ++ t)) := by simp [unlines]
    have ended : ([] : Text).splitOn '\n' = [[]] := rfl
    rw [first, splitOn_append_of_not_mem hrow, splitOn_append_newline, ih hrs, ended, List.singleton_append,
      List.modifyHead_cons, List.append_nil, List.cons_append]

/-! ### Numbered lines -/

/-- The lines that rows are read as, the first row having the given number. -/
def numbered (first : Nat) (rs : List Text) : List Line :=
  ((rs.map trim).zipIdx first).filterMap fun (text, number) => if text.isEmpty then none else some ⟨number, text⟩

variable {first : Nat} {row t : Text} {rs : List Text}

theorem lines_eq_numbered (t : Text) : t.lines = numbered 1 (t.splitOn '\n') := rfl

theorem numbered_append (rs rs' : List Text) :
    numbered first (rs ++ rs') = numbered first rs ++ numbered (first + rs.length) rs' := by
  unfold numbered
  rw [List.map_append, List.zipIdx_append, List.filterMap_append, List.length_map]

theorem numbered_cons (row : Text) (rs : List Text) :
    numbered first (row :: rs) = numbered first [row] ++ numbered (first + 1) rs :=
  numbered_append [row] rs

theorem numbered_singleton (h : trim row ≠ []) : numbered first [row] = [⟨first, trim row⟩] := by
  simp [numbered, h]

theorem numbered_eq_nil (h : trim row = []) : numbered first [row] = [] := by
  simp [numbered, h]

theorem numbered_of_isBlank (h : ∀ row ∈ rs, IsBlank row) : numbered first rs = [] := by
  induction rs generalizing first with
  | nil => rfl
  | cons row rs ih =>
    obtain ⟨hrow, hrs⟩ := List.forall_mem_cons.mp h
    rw [numbered_cons, ih hrs, numbered_eq_nil (trim_eq_nil_of_isBlank hrow)]
    rfl

theorem numbered_congr {rs' : List Text} (h : List.Forall₂ (fun row row' => trim row = trim row') rs rs') :
    numbered first rs = numbered first rs' := by
  have trimmed : rs.map trim = rs'.map trim := by
    rwa [← List.forall₂_eq_eq_eq, List.forall₂_map_left_iff, List.forall₂_map_right_iff]
  unfold numbered
  rw [trimmed]

theorem map_text_numbered (rs : List Text) :
    (numbered first rs).map Line.text = (rs.map trim).filter (!·.isEmpty) := by
  rw [numbered, map_text_filterMap, List.zipIdx_map_fst]

/-- Rows that start further down are read as the same lines, further down. -/
theorem numbered_add (k : Nat) (rs : List Text) :
    numbered (first + k) rs = (numbered first rs).map (Line.lowered k) := by
  induction rs generalizing first with
  | nil => rfl
  | cons row rs ih =>
    have next : first + k + 1 = first + 1 + k := by omega
    rw [numbered_cons row rs, numbered_cons row rs, List.map_append, next, ih]
    by_cases h : trim row = []
    · rw [numbered_eq_nil h, numbered_eq_nil h]
      rfl
    · rw [numbered_singleton h, numbered_singleton h]
      rfl

/-! ### Rows -/

/-- The rows of a text: what stands before each line feed, and behind the last one if anything is left, less the
    carriage returns at its end. -/
def rows (t : Text) : List Text :=
  let pieces := t.splitOn '\n'
  (if pieces.getLast? = some [] then pieces.dropLast else pieces).map (·.rdropWhile (· == '\r'))

theorem trim_rdropWhile (t : Text) : trim (t.rdropWhile (· == '\r')) = trim t := by
  have returns : IsBlank (t.rtakeWhile (· == '\r')) := fun c hc => by
    obtain rfl : c = '\r' := by simpa using List.mem_rtakeWhile_imp hc
    rfl
  have whole : t.rdropWhile (· == '\r') ++ t.rtakeWhile (· == '\r') = t := List.rdropWhile_append_rtakeWhile
  rw [← trim_append_isBlank returns, whole]

/-- The lines that are read from a text are its rows, numbered, trimmed, and without the blank ones. -/
theorem lines_eq_numbered_rows (t : Text) : t.lines = numbered 1 (rows t) := by
  have final : ∀ pieces : List Text, numbered 1 (if pieces.getLast? = some [] then pieces.dropLast else pieces) =
      numbered 1 pieces := fun pieces => by
    split
    · rename_i h
      obtain ⟨before, rfl⟩ := List.getLast?_eq_some_iff.mp h
      have blank : numbered (1 + before.length) [[]] = [] := rfl
      rw [List.dropLast_concat, numbered_append, blank, List.append_nil]
    · rfl
  have returns : numbered 1 (rows t) = numbered 1 _ := numbered_congr
    (List.forall₂_map_left_iff.mpr (List.forall₂_same.mpr fun row _ => trim_rdropWhile row))
  rw [returns, final, lines_eq_numbered]

/-! ### Blank rows between the others -/

/-- Rows, each behind the blank rows that are put before it, and the blank rows that are put behind all of them. -/
structure Spread where
  groups : List (List Text × Text)
  final : List Text
  blank : ∀ g ∈ groups, ∀ row ∈ g.1, IsBlank row
  blankFinal : ∀ row ∈ final, IsBlank row

namespace Spread

/-- The rows alone. -/
def original (s : Spread) : List Text := s.groups.map Prod.snd

/-- The rows with the blank ones between them. -/
def result (s : Spread) : List Text := s.groups.flatMap (fun g => g.1 ++ [g.2]) ++ s.final

/-- The number of blank rows that are put before the row of the given number, the first row having the number one. -/
def shift (s : Spread) (number : Nat) : Nat := ((s.groups.take number).flatMap Prod.fst).length

end Spread

theorem numbered_spread {ps : List (List Text × Text)} {final : List Text} (hb : ∀ g ∈ ps, ∀ row ∈ g.1, IsBlank row)
    (hf : ∀ row ∈ final, IsBlank row) (first k : Nat) :
    List.Forall₂ (fun l l' => first ≤ l.number ∧
        l'.number = l.number + k + ((ps.take (l.number + 1 - first)).flatMap Prod.fst).length ∧ l'.text = l.text)
      (numbered first (ps.map Prod.snd)) (numbered (first + k) (ps.flatMap (fun g => g.1 ++ [g.2]) ++ final)) := by
  induction ps generalizing first k with
  | nil =>
    rw [List.flatMap_nil, List.nil_append, numbered_of_isBlank hf]
    exact .nil
  | cons g ps ih =>
    obtain ⟨blanks, row⟩ := g
    obtain ⟨hblanks, hb⟩ := List.forall_mem_cons.mp hb
    -- The blank rows are read as nothing, and the row behind them is one of the rows moved down.
    have read : numbered (first + k) (((blanks, row) :: ps).flatMap (fun g => g.1 ++ [g.2]) ++ final) =
        numbered (first + k + blanks.length) [row] ++
          numbered (first + 1 + (k + blanks.length)) (ps.flatMap (fun g => g.1 ++ [g.2]) ++ final) := by
      have next : first + k + blanks.length + 1 = first + 1 + (k + blanks.length) := by omega
      rw [List.flatMap_cons, List.append_assoc, List.append_assoc, numbered_append, numbered_of_isBlank hblanks,
        List.nil_append, List.singleton_append, numbered_cons, next]
    rw [read, List.map_cons, numbered_cons]
    refine List.rel_append ?_ ((ih hb (first + 1) (k + blanks.length)).imp fun l l' h => ?_)
    · by_cases h : trim row = []
      · rw [numbered_eq_nil h, numbered_eq_nil h]
        exact .nil
      · rw [numbered_singleton h, numbered_singleton h]
        refine .cons ⟨Nat.le_refl _, ?_, rfl⟩ .nil
        simp
    · obtain ⟨hle, hn, ht⟩ := h
      refine ⟨by omega, ?_, ht⟩
      have behind : l.number + 1 - first = l.number - first + 1 := by omega
      rw [hn, behind, List.take_succ_cons, List.flatMap_cons, List.length_append, Nat.add_sub_add_right]
      show l.number + (k + blanks.length) + _ = l.number + k + (blanks.length + _)
      omega

/-- Blank rows between the rows of a text move its lines down, each by the number of blank rows before it. -/
theorem Spread.lines (s : Spread) {t u : Text} (ht : rows t = s.original) (hu : rows u = s.result) :
    List.Forall₂ (fun l l' => l'.number = l.number + s.shift l.number ∧ l'.text = l.text) t.lines u.lines := by
  rw [lines_eq_numbered_rows, lines_eq_numbered_rows, ht, hu]
  refine (numbered_spread s.blank s.blankFinal 1 0).imp fun l l' h => ?_
  obtain ⟨-, hn, htext⟩ := h
  exact ⟨by rwa [Nat.add_sub_cancel] at hn, htext⟩

end Text
end StoredProgram
