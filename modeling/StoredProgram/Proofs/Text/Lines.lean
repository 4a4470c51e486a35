import Mathlib.Data.List.Range
import StoredProgram.Proofs.Text.Words
import StoredProgram.Text.Line

/-! # The texts of lines

What a line says does not depend on its number. The texts of the lines of a text are its trimmed pieces
between line feeds, less the blank ones (`map_text_lines`), so they come one after the other where two
texts are joined by a line feed, and text written line by line is read back (`lineTexts_unlines`). The
numbers go up, so the first line of a kind is the one with the least number (`forall_mem_before_iff`). -/

namespace StoredProgram.Text

/-- The texts of the lines that are not blank. -/
def lineTexts (t : Text) : List Text := ((t.splitOn '\n').map trim).filter (!·.isEmpty)

/-- What a line of a text can be: trimmed, not blank, and without a line feed. -/
structure IsLine (l : Text) : Prop where
  trimmed : IsTrimmed l
  nonempty : l ≠ []
  single : '\n' ∉ l

theorem IsToken.isLine {w : Text} (h : IsToken w) : IsLine w :=
  ⟨h.isTrimmed, h.1, fun hn => absurd (h.2 _ hn) (by decide)⟩

/-- What starts and ends like a line, on one line, is a line. -/
theorem IsLine.join {s t gap : Text} (hs : IsLine s) (ht : IsLine t) (hg : '\n' ∉ gap) :
    IsLine (s ++ gap ++ t) where
  trimmed := hs.trimmed.join ht.trimmed hs.nonempty ht.nonempty gap
  nonempty := List.append_ne_nil_of_right_ne_nil _ ht.nonempty
  single h := by
    rcases List.mem_append.mp h with h | h
    · exact (List.mem_append.mp h).elim hs.single hg
    · exact ht.single h

theorem map_text_filterMap (ps : List (Text × Nat)) :
    (ps.filterMap fun (t, n) => if t.isEmpty then none else some (Line.mk n t)).map Line.text =
      (ps.map Prod.fst).filter (!·.isEmpty) := by
  induction ps with
  | nil => rfl
  | cons p ps ih =>
    obtain ⟨t, n⟩ := p
    cases ht : t.isEmpty <;>
      simp only [List.filterMap_cons, List.map_cons, List.filter_cons, ht, Bool.false_eq_true, ↓reduceIte,
        Bool.not_true, Bool.not_false, ih]

theorem map_text_lines (t : Text) : t.lines.map Line.text = lineTexts t := by
  unfold lines lineTexts
  rw [map_text_filterMap, List.zipIdx_map_fst]

theorem isLine_of_mem_lineTexts {t l : Text} (h : l ∈ lineTexts t) : IsLine l := by
  obtain ⟨hl, hne⟩ := List.mem_filter.mp h
  obtain ⟨piece, hp, rfl⟩ := List.mem_map.mp hl
  refine ⟨isTrimmed_trim piece, by simpa using hne, fun hn => ?_⟩
  rw [List.splitOn_eq_splitOnP] at hp
  exact absurd (mem_of_mem_splitOnP hp _ (mem_of_mem_trim hn)).2 (by simp)

/-! ### Joining -/

theorem lineTexts_append_newline (s t : Text) : lineTexts (s ++ '\n' :: t) = lineTexts s ++ lineTexts t := by
  unfold lineTexts
  rw [List.splitOn_eq_splitOnP, List.splitOnP_append_cons s t (by simp), List.map_append, List.filter_append]
  rfl

theorem lineTexts_of_not_mem {row : Text} (hn : '\n' ∉ row) : lineTexts row = [trim row].filter (!·.isEmpty) := by
  have whole : row.splitOn '\n' = [row] := by
    rw [List.splitOn_eq_splitOnP]
    refine List.splitOnP_eq_singleton fun c hc => ?_
    rw [beq_eq_false_iff_ne]
    exact fun he => hn (he ▸ hc)
  rw [lineTexts, whole]
  rfl

theorem lineTexts_of_trim_ne_nil {row : Text} (hn : '\n' ∉ row) (h : trim row ≠ []) : lineTexts row = [trim row] := by
  rw [lineTexts_of_not_mem hn]
  simp [h]

theorem lineTexts_of_isLine {l : Text} (h : IsLine l) : lineTexts l = [l] := by
  have whole := trim_eq_self h.trimmed
  exact (lineTexts_of_trim_ne_nil h.single (by rw [whole]; exact h.nonempty)).trans (congrArg ([·]) whole)

/-- Reading line by line undoes writing line by line. -/
theorem lineTexts_unlines {ls : List Text} (h : ∀ l ∈ ls, IsLine l) : lineTexts (unlines ls) = ls := by
  induction ls with
  | nil => rfl
  | cons l ls ih =>
    have split : unlines (l :: ls) = l ++ '\n' :: unlines ls := by simp [unlines]
    rw [split, lineTexts_append_newline, lineTexts_of_isLine (h l List.mem_cons_self),
      ih fun k hk => h k (List.mem_cons_of_mem _ hk), List.singleton_append]

/-- A text is a row without a line feed, or such a row, a line feed, and a text behind it. -/
theorem row_induction {motive : Text → Prop} (last : ∀ row, '\n' ∉ row → motive row)
    (row : ∀ row t, '\n' ∉ row → motive t → motive (row ++ '\n' :: t)) (t : Text) : motive t := by
  induction h : t.length using Nat.strong_induction_on generalizing t with
  | _ n ih =>
    by_cases hn : '\n' ∈ t
    · obtain ⟨first, rest, rfl, hfirst⟩ := List.eq_append_cons_of_mem hn
      refine row first rest hfirst (ih _ ?_ rest rfl)
      rw [← h, List.length_append, List.length_cons]
      omega
    · exact last t hn

/-! ### Numbers of lines -/

/-- A line of a text has a number, counted from one over all pieces between line feeds, and the trimmed text of a
    piece that is not blank. -/
def LineAt (t : Text) (number : Nat) (line : Text) : Prop :=
  ∃ (index : Nat) (piece : Text), (t.splitOn '\n')[index]? = some piece ∧ number = index + 1 ∧ line = trim piece ∧
    line ≠ []

theorem mem_lines_iff {t : Text} {l : Line} : l ∈ t.lines ↔ LineAt t l.number l.text := by
  unfold lines LineAt
  rw [List.mem_filterMap]
  refine ⟨fun h => ?_, fun h => ?_⟩
  · obtain ⟨⟨line, n⟩, hm, h⟩ := h
    obtain ⟨hn, hg⟩ := List.mk_mem_zipIdx_iff_le_and_getElem?_sub.mp hm
    rw [List.getElem?_map, Option.map_eq_some_iff] at hg
    obtain ⟨piece, hp, rfl⟩ := hg
    obtain ⟨hne, h⟩ := Option.ite_none_left_eq_some.mp h
    cases h
    exact ⟨n - 1, piece, hp, (Nat.sub_add_cancel hn).symm, rfl, by simpa using hne⟩
  · obtain ⟨index, piece, hp, hn, hl, hne⟩ := h
    refine ⟨(l.text, l.number), List.mk_mem_zipIdx_iff_le_and_getElem?_sub.mpr ⟨by omega, ?_⟩, ?_⟩
    · rw [hn, Nat.add_sub_cancel, List.getElem?_map, hp, hl]
      rfl
    · simp [hne]

theorem pairwise_number_lines (t : Text) : t.lines.Pairwise (·.number < ·.number) := by
  have numbered : (((t.splitOn '\n').map trim).zipIdx 1).Pairwise (·.2 < ·.2) := by
    rw [← List.pairwise_map, List.zipIdx_map_snd]
    exact List.pairwise_lt_range'
  refine List.pairwise_filterMap.mpr (numbered.imp fun hlt l hl k hk => ?_)
  obtain ⟨-, hl⟩ := Option.ite_none_left_eq_some.mp hl
  obtain ⟨-, hk⟩ := Option.ite_none_left_eq_some.mp hk
  cases hl
  cases hk
  exact hlt

section Order

variable {l k : Line} {before behind : List Line} (hs : (before ++ l :: behind).Pairwise (·.number < ·.number))
include hs

theorem number_lt_of_mem_before (hk : k ∈ before) : k.number < l.number :=
  (List.pairwise_append.mp hs).2.2 k hk l List.mem_cons_self

theorem number_le_of_mem_behind (hk : k ∈ l :: behind) : l.number ≤ k.number := by
  rcases List.mem_cons.mp hk with rfl | hk
  · exact Nat.le_refl _
  · exact Nat.le_of_lt (List.rel_of_pairwise_cons (List.pairwise_append.mp hs).2.1 hk)

theorem mem_before_of_number_lt (hk : k ∈ before ++ l :: behind) (hlt : k.number < l.number) : k ∈ before := by
  rcases List.mem_append.mp hk with hk | hk
  · exact hk
  · exact absurd (number_le_of_mem_behind hs hk) (Nat.not_le.mpr hlt)

/-- No line before a line is of some kind just if the line has the least number of all. -/
theorem forall_mem_before_iff {p : Line → Prop} :
    (∀ k ∈ before, ¬p k) ↔ ∀ k ∈ before ++ l :: behind, p k → l.number ≤ k.number := by
  refine ⟨fun h k hk hp => Nat.not_lt.mp fun hlt => h k (mem_before_of_number_lt hs hk hlt) hp, fun h k hk hp => ?_⟩
  exact Nat.not_le.mpr (number_lt_of_mem_before hs hk) (h k (List.mem_append_left _ hk) hp)

end Order

end StoredProgram.Text
