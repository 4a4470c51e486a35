import StoredProgram.Assembly.Label
import StoredProgram.Proofs.Text.Words

/-! # Labelled lines

A line is labelled if it is `@`, a name, a colon, a gap and a body (`Labelled`). Taking the label off a line
finds this form where there is one, and leaves a line alone that does not start with `@`. -/

namespace StoredProgram

/-- The name of a label is not empty and has no colon, space or tab. -/
def IsLabelName (name : Text) : Prop := name ≠ [] ∧ ∀ c ∈ name, c ≠ ':' ∧ c ≠ ' ' ∧ c ≠ '\t'

/-- A gap is at least one space or tab. -/
def IsGap (gap : Text) : Prop := gap ≠ [] ∧ ∀ c ∈ gap, c = ' ' ∨ c = '\t'

/-- A line with a label: `@`, the name, a colon, a gap, and the body from its first character on. -/
def Labelled (line name body : Text) : Prop :=
  IsLabelName name ∧ (∀ c ∈ body.head?, c ≠ ' ' ∧ c ≠ '\t') ∧
    ∃ gap, IsGap gap ∧ line = '@' :: name ++ ':' :: gap ++ body

theorem Labelled.head?_eq {line name body : Text} (h : Labelled line name body) : line.head? = some '@' := by
  obtain ⟨-, -, gap, -, rfl⟩ := h
  rfl

namespace Labelling

theorem isGap_iff {c : Char} : isGap c = true ↔ c = ' ' ∨ c = '\t' := by
  simp [isGap]

theorem isSpace_of_isGap {c : Char} (h : isGap c = true) : Text.isSpace c = true := by
  rcases isGap_iff.mp h with rfl | rfl <;> rfl

theorem inName_iff {c : Char} : inName c = true ↔ c ≠ ':' ∧ c ≠ ' ' ∧ c ≠ '\t' := by
  simp [inName, isGap]

theorem isLabelName_iff {name : Text} : IsLabelName name ↔ name ≠ [] ∧ ∀ c ∈ name, inName c = true := by
  simp only [IsLabelName, inName_iff]

instance (name : Text) : Decidable (IsLabelName name) :=
  decidable_of_iff (name ≠ [] ∧ name.all inName = true) (by rw [isLabelName_iff, List.all_eq_true])

instance (gap : Text) : Decidable (IsGap gap) :=
  decidable_of_iff (gap ≠ [] ∧ gap.all isGap = true) (by simp only [IsGap, List.all_eq_true, isGap_iff])

/-! ### Taking the label off -/

theorem ofText_of_head?_ne {line : Text} (h : line.head? ≠ some '@') : ofText line = .plain line := by
  cases line with
  | nil => rfl
  | cons c t =>
    unfold ofText
    split
    · rename_i he
      cases he
      exact absurd rfl h
    · rfl

theorem takeWhile_inName {name : Text} (h : ∀ c ∈ name, inName c = true) (rest : Text) :
    (name ++ ':' :: rest).takeWhile inName = name := by
  rw [List.takeWhile_append_of_pos h, List.takeWhile_cons_of_neg (by decide), List.append_nil]

theorem dropWhile_inName {name : Text} (h : ∀ c ∈ name, inName c = true) (rest : Text) :
    (name ++ ':' :: rest).dropWhile inName = ':' :: rest := by
  rw [List.dropWhile_append_of_pos h, List.dropWhile_cons_of_neg (by decide)]

theorem ofText_at {t name rest : Text} {c : Char} (take : t.takeWhile inName = name)
    (drop : t.dropWhile inName = ':' :: c :: rest) :
    ofText ('@' :: t) =
      if !name.isEmpty && isGap c then .labelled name (rest.dropWhile isGap) else .malformed := by
  unfold ofText
  simp only [take, drop]

theorem ofText_of_labelled {line name body : Text} (h : Labelled line name body) :
    ofText line = .labelled name body := by
  obtain ⟨hname, hbody, gap, ⟨hgap, hgaps⟩, rfl⟩ := h
  obtain ⟨hne, hin⟩ := isLabelName_iff.mp hname
  obtain ⟨c, gap, rfl⟩ := List.exists_cons_of_ne_nil hgap
  have take : (name ++ ':' :: c :: gap ++ body).takeWhile inName = name := by
    rw [List.append_assoc]
    exact takeWhile_inName hin _
  have drop : (name ++ ':' :: c :: gap ++ body).dropWhile inName = ':' :: c :: (gap ++ body) := by
    rw [List.append_assoc]
    exact dropWhile_inName hin _
  have first : isGap c = true := isGap_iff.mpr (hgaps c List.mem_cons_self)
  have rest : (gap ++ body).dropWhile isGap = body := by
    rw [List.dropWhile_append_of_pos fun d hd => isGap_iff.mpr (hgaps d (List.mem_cons_of_mem _ hd))]
    refine Text.dropWhile_eq_self fun d hd => Bool.eq_false_iff.mpr fun hg => ?_
    exact (isGap_iff.mp hg).elim (hbody d hd).1 (hbody d hd).2
  refine (ofText_at take drop).trans ?_
  simp [hne, first, rest]

/-- A line that starts with `@` is labelled or malformed. -/
theorem labelled_of_ofText {line name body : Text} (h : ofText line = .labelled name body) :
    Labelled line name body := by
  unfold ofText at h
  split at h
  · rename_i t
    split at h
    · rename_i c rest hdrop
      split at h
      · rename_i hc
        cases h
        have hc : t.takeWhile inName ≠ [] ∧ isGap c = true := by simpa using hc
        have ht : t = t.takeWhile inName ++ ':' :: c :: rest := by
          rw [← hdrop, List.takeWhile_append_dropWhile]
        refine ⟨isLabelName_iff.mpr ⟨hc.1, List.all_eq_true.mp List.all_takeWhile⟩, fun d hd => ?_,
          c :: rest.takeWhile isGap, ⟨List.cons_ne_nil _ _, fun d hd => ?_⟩, ?_⟩
        · have hd := Text.head?_dropWhile_eq_false isGap rest d hd
          exact not_or.mp fun hg => Bool.eq_false_iff.mp hd (isGap_iff.mpr hg)
        · rcases List.mem_cons.mp hd with rfl | hd
          · exact isGap_iff.mp hc.2
          · exact isGap_iff.mp (List.all_eq_true.mp List.all_takeWhile d hd)
        · conv => lhs; rw [ht, ← List.takeWhile_append_dropWhile (p := isGap) (l := rest)]
          simp
      · cases h
    · cases h
  · cases h

theorem ofText_eq_labelled_iff {line name body : Text} :
    ofText line = .labelled name body ↔ Labelled line name body :=
  ⟨labelled_of_ofText, ofText_of_labelled⟩

theorem ofText_eq_plain_iff {line body : Text} :
    ofText line = .plain body ↔ line.head? ≠ some '@' ∧ body = line := by
  refine ⟨fun h => ?_, fun ⟨h, hb⟩ => hb.symm ▸ ofText_of_head?_ne h⟩
  by_cases hat : line.head? = some '@'
  · obtain ⟨t, rfl⟩ := List.head?_eq_some_iff.mp hat
    unfold ofText at h
    split at h
    · split at h
      · split at h <;> cases h
      · cases h
    · rename_i hno
      exact absurd rfl (hno t)
  · rw [ofText_of_head?_ne hat] at h
    cases h
    exact ⟨hat, rfl⟩

end Labelling
end StoredProgram
