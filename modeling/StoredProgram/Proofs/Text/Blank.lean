import Mathlib.Data.List.TakeWhile
import StoredProgram.Proofs.Text.Words

/-! # White space at the ends of a text

White space before and behind a text is trimmed away (`trim_append_of_isBlank`, `trim_append_isBlank`), nothing else is
(`exists_eq_append_trim`), and it is of no account for the tokens of the text (`words_trim`). -/

namespace StoredProgram.Text

/-! ### Trimming -/

/-- A text that holds nothing but white space. -/
def IsBlank (t : Text) : Prop := ∀ c ∈ t, isSpace c = true

instance (t : Text) : Decidable (IsBlank t) := decidable_of_iff (t.all isSpace = true) List.all_eq_true

theorem trim_append_of_isBlank {w : Text} (h : IsBlank w) (t : Text) : trim (w ++ t) = trim t := by
  unfold trim
  rw [List.dropWhile_append_of_pos h]

theorem trim_eq_nil_of_isBlank {w : Text} (h : IsBlank w) : trim w = [] := by
  rw [← List.append_nil w, trim_append_of_isBlank h]
  rfl

theorem dropWhile_append_of_not_isBlank {t : Text} (h : ¬IsBlank t) (s : Text) :
    (t ++ s).dropWhile isSpace = t.dropWhile isSpace ++ s := by
  rw [List.dropWhile_append, if_neg]
  simpa [IsBlank] using h

theorem trim_append_isBlank {w : Text} (h : IsBlank w) (t : Text) : trim (t ++ w) = trim t := by
  have back : ∀ c ∈ w.reverse, isSpace c = true := fun c hc => h c (List.mem_reverse.mp hc)
  by_cases ht : IsBlank t
  · rw [trim_append_of_isBlank ht, trim_eq_nil_of_isBlank h, trim_eq_nil_of_isBlank ht]
  · unfold trim
    rw [dropWhile_append_of_not_isBlank ht, List.reverse_append, List.dropWhile_append_of_pos back]

/-- What trimming takes away is white space. -/
theorem exists_eq_append_trim (t : Text) :
    ∃ front back : Text, IsBlank front ∧ IsBlank back ∧ t = front ++ trim t ++ back := by
  refine ⟨t.takeWhile isSpace, ((t.dropWhile isSpace).reverse.takeWhile isSpace).reverse, fun c hc =>
    List.mem_takeWhile_imp hc, fun c hc => List.mem_takeWhile_imp (List.mem_reverse.mp hc), ?_⟩
  rw [trim, List.append_assoc, ← List.reverse_append, List.takeWhile_append_dropWhile, List.reverse_reverse,
    List.takeWhile_append_dropWhile]

theorem trim_eq_nil_iff {t : Text} : trim t = [] ↔ IsBlank t := by
  refine ⟨fun h => ?_, trim_eq_nil_of_isBlank⟩
  obtain ⟨front, back, hf, hb, ht⟩ := exists_eq_append_trim t
  rw [ht, h, List.append_nil]
  exact fun c hc => (List.mem_append.mp hc).elim (hf c) (hb c)

/-! ### Tokens -/

theorem words_append_of_isBlank {w : Text} (h : IsBlank w) (t : Text) : words (w ++ t) = words t := by
  induction w with
  | nil => rfl
  | cons c w ih =>
    obtain ⟨hc, hw⟩ := List.forall_mem_cons.mp h
    exact (words_append_cons hc [] (w ++ t)).trans (ih hw)

theorem words_append_isBlank {w : Text} (h : IsBlank w) (t : Text) : words (t ++ w) = words t := by
  cases w with
  | nil => rw [List.append_nil]
  | cons c w =>
    obtain ⟨hc, hw⟩ := List.forall_mem_cons.mp h
    rw [words_append_cons hc, ← List.append_nil w, words_append_of_isBlank hw]
    exact List.append_nil _

theorem words_trim (t : Text) : words (trim t) = words t := by
  obtain ⟨front, back, hf, hb, ht⟩ := exists_eq_append_trim t
  have whole := words_append_isBlank hb (front ++ trim t)
  rw [← ht, words_append_of_isBlank hf] at whole
  exact whole.symm

/-- What does not begin with white space begins with a token. -/
theorem exists_words_eq_cons {c : Char} (hc : isSpace c = false) (t : Text) :
    ∃ w ws, words (c :: t) = w :: ws ∧ w.head? = some c := by
  have token : IsToken ((c :: t).takeWhile (!isSpace ·)) := by
    refine ⟨by simp [hc], fun d hd => ?_⟩
    simpa using List.mem_takeWhile_imp hd
  have start : ((c :: t).takeWhile (!isSpace ·)).head? = some c := by simp [hc]
  have whole := List.takeWhile_append_dropWhile (p := (!isSpace ·)) (l := c :: t)
  cases hr : (c :: t).dropWhile (!isSpace ·) with
  | nil =>
    rw [hr, List.append_nil] at whole
    exact ⟨_, [], (congrArg words whole).symm.trans (words_of_isToken token), start⟩
  | cons d r =>
    have hd : isSpace d = true := by
      simpa using head?_dropWhile_eq_false (!isSpace ·) (c :: t) d (by rw [hr]; rfl)
    rw [hr] at whole
    exact ⟨_, words r, (congrArg words whole).symm.trans (words_isToken_append token hd r), start⟩

/-- A text without white space at its beginning starts with its first token. -/
theorem head?_of_words {t w : Text} {ws : List Text} (ht : ∀ c ∈ t.head?, isSpace c = false) (h : words t = w :: ws) :
    t.head? = w.head? := by
  cases t with
  | nil => cases h
  | cons c t =>
    obtain ⟨w', ws', hw, start⟩ := exists_words_eq_cons (ht c rfl) t
    obtain ⟨rfl, -⟩ := List.cons.inj (h.symm.trans hw)
    exact start.symm

/-- Only white space holds no token. -/
theorem isBlank_of_words_eq_nil {t : Text} (h : words t = []) : IsBlank t := by
  induction t with
  | nil => exact nofun
  | cons c t ih =>
    cases hc : isSpace c with
    | true => exact List.forall_mem_cons.mpr ⟨hc, ih ((words_append_cons hc [] t).symm.trans h)⟩
    | false =>
      obtain ⟨w, ws, hw, -⟩ := exists_words_eq_cons hc t
      exact absurd (hw.symm.trans h) (List.cons_ne_nil w ws)

end StoredProgram.Text
