import StoredProgram.Text.Decimal

/-! # Tokens

Splitting a text at its white space leaves tokens, pieces without white space that are not empty. A token
is found again wherever white space stands around it (`words_append_cons`, `words_of_isToken`), and
trimming stops at a character of a token (`trim_eq_self`). -/

namespace StoredProgram.Text

/-- A piece of text that splitting at white space leaves whole. -/
def IsToken (w : Text) : Prop := w ≠ [] ∧ ∀ c ∈ w, isSpace c = false

theorem isToken_iff_all {w : Text} : IsToken w ↔ w ≠ [] ∧ w.all (!isSpace ·) = true := by
  simp [IsToken]

instance (w : Text) : Decidable (IsToken w) := decidable_of_iff _ isToken_iff_all.symm

/-- A text that trimming leaves as it is. -/
def IsTrimmed (t : Text) : Prop :=
  (∀ c ∈ t.head?, isSpace c = false) ∧ ∀ c ∈ t.getLast?, isSpace c = false

/-! ### Splitting -/

/-- A piece, while characters are collected for the first one, has only collected characters and
    characters of the text that do not split it. -/
theorem mem_of_mem_splitOnPPrepend {α : Type} {p : α → Bool} {t acc w : List α}
    (h : w ∈ t.splitOnPPrepend p acc) : ∀ c ∈ w, c ∈ acc ∨ c ∈ t ∧ p c = false := by
  induction t generalizing acc with
  | nil =>
    intro c hc
    rw [List.splitOnPPrepend_nil, List.mem_singleton] at h
    exact Or.inl (List.mem_reverse.mp (h ▸ hc))
  | cons x t ih =>
    intro c hc
    have further : c ∈ t ∧ p c = false → c ∈ acc ∨ c ∈ x :: t ∧ p c = false := fun hd =>
      Or.inr ⟨List.mem_cons_of_mem _ hd.1, hd.2⟩
    cases hx : p x
    · rw [List.splitOnPPrepend_cons_neg hx] at h
      rcases ih h c hc with ha | hd
      · rcases List.mem_cons.mp ha with rfl | ha
        · exact Or.inr ⟨List.mem_cons_self, hx⟩
        · exact Or.inl ha
      · exact further hd
    · rw [List.splitOnPPrepend_cons_pos hx] at h
      rcases List.mem_cons.mp h with rfl | h
      · exact Or.inl (List.mem_reverse.mp hc)
      · exact further ((ih h c hc).resolve_left List.not_mem_nil)

theorem mem_of_mem_splitOnP {α : Type} {p : α → Bool} {t w : List α} (h : w ∈ t.splitOnP p) :
    ∀ c ∈ w, c ∈ t ∧ p c = false := by
  intro c hc
  rw [List.splitOnP_eq_splitOnPPrepend] at h
  exact (mem_of_mem_splitOnPPrepend h c hc).resolve_left List.not_mem_nil

/-! ### Words -/

theorem isToken_of_mem_words {t w : Text} (h : w ∈ words t) : IsToken w := by
  obtain ⟨hw, hne⟩ := List.mem_filter.mp h
  exact ⟨by simpa using hne, fun c hc => (mem_of_mem_splitOnP hw c hc).2⟩

/-- A text falls apart at each white space. -/
theorem words_append_cons {c : Char} (h : isSpace c = true) (s t : Text) :
    words (s ++ c :: t) = words s ++ words t := by
  unfold words
  rw [List.splitOnP_append_cons s t h, List.filter_append]

theorem words_of_isToken {w : Text} (h : IsToken w) : words w = [w] := by
  unfold words
  rw [List.splitOnP_eq_singleton h.2]
  simp [h.1]

theorem words_isToken_append {w : Text} (h : IsToken w) {c : Char} (hc : isSpace c = true) (t : Text) :
    words (w ++ c :: t) = w :: words t := by
  rw [words_append_cons hc, words_of_isToken h, List.singleton_append]

/-! ### Trimming -/

theorem head?_dropWhile_eq_false (p : Char → Bool) (t : Text) : ∀ c ∈ (t.dropWhile p).head?, p c = false := by
  intro c hc
  have h := List.head?_dropWhile_not p t
  rw [Option.mem_def.mp hc] at h
  exact h

theorem dropWhile_eq_self {p : Char → Bool} {t : Text} (h : ∀ c ∈ t.head?, p c = false) : t.dropWhile p = t := by
  cases t with
  | nil => rfl
  | cons c t => exact List.dropWhile_cons_of_neg (by simp [h c rfl])

theorem trim_eq_self {t : Text} (h : IsTrimmed t) : trim t = t := by
  unfold trim
  rw [dropWhile_eq_self h.1, dropWhile_eq_self (by simpa using h.2), List.reverse_reverse]

theorem isTrimmed_trim (t : Text) : IsTrimmed (trim t) := by
  have back := head?_dropWhile_eq_false isSpace (t.dropWhile isSpace).reverse
  refine ⟨fun c hc => ?_, by simpa [trim] using back⟩
  -- What is left starts like the text without the white space before it.
  obtain ⟨s, hs⟩ := List.dropWhile_suffix isSpace (l := (t.dropWhile isSpace).reverse)
  have front : t.dropWhile isSpace = trim t ++ s.reverse := by
    rw [trim, ← List.reverse_append, hs, List.reverse_reverse]
  refine head?_dropWhile_eq_false isSpace t c ?_
  rw [front, List.head?_append, Option.mem_def.mp hc]
  rfl

theorem mem_of_mem_trim {t : Text} {c : Char} (h : c ∈ trim t) : c ∈ t := by
  have h := List.dropWhile_subset _ (List.mem_reverse.mp h)
  exact List.dropWhile_subset _ (List.mem_reverse.mp h)

theorem IsToken.isTrimmed {w : Text} (h : IsToken w) : IsTrimmed w :=
  ⟨fun c hc => h.2 c (List.mem_of_head? hc), fun c hc => h.2 c (List.mem_of_getLast? hc)⟩

theorem IsTrimmed.join {s t : Text} (hs : IsTrimmed s) (ht : IsTrimmed t) (hne : s ≠ []) (hne' : t ≠ [])
    (gap : Text) : IsTrimmed (s ++ gap ++ t) := by
  obtain ⟨c, s, rfl⟩ := List.exists_cons_of_ne_nil hne
  refine ⟨hs.1, fun d hd => ht.2 d ?_⟩
  rwa [List.getLast?_append, List.getLast?_eq_some_getLast hne', Option.some_or,
    ← List.getLast?_eq_some_getLast hne'] at hd

/-! ### Numbers -/

theorem isSpace_of_isDigit {c : Char} (h : c.isDigit = true) : isSpace c = false := by
  simp only [Char.isDigit, Bool.and_eq_true, decide_eq_true_eq, ge_iff_le, UInt32.le_iff_toNat_le] at h
  simp only [isSpace, Char.toNat, Bool.or_eq_false_iff, Bool.and_eq_false_iff, decide_eq_false_iff_not,
    beq_eq_false_iff_ne]
  have h0 : (48 : Nat) ≤ c.val.toNat := h.1
  have h9 : c.val.toNat ≤ 57 := h.2
  omega

theorem natural?_eq_some_iff {t : Text} {n : Nat} :
    natural? t = some n ↔ t ≠ [] ∧ (∀ c ∈ t, c.isDigit = true) ∧ n = Nat.ofDigitChars 10 t 0 := by
  unfold natural?
  split
  · rename_i hd
    rw [Bool.and_eq_true, List.all_eq_true] at hd
    have hne : t ≠ [] := by simpa using hd.1
    exact ⟨fun h => ⟨hne, hd.2, (Option.some.inj h).symm⟩, fun ⟨_, _, h⟩ => congrArg some h.symm⟩
  · rename_i hno
    refine ⟨fun h => (nomatch h), fun ⟨hne, hd, _⟩ => absurd ?_ hno⟩
    rw [Bool.and_eq_true, List.all_eq_true]
    exact ⟨by simpa using hne, hd⟩

theorem isDigit_of_mem_ofNat {n : Nat} : ∀ c ∈ ofNat n, c.isDigit = true := fun _ h =>
  Nat.isDigit_of_mem_toDigits (by decide) (by decide) h

theorem mem_ofInt {n : Int} {c : Char} (h : c ∈ ofInt n) : c = '-' ∨ c.isDigit = true := by
  cases n with
  | ofNat n => exact Or.inr (isDigit_of_mem_ofNat c h)
  | negSucc n => exact (List.mem_cons.mp h).imp_right (isDigit_of_mem_ofNat c)

theorem isToken_ofNat (n : Nat) : IsToken (ofNat n) :=
  ⟨Nat.toDigits_ne_nil, fun c hc => isSpace_of_isDigit (isDigit_of_mem_ofNat c hc)⟩

end StoredProgram.Text
