import StoredProgram.Proofs.Text.Words
import StoredProgram.Text.Width

/-! # Widths of texts and of their characters

A text without an escape character has a width (`width?_of_not_mem`). It is measured as a whole, so its width need not
be the sum of the widths of its characters; `excess` is the difference. Printable ASCII characters take one column each
wherever they stand, and texts of them are as wide as they are long (`IsPlain.width_eq`). -/

namespace StoredProgram.Text

variable {t : Text} {c : Char}

/-- The sum of the widths of the characters of a text. -/
def charsWidth : Text → Nat
  | [] => 0
  | c :: t => charWidth c + charsWidth t

/-- By how many columns the characters of a text take more one by one than the text does as a whole. -/
def excess (t : Text) : Int := charsWidth t - width t

theorem charsWidth_append (s t : Text) : charsWidth (s ++ t) = charsWidth s + charsWidth t := by
  induction s with
  | nil => exact (Nat.zero_add _).symm
  | cons c s ih => rw [List.cons_append, charsWidth, charsWidth, ih, Nat.add_assoc]

theorem charsWidth_singleton (c : Char) : charsWidth [c] = charWidth c := rfl

theorem charsWidth_replicate (n : Nat) (c : Char) : charsWidth (List.replicate n c) = n * charWidth c := by
  induction n with
  | zero => exact (Nat.zero_mul _).symm
  | succ n ih => rw [List.replicate_succ, charsWidth, ih, Nat.succ_mul, Nat.add_comm]

theorem excess_eq_zero_iff : excess t = 0 ↔ width t = charsWidth t := by
  unfold excess
  omega

/-! ### Texts without colour sequences -/

theorem hiddenColumns_cons (h : c ≠ '\x1b') (t : Text) : hiddenColumns (c :: t) = hiddenColumns t := by
  unfold hiddenColumns
  rw [List.foldl_cons]
  simp [Escape.next, h]

theorem hiddenColumns_eq_zero (h : '\x1b' ∉ t) : hiddenColumns t = 0 := by
  induction t with
  | nil => rfl
  | cons c t ih =>
    obtain ⟨hc, ht⟩ := List.ne_and_not_mem_of_not_mem_cons h
    rw [hiddenColumns_cons (Ne.symm hc), ih ht]

theorem width?_of_not_mem (h : '\x1b' ∉ t) : width? t = some (columns t).toNat := by
  simp [width?, hiddenColumns_eq_zero h]

theorem isSome_width?_of_not_mem (h : '\x1b' ∉ t) : (width? t).isSome = true := by
  rw [width?_of_not_mem h]
  rfl

/-! ### Plain texts -/

/-- A text is plain if its characters are the printable ones of ASCII. -/
def IsPlain (t : Text) : Prop := ∀ c ∈ t, ' ' ≤ c ∧ c ≤ '~'

theorem printable_of_isDigit (h : c.isDigit = true) : ' ' ≤ c ∧ c ≤ '~' := by
  simp only [Char.isDigit, Bool.and_eq_true, decide_eq_true_eq, ge_iff_le, UInt32.le_iff_toNat_le] at h
  exact ⟨Nat.le_trans (by decide) h.1, Nat.le_trans h.2 (by decide)⟩

theorem printable_of_isUpper (h : c.isUpper = true) : ' ' ≤ c ∧ c ≤ '~' := by
  have range : 'A' ≤ c ∧ c ≤ 'Z' := of_decide_eq_true h
  exact ⟨Nat.le_trans (by decide) range.1, Nat.le_trans range.2 (by decide)⟩

theorem isPlain_ofInt (n : Int) : IsPlain (ofInt n) := fun _ hc =>
  (mem_ofInt hc).elim (fun h => h ▸ by decide) printable_of_isDigit

theorem IsPlain.charsWidth_eq (h : IsPlain t) : charsWidth t = t.length := by
  induction t with
  | nil => rfl
  | cons c t ih =>
    obtain ⟨hc, ht⟩ := List.forall_mem_cons.mp h
    rw [charsWidth, ih ht, charWidth, if_pos hc, List.length_cons, Nat.add_comm]

theorem Following.advance_of_printable (h : ' ' ≤ c ∧ c ≤ '~') : ({} : Following).advance c = (1, {}) := by
  have early : c ≤ '\u00a0' := Nat.le_trans h.2 (by decide)
  simp [advance, early]

theorem IsPlain.advanceAll_eq (h : IsPlain t) : ({} : Following).advanceAll t = ((t.length : Int), {}) := by
  induction t with
  | nil => rfl
  | cons c t ih =>
    obtain ⟨hc, ht⟩ := List.forall_mem_cons.mp h
    rw [Following.advanceAll_cons, ih ht, Following.advance_of_printable hc, List.length_cons]
    rfl

theorem IsPlain.width?_eq (h : IsPlain t) : width? t = some t.length := by
  rw [width?_of_not_mem fun he => absurd (h _ he) (by decide), columns, h.advanceAll_eq, Int.toNat_natCast]

theorem IsPlain.isSome_width? (h : IsPlain t) : (width? t).isSome = true := by
  rw [h.width?_eq]
  rfl

theorem IsPlain.width_eq (h : IsPlain t) : width t = t.length := by
  rw [width, h.width?_eq]
  rfl

theorem IsPlain.excess_eq (h : IsPlain t) : excess t = 0 :=
  excess_eq_zero_iff.mpr (h.width_eq.trans h.charsWidth_eq.symm)

end StoredProgram.Text
