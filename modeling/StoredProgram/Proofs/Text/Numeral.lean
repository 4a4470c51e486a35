import StoredProgram.Proofs.Text.Words

/-! # Numerals

An integer is written as digits, behind a sign or without one (`IsNumeral`). Leading zeros are allowed, so an integer has
many numerals, but a numeral has one value, and that is what reading finds (`integer?_eq_some_iff`). The numeral of a
word is one whose value a word holds (`exists_word?_iff`). -/

namespace StoredProgram.Text

variable {t digits : Text} {n : Int} {w : Word}

/-- One or more digits. -/
structure IsDigits (digits : Text) : Prop where
  nonempty : digits ≠ []
  digit : ∀ c ∈ digits, c.isDigit = true

/-- The text of an integer: digits, or digits behind a sign. -/
inductive IsNumeral : Text → Int → Prop
  | bare {digits : Text} (h : IsDigits digits) : IsNumeral digits (Nat.ofDigitChars 10 digits 0)
  | plus {digits : Text} (h : IsDigits digits) : IsNumeral ('+' :: digits) (Nat.ofDigitChars 10 digits 0)
  | minus {digits : Text} (h : IsDigits digits) : IsNumeral ('-' :: digits) (-(Nat.ofDigitChars 10 digits 0 : Int))

/-! ### Reading -/

theorem IsDigits.natural? (h : IsDigits digits) : natural? digits = some (Nat.ofDigitChars 10 digits 0) :=
  natural?_eq_some_iff.mpr ⟨h.nonempty, h.digit, rfl⟩

theorem isDigits_of_natural? {k : Nat} (h : natural? digits = some k) :
    IsDigits digits ∧ Nat.ofDigitChars 10 digits 0 = k := by
  obtain ⟨hne, hd, rfl⟩ := natural?_eq_some_iff.mp h
  exact ⟨⟨hne, hd⟩, rfl⟩

theorem integer?_eq_some_iff : integer? t = some n ↔ IsNumeral t n := by
  refine ⟨fun h => ?_, fun h => ?_⟩
  · unfold integer? at h
    split at h
    · obtain ⟨_, hk, rfl⟩ := Option.map_eq_some_iff.mp h
      obtain ⟨k, hn, ⟨⟩⟩ := Option.bind_eq_some_iff.mp hk
      obtain ⟨hd, rfl⟩ := isDigits_of_natural? hn
      exact .minus hd
    · obtain ⟨k, hk, rfl⟩ := Option.map_eq_some_iff.mp h
      obtain ⟨hd, rfl⟩ := isDigits_of_natural? hk
      exact .plus hd
    · obtain ⟨k, hk, rfl⟩ := Option.map_eq_some_iff.mp h
      obtain ⟨hd, rfl⟩ := isDigits_of_natural? hk
      exact .bare hd
  · cases h with
    | bare h =>
      obtain ⟨c, digits, rfl⟩ := List.exists_cons_of_ne_nil h.nonempty
      rw [integer?_of_isDigit (h.digit c List.mem_cons_self), h.natural?]
      rfl
    | plus h =>
      rw [integer?, h.natural?]
      rfl
    | minus h =>
      rw [integer?, h.natural?]
      rfl

theorem word?_eq_some_iff : word? t = some w ↔ IsNumeral t w.toInt := by
  simp only [word?, Option.bind_eq_some_iff, integer?_eq_some_iff, Word.ofInt?_eq_some_iff]
  constructor
  · rintro ⟨_, h, rfl⟩
    exact h
  · exact fun h => ⟨_, h, rfl⟩

theorem exists_word?_iff :
    (∃ w, word? t = some w) ↔ ∃ n, IsNumeral t n ∧ Int64.minValue.toInt ≤ n ∧ n ≤ Int64.maxValue.toInt := by
  constructor
  · rintro ⟨w, h⟩
    exact ⟨w.toInt, word?_eq_some_iff.mp h, w.minValue_le_toInt, w.toInt_le⟩
  · rintro ⟨n, h, hle, hge⟩
    refine ⟨Int64.ofInt n, word?_eq_some_iff.mpr ?_⟩
    rwa [Int64.toInt_ofInt_of_le hle (Int.lt_of_le_of_lt hge (by decide))]

/-! ### Characters -/

theorem exists_digits_of_word? (h : t.word? = some w) :
    ∃ digits : Text, digits ≠ [] ∧ (∀ c ∈ digits, c.isDigit = true) ∧
      (t = digits ∨ t = '+' :: digits ∨ t = '-' :: digits) := by
  have numeral := word?_eq_some_iff.mp h
  generalize w.toInt = n at numeral
  cases numeral with
  | bare hd => exact ⟨_, hd.nonempty, hd.digit, Or.inl rfl⟩
  | plus hd => exact ⟨_, hd.nonempty, hd.digit, Or.inr (Or.inl rfl)⟩
  | minus hd => exact ⟨_, hd.nonempty, hd.digit, Or.inr (Or.inr rfl)⟩

theorem of_mem_of_word? (h : t.word? = some w) {c : Char} (hc : c ∈ t) : c.isDigit = true ∨ c = '+' ∨ c = '-' := by
  obtain ⟨digits, -, hd, rfl | rfl | rfl⟩ := exists_digits_of_word? h
  · exact Or.inl (hd c hc)
  · rcases List.mem_cons.mp hc with rfl | hc
    · exact Or.inr (Or.inl rfl)
    · exact Or.inl (hd c hc)
  · rcases List.mem_cons.mp hc with rfl | hc
    · exact Or.inr (Or.inr rfl)
    · exact Or.inl (hd c hc)

theorem ne_nil_of_word? (h : t.word? = some w) : t ≠ [] := by
  rintro rfl
  cases h

theorem isToken_of_word? (h : t.word? = some w) : t.IsToken := by
  refine ⟨ne_nil_of_word? h, fun c hc => ?_⟩
  rcases of_mem_of_word? h hc with hd | rfl | rfl
  · exact isSpace_of_isDigit hd
  · rfl
  · rfl

theorem head?_ne_of_word? (h : t.word? = some w) : t.head? ≠ some 'R' := by
  intro hR
  rcases of_mem_of_word? h (List.mem_of_head? hR) with h | h | h
  · exact absurd h (by decide)
  · cases h
  · cases h

end StoredProgram.Text
