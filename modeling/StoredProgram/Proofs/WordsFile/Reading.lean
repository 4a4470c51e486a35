import Mathlib.Order.WellFounded
import StoredProgram.Proofs.CommandLine.Words
import StoredProgram.Proofs.Text.Blank
import StoredProgram.Proofs.Text.Numeral

/-! # Words as they may be written

A file of words need not look as it is printed. White space may stand around its words, rows may be blank, and a row ends
in a line feed, with or without a carriage return before it (`Written`). Each such file is read as its words, and no
other file is read at all (`read_eq_ok_iff_written`): the first line that holds no word is the error
(`read_eq_error_iff`). -/

namespace StoredProgram

namespace WordsFile

/-- What a row holds: nothing, or a word in decimal, with any white space around it. -/
inductive Row : Text → Option Word → Prop
  | blank {row : Text} (h : row.IsBlank) : Row row none
  | word {front numeral back : Text} {w : Word} (hf : front.IsBlank) (h : numeral.IsNumeral w.toInt)
    (hb : back.IsBlank) : Row (front ++ numeral ++ back) (some w)

/-- A text that holds words, no two of them in one row. -/
inductive Written : Text → List Word → Prop
  | last {row : Text} {w : Option Word} (hn : '\n' ∉ row) (h : Row row w) : Written row w.toList
  | lineFeed {row t : Text} {w : Option Word} {ws : List Word} (hn : '\n' ∉ row) (h : Row row w) (ht : Written t ws) :
    Written (row ++ '\n' :: t) (w.toList ++ ws)
  | carriageReturn {row t : Text} {w : Option Word} {ws : List Word} (hn : '\n' ∉ row) (h : Row row w)
    (ht : Written t ws) : Written (row ++ '\r' :: '\n' :: t) (w.toList ++ ws)

/-- A line that is not blank and holds no word: its text is no numeral, or one with a value that no word has. -/
def Refused (t : Text) (l : Line) : Prop :=
  t.LineAt l.number l.text ∧ ¬∃ n, l.text.IsNumeral n ∧ Int64.minValue.toInt ≤ n ∧ n ≤ Int64.maxValue.toInt

/-- The first line of a text that holds no word. -/
def FirstRefused (t : Text) (l : Line) : Prop := Refused t l ∧ ∀ k, Refused t k → l.number ≤ k.number

variable {t row : Text} {w : Word} {ws : List Word} {l : Line}

/-! ### Rows -/

theorem row_none_iff : Row row none ↔ row.trim = [] := by
  rw [Text.trim_eq_nil_iff]
  refine ⟨fun h => ?_, .blank⟩
  cases h with
  | blank h => exact h

theorem row_some_iff : Row row (some w) ↔ row.trim.word? = some w := by
  refine ⟨fun h => ?_, fun h => ?_⟩
  · cases h with
    | @word front numeral back _ hf h hb =>
      have read := Text.word?_eq_some_iff.mpr h
      rwa [Text.trim_append_isBlank hb, Text.trim_append_of_isBlank hf,
        Text.trim_eq_self (Text.isToken_of_word? read).isTrimmed]
  · obtain ⟨front, back, hf, hb, ht⟩ := row.exists_eq_append_trim
    rw [ht]
    exact .word hf (Text.word?_eq_some_iff.mp h) hb

theorem Row.append_return {w : Option Word} (h : Row row w) : Row (row ++ ['\r']) w := by
  have trimmed : (row ++ ['\r']).trim = row.trim := Text.trim_append_isBlank (by decide) row
  cases w with
  | none => rwa [row_none_iff, trimmed, ← row_none_iff]
  | some w => rwa [row_some_iff, trimmed, ← row_some_iff]

/-! ### Texts that are read -/

/-- A row comes first in what is read. -/
theorem forall₂_lineTexts_append (hn : '\n' ∉ row) {ls : List Text} :
    List.Forall₂ (fun line w => Text.word? line = some w) (row.lineTexts ++ ls) ws ↔
      ∃ w ws', Row row w ∧ List.Forall₂ (fun line w => Text.word? line = some w) ls ws' ∧ ws = w.toList ++ ws' := by
  by_cases hr : row.trim = []
  · have blank : row.lineTexts = [] := by
      rw [Text.lineTexts_of_not_mem hn, hr]
      rfl
    rw [blank, List.nil_append]
    refine ⟨fun h => ⟨none, ws, row_none_iff.mpr hr, h, rfl⟩, ?_⟩
    rintro ⟨_ | w, ws', hw, h, rfl⟩
    · exact h
    · exact absurd hr (Text.ne_nil_of_word? (row_some_iff.mp hw))
  · rw [Text.lineTexts_of_trim_ne_nil hn hr, List.singleton_append, List.forall₂_cons_left_iff]
    constructor
    · rintro ⟨w, ws', hw, h, rfl⟩
      exact ⟨some w, ws', row_some_iff.mpr hw, h, rfl⟩
    · rintro ⟨_ | w, ws', hw, h, rfl⟩
      · exact absurd (row_none_iff.mp hw) hr
      · exact ⟨w, ws', row_some_iff.mp hw, h, rfl⟩

/-- A text is read as the words that it holds, and as nothing else. -/
theorem read_eq_ok_iff_written : read t = .ok ws ↔ Written t ws := by
  rw [read_eq_ok_iff]
  refine ⟨fun h => ?_, fun h => ?_⟩
  · induction t using Text.row_induction generalizing ws with
    | last row hn =>
      rw [← List.append_nil row.lineTexts] at h
      obtain ⟨w, ws', hw, rest, rfl⟩ := (forall₂_lineTexts_append hn).mp h
      cases rest
      rw [List.append_nil]
      exact .last hn hw
    | row row t hn ih =>
      rw [Text.lineTexts_append_newline] at h
      obtain ⟨w, ws', hw, rest, rfl⟩ := (forall₂_lineTexts_append hn).mp h
      exact .lineFeed hn hw (ih rest)
  · induction h with
    | @last row w hn hw =>
      rw [← List.append_nil row.lineTexts]
      exact (forall₂_lineTexts_append hn).mpr ⟨w, [], hw, .nil, (List.append_nil _).symm⟩
    | lineFeed hn hw _ ih =>
      rw [Text.lineTexts_append_newline]
      exact (forall₂_lineTexts_append hn).mpr ⟨_, _, hw, ih, rfl⟩
    | @carriageReturn row t w ws hn hw _ ih =>
      -- The carriage return is white space behind the word.
      have returned : '\n' ∉ row ++ ['\r'] := fun h => (List.mem_append.mp h).elim hn (by decide)
      have rows : row ++ '\r' :: '\n' :: t = (row ++ ['\r']) ++ '\n' :: t := by simp
      rw [rows, Text.lineTexts_append_newline]
      exact (forall₂_lineTexts_append returned).mpr ⟨w, ws, hw.append_return, ih, rfl⟩

/-! ### Texts that are refused -/

theorem refused_iff : Refused t l ↔ l ∈ t.lines ∧ l.text.word? = none := by
  unfold Refused
  rw [← Text.mem_lines_iff, ← Text.exists_word?_iff, Option.eq_none_iff_forall_ne_some, not_exists]

/-- The error is the first line that holds no word. -/
theorem read_eq_error_iff : read t = .error l ↔ FirstRefused t l := by
  unfold read FirstRefused
  simp only [mapM_eq_error_iff, refused_iff]
  constructor
  · rintro ⟨before, k, behind, hs, hok, hk⟩
    have clean : ∀ k ∈ before, ¬k.text.word? = none := by
      intro k hk hno
      obtain ⟨w, hw⟩ := hok k hk
      rw [hno] at hw
      cases hw
    have ordered := hs ▸ t.pairwise_number_lines
    have first := (Text.forall_mem_before_iff (p := fun k => k.text.word? = none) ordered).mp clean
    split at hk
    · cases hk
    · rename_i hno
      cases hk
      rw [hs]
      exact ⟨⟨List.mem_append_right _ List.mem_cons_self, hno⟩, fun k hk => first k hk.1 hk.2⟩
  · rintro ⟨⟨hl, hno⟩, hfirst⟩
    obtain ⟨before, behind, hs⟩ := List.append_of_mem hl
    have ordered := hs ▸ t.pairwise_number_lines
    have clean := (Text.forall_mem_before_iff (p := fun k => k.text.word? = none) ordered).mpr
      fun k hk hp => hfirst k ⟨hs ▸ hk, hp⟩
    refine ⟨before, l, behind, hs, fun k hk => ?_, ?_⟩
    · obtain ⟨w, hw⟩ := Option.ne_none_iff_exists'.mp (clean k hk)
      exact ⟨w, by rw [hw]⟩
    · rw [hno]

theorem exists_firstRefused_iff : (∃ l, FirstRefused t l) ↔ ∃ l, Refused t l := by
  refine ⟨fun ⟨l, h⟩ => ⟨l, h.1⟩, fun ⟨l, h⟩ => ?_⟩
  obtain ⟨first, hr, hmin⟩ := (measure Line.number).wf.has_min {k | Refused t k} ⟨l, h⟩
  exact ⟨first, hr, fun k hk => Nat.not_lt.mp (hmin k hk)⟩

end WordsFile

namespace Command

/-- Words that have been printed are read again, as they are in whatever way they are written. Reading fails just if a
    line holds no word, and the failure names the first one. -/
theorem words_eq_iff (file : Text) :
    (∀ ws, words file (WordsFile.write ws) = .ok ws) ∧
      (∀ t ws, words file t = .ok ws ↔ WordsFile.Written t ws) ∧
      (∀ t, (∃ f, words file t = .error f) ↔ ∃ l, WordsFile.Refused t l) ∧
      ∀ t f, words file t = .error f ↔ ∃ l, WordsFile.FirstRefused t l ∧ f = .notAWord file l := by
  have failed (t : Text) (f : Failure) :
      words file t = .error f ↔ ∃ l, WordsFile.FirstRefused t l ∧ f = .notAWord file l := by
    rw [words, mapError_eq_error_iff]
    exact exists_congr fun l => and_congr WordsFile.read_eq_error_iff eq_comm
  refine ⟨words_write file, fun t ws => ?_, fun t => ?_, failed⟩
  · rw [words, mapError_eq_ok_iff, WordsFile.read_eq_ok_iff_written]
  · rw [← WordsFile.exists_firstRefused_iff]
    simp only [failed]
    exact ⟨fun ⟨_, l, h, _⟩ => ⟨l, h⟩, fun ⟨l, h⟩ => ⟨_, l, h, rfl⟩⟩

example : words [] "+007\r\n \t-1  \n\n".toList = .ok [7, -1] := by decide +kernel

example : words [] "262157\n\nLDA #5\n0".toList = .error (.notAWord [] ⟨3, "LDA #5".toList⟩) := by decide +kernel

end Command
end StoredProgram
