import Mathlib.Logic.Relation
import StoredProgram.Proofs.Assembly.Agreement
import StoredProgram.Proofs.Assembly.Labelling
import StoredProgram.Proofs.Text.Rows

/-! # The spacing of a source

Spaces and tabs separate the parts of a line, and how many of them do so does not count, nor do those at the ends of a
line. Respacing a source anywhere leaves its assembly as it is, and its error on the same line and of the same kind;
carriage returns before the line feeds change nothing at all (`ofSource_respaced`). -/

namespace StoredProgram

/-- Spaces and tabs, or nothing. -/
def IsSpacing (g : Text) : Prop := ∀ c ∈ g, c = ' ' ∨ c = '\t'

theorem IsGap.isSpacing {g : Text} (h : IsGap g) : IsSpacing g := h.2

theorem IsSpacing.isBlank {g : Text} (h : IsSpacing g) : g.IsBlank := fun c hc =>
  Labelling.isSpace_of_isGap (Labelling.isGap_iff.mpr (h c hc))

theorem IsSpacing.newline_not_mem {g : Text} (h : IsSpacing g) : '\n' ∉ g := by
  intro hc
  rcases h _ hc with h | h <;> exact absurd h (by decide)

namespace Text

/-- One change of the spacing of a text: a run of spaces and tabs becomes another one, or it becomes any one or none at
    the beginning or at the end of a line. -/
inductive Respaces : Text → Text → Prop
  | inside (s t : Text) {g g' : Text} (hg : IsGap g) (hg' : IsGap g') : Respaces (s ++ g ++ t) (s ++ g' ++ t)
  | front {s : Text} (t : Text) {g g' : Text} (hs : s = [] ∨ ['\n'] <:+ s) (hg : IsSpacing g) (hg' : IsSpacing g') :
    Respaces (s ++ g ++ t) (s ++ g' ++ t)
  | back (s : Text) {t g g' : Text} (ht : t = [] ∨ ['\n'] <+: t ∨ ['\r', '\n'] <+: t) (hg : IsSpacing g)
    (hg' : IsSpacing g') : Respaces (s ++ g ++ t) (s ++ g' ++ t)

/-- A text with a carriage return before each line feed. -/
def withReturns (t : Text) : Text := t.flatMap fun c => if c = '\n' then ['\r', '\n'] else [c]

/-- Two trimmed lines that differ at most in one run of spaces and tabs behind a first character. -/
inductive Regapped : Text → Text → Prop
  | refl (line : Text) : Regapped line line
  | gap {s g g' : Text} (t : Text) (hs : s ≠ []) (hg : IsGap g) (hg' : IsGap g') : Regapped (s ++ g ++ t) (s ++ g' ++ t)

variable {s t u g g' a b : Text} {before behind : List Text}

/-! ### Rows around a run -/

/-- What follows a text goes on with its last row. -/
theorem exists_splitOn_append (s : Text) :
    ∃ before b, ∀ t : Text, (s ++ t).splitOn '\n' = before ++ (t.splitOn '\n').modifyHead (b ++ ·) := by
  by_cases h : '\n' ∈ s
  · obtain ⟨b, front, hs, hb⟩ := List.eq_append_cons_of_mem (List.mem_reverse.mpr h)
    obtain rfl : s = front.reverse ++ '\n' :: b.reverse := by
      rw [← List.reverse_reverse s, hs, List.reverse_append, List.reverse_cons, List.append_assoc,
        List.singleton_append]
    refine ⟨front.reverse.splitOn '\n', b.reverse, fun t => ?_⟩
    rw [List.append_assoc, List.cons_append, splitOn_append_newline,
      splitOn_append_of_not_mem (mt List.mem_reverse.mp hb)]
  · exact ⟨[], s, fun t => splitOn_append_of_not_mem h t⟩

theorem exists_splitOn_front (h : s = [] ∨ ['\n'] <:+ s) :
    ∃ before, ∀ t : Text, (s ++ t).splitOn '\n' = before ++ (t.splitOn '\n').modifyHead ([] ++ ·) := by
  have whole : ∀ t : Text, (t.splitOn '\n').modifyHead ([] ++ ·) = t.splitOn '\n' := fun t =>
    (splitOn_append_of_not_mem List.not_mem_nil t).symm
  simp only [whole]
  rcases h with rfl | ⟨s, rfl⟩
  · exact ⟨[], fun t => rfl⟩
  · refine ⟨s.splitOn '\n', fun t => ?_⟩
    rw [List.append_assoc, List.singleton_append, splitOn_append_newline]

theorem exists_splitOn_back (h : t = [] ∨ ['\n'] <+: t ∨ ['\r', '\n'] <+: t) :
    ∃ a behind, t.splitOn '\n' = a :: behind ∧ IsBlank a := by
  rcases h with rfl | ⟨t, rfl⟩ | ⟨t, rfl⟩
  · exact ⟨[], [], rfl, by decide⟩
  · exact ⟨[], t.splitOn '\n', splitOn_append_newline [] t, by decide⟩
  · exact ⟨['\r'], t.splitOn '\n', splitOn_append_newline ['\r'] t, by decide⟩

theorem splitOn_around (hs : ∀ t : Text, (s ++ t).splitOn '\n' = before ++ (t.splitOn '\n').modifyHead (b ++ ·))
    (ht : t.splitOn '\n' = a :: behind) (hg : IsSpacing g) :
    (s ++ g ++ t).splitOn '\n' = before ++ (b ++ g ++ a) :: behind := by
  rw [List.append_assoc, hs, splitOn_append_of_not_mem hg.newline_not_mem, ht, List.modifyHead_cons,
    List.modifyHead_cons, List.append_assoc]

/-! ### Trimmed rows -/

theorem trim_append_of_not_isBlank (hs : ¬IsBlank s) (ht : ¬IsBlank t) (g : Text) :
    trim (s ++ g ++ t) = s.dropWhile isSpace ++ g ++ t.rdropWhile isSpace := by
  have back : ¬IsBlank t.reverse := fun h => ht fun c hc => h c (List.mem_reverse.mpr hc)
  unfold trim
  rw [List.append_assoc, dropWhile_append_of_not_isBlank hs, List.reverse_append, List.reverse_append,
    List.append_assoc, dropWhile_append_of_not_isBlank back]
  simp [List.rdropWhile]

theorem regapped_trim (hg : IsSpacing g) (hg' : IsSpacing g') (h : IsBlank b ∨ IsBlank a ∨ IsGap g ∧ IsGap g') :
    Regapped (trim (b ++ g ++ a)) (trim (b ++ g' ++ a)) := by
  by_cases hb : IsBlank b
  · rw [List.append_assoc, List.append_assoc, trim_append_of_isBlank hb, trim_append_of_isBlank hb,
      trim_append_of_isBlank hg.isBlank, trim_append_of_isBlank hg'.isBlank]
    exact .refl _
  · by_cases ha : IsBlank a
    · rw [trim_append_isBlank ha, trim_append_isBlank ha, trim_append_isBlank hg.isBlank,
        trim_append_isBlank hg'.isBlank]
      exact .refl _
    · obtain ⟨hgap, hgap'⟩ := (h.resolve_left hb).resolve_left ha
      rw [trim_append_of_not_isBlank hb ha, trim_append_of_not_isBlank hb ha]
      refine .gap _ (fun hnil => hb ?_) hgap hgap'
      simpa [IsBlank] using hnil

/-- A change of the spacing changes one row, and its trimmed text at most by a run of spaces and tabs inside. -/
theorem Respaces.exists_splitOn (h : Respaces t u) : ∃ before row row' behind,
    t.splitOn '\n' = before ++ row :: behind ∧ u.splitOn '\n' = before ++ row' :: behind ∧
      Regapped (trim row) (trim row') := by
  cases h with
  | inside s t hg hg' =>
    obtain ⟨before, b, hs⟩ := exists_splitOn_append s
    obtain ⟨a, behind, ht⟩ := List.exists_cons_of_ne_nil (List.splitOn_ne_nil '\n' t)
    exact ⟨before, _, _, behind, splitOn_around hs ht hg.isSpacing, splitOn_around hs ht hg'.isSpacing,
      regapped_trim hg.isSpacing hg'.isSpacing (.inr (.inr ⟨hg, hg'⟩))⟩
  | front t hs hg hg' =>
    obtain ⟨before, hs⟩ := exists_splitOn_front hs
    obtain ⟨a, behind, ht⟩ := List.exists_cons_of_ne_nil (List.splitOn_ne_nil '\n' t)
    exact ⟨before, _, _, behind, splitOn_around hs ht hg, splitOn_around hs ht hg',
      regapped_trim hg hg' (.inl (by decide))⟩
  | back s ht hg hg' =>
    obtain ⟨before, b, hs⟩ := exists_splitOn_append s
    obtain ⟨a, behind, ht, ha⟩ := exists_splitOn_back ht
    exact ⟨before, _, _, behind, splitOn_around hs ht hg, splitOn_around hs ht hg',
      regapped_trim hg hg' (.inr (.inl ha))⟩

/-! ### Lines -/

theorem Regapped.eq_nil_iff (h : Regapped t u) : t = [] ↔ u = [] := by
  cases h with
  | refl => rfl
  | gap t hs hg hg' => simp [hs]

/-- A change of the spacing leaves the lines where they are, and at most changes a run inside one of them. -/
theorem Respaces.lines (h : Respaces t u) :
    List.Forall₂ (fun l l' => l.number = l'.number ∧ Regapped l.text l'.text) t.lines u.lines := by
  obtain ⟨before, row, row', behind, ht, hu, hrow⟩ := h.exists_splitOn
  have same : ∀ ls : List Line, List.Forall₂ (fun l l' => l.number = l'.number ∧ Regapped l.text l'.text) ls ls :=
    fun ls => List.forall₂_same.mpr fun l _ => ⟨rfl, .refl _⟩
  rw [lines_eq_numbered, lines_eq_numbered, ht, hu, numbered_append, numbered_append, numbered_cons row,
    numbered_cons row']
  refine List.rel_append (same _) (List.rel_append ?_ (same _))
  by_cases hnil : trim row = []
  · rw [numbered_eq_nil hnil, numbered_eq_nil (hrow.eq_nil_iff.mp hnil)]
    exact .nil
  · rw [numbered_singleton hnil, numbered_singleton (mt hrow.eq_nil_iff.mpr hnil)]
    exact .cons ⟨rfl, hrow⟩ .nil

theorem splitOn_withReturns (t : Text) :
    List.Forall₂ (fun row row' => row' = row ∨ row' = row ++ ['\r']) (t.splitOn '\n')
      ((withReturns t).splitOn '\n') := by
  induction t with
  | nil => exact .cons (.inl rfl) .nil
  | cons c t ih =>
    by_cases hc : c = '\n'
    · have split : withReturns (c :: t) = ['\r'] ++ '\n' :: withReturns t := by
        rw [hc]
        rfl
      rw [split, hc, ← List.nil_append ('\n' :: t), splitOn_append_newline, splitOn_append_newline]
      exact List.rel_append (.cons (.inr rfl) .nil) ih
    · have split : withReturns (c :: t) = [c] ++ withReturns t := by
        rw [withReturns, List.flatMap_cons, if_neg hc]
        rfl
      have single : '\n' ∉ [c] := fun h => hc (List.mem_singleton.mp h).symm
      rw [split, splitOn_append_of_not_mem single, show c :: t = [c] ++ t from rfl, splitOn_append_of_not_mem single]
      generalize t.splitOn '\n' = rows, (withReturns t).splitOn '\n' = rows' at ih ⊢
      cases ih with
      | nil => exact .nil
      | cons hrow hrows =>
        refine .cons (hrow.imp (congrArg ([c] ++ ·)) fun h => ?_) hrows
        rw [h, List.append_assoc]

theorem lines_withReturns (t : Text) : (withReturns t).lines = t.lines := by
  rw [lines_eq_numbered, lines_eq_numbered]
  refine (numbered_congr ((splitOn_withReturns t).imp fun row row' h => ?_)).symm
  rcases h with rfl | rfl
  · rfl
  · exact (trim_append_isBlank (by decide) row).symm

/-! ### Tokens -/

theorem words_gap (hg : IsGap g) (s t : Text) : words (s ++ g ++ t) = words s ++ words t := by
  obtain ⟨c, g, rfl⟩ := List.exists_cons_of_ne_nil hg.1
  obtain ⟨hc, hblank⟩ := List.forall_mem_cons.mp hg.isSpacing.isBlank
  rw [List.append_assoc, List.cons_append, words_append_cons hc, words_append_of_isBlank hblank]

theorem Regapped.words_eq (h : Regapped t u) : words t = words u := by
  cases h with
  | refl => rfl
  | gap t hs hg hg' => rw [words_gap hg, words_gap hg']

/-- A token that starts a line ends before a run of spaces and tabs. -/
theorem isPrefixOf_gap {w : Text} (hw : w.IsToken) (hg : IsGap g) (s t : Text) :
    w.isPrefixOf (s ++ g ++ t) = w.isPrefixOf s := by
  rw [Bool.eq_iff_iff, List.isPrefixOf_iff_prefix, List.isPrefixOf_iff_prefix]
  refine ⟨fun h => ?_, fun h => h.trans ((List.prefix_append s g).trans (List.prefix_append _ t))⟩
  rw [List.append_assoc] at h
  rcases List.prefix_or_prefix_of_prefix h (List.prefix_append s (g ++ t)) with hs | ⟨r, rfl⟩
  · exact hs
  · cases r with
    | nil => simp
    | cons c r =>
      obtain ⟨d, g, rfl⟩ := List.exists_cons_of_ne_nil hg.1
      obtain ⟨rfl, -⟩ := List.cons_prefix_cons.mp ((List.prefix_append_right_inj s).mp h)
      have inside := hw.2 c (List.mem_append_right _ List.mem_cons_self)
      rw [hg.isSpacing.isBlank c List.mem_cons_self] at inside
      cases inside

end Text

/-! ### Labels -/

namespace Labelling

/-- Two beginnings of lines with the same label, if any, before bodies with the same tokens. -/
inductive Same : Labelling → Labelling → Prop
  | plain {body body' : Text} (h : body.words = body'.words) : Same (.plain body) (.plain body')
  | labelled (name : Text) {body body' : Text} (h : body.words = body'.words) :
    Same (.labelled name body) (.labelled name body')
  | malformed : Same .malformed .malformed

variable {g g' : Text}

theorem words_dropWhile_isGap (t : Text) : Text.words (t.dropWhile isGap) = t.words := by
  have blank : Text.IsBlank (t.takeWhile isGap) := fun c hc =>
    (show IsSpacing (t.takeWhile isGap) from fun c hc => isGap_iff.mp (List.mem_takeWhile_imp hc)).isBlank c hc
  rw [← Text.words_append_of_isBlank blank, List.takeWhile_append_dropWhile]

theorem Same.symm {l k : Labelling} (h : Same l k) : Same k l := by
  cases h with
  | plain h => exact .plain h.symm
  | labelled name h => exact .labelled name h.symm
  | malformed => exact .malformed

theorem Same.trans {l k j : Labelling} (h : Same l k) (h' : Same k j) : Same l j := by
  cases h with
  | plain h =>
    cases h' with
    | plain h' => exact .plain (h.trans h')
  | labelled name h =>
    cases h' with
    | labelled _ h' => exact .labelled name (h.trans h')
  | malformed => exact h'

theorem ofText_at_of_ne {t : Text} (h : ∀ c rest, t.dropWhile inName ≠ ':' :: c :: rest) :
    ofText ('@' :: t) = .malformed := by
  unfold ofText
  split
  · rename_i u he
    cases he
    split
    · rename_i hdrop
      exact absurd hdrop (h _ _)
    · rfl
  · rename_i hno
    exact absurd rfl (hno t)

theorem head?_gap_ne (hg : IsGap g) {c : Char} (h : c ≠ ' ' ∧ c ≠ '\t') (t : Text) : (g ++ t).head? ≠ some c := by
  obtain ⟨d, g, rfl⟩ := List.exists_cons_of_ne_nil hg.1
  rintro ⟨⟩
  exact absurd (hg.2 c List.mem_cons_self) (not_or.mpr h)

theorem ofText_name_gap {name : Text} (hname : ∀ c ∈ name, inName c = true) (hg : IsGap g) (t : Text) :
    ofText ('@' :: name ++ g ++ t) = .malformed := by
  refine ofText_at_of_ne fun c rest h => ?_
  have stop : ∀ c ∈ (g ++ t).head?, inName c = false := fun c hc => Bool.eq_false_iff.mpr fun hin =>
    head?_gap_ne hg (inName_iff.mp hin).2 t hc
  have drop : (name ++ g ++ t).dropWhile inName = g ++ t := by
    rw [List.append_assoc, List.dropWhile_append_of_pos hname, Text.dropWhile_eq_self stop]
  exact head?_gap_ne hg (by decide) t (congrArg List.head? (drop.symm.trans h))

/-- A run of spaces and tabs behind a name and the character that ends it. -/
theorem exists_same_ofText_behind {name : Text} (hname : ∀ c ∈ name, inName c = true) {d : Char}
    (hd : inName d = false) (r t : Text) :
    ∃ l, ∀ g, IsGap g → Same (ofText ('@' :: (name ++ d :: r) ++ g ++ t)) l := by
  have take : ∀ u, (name ++ d :: u).takeWhile inName = name := fun u => by
    rw [List.takeWhile_append_of_pos hname, List.takeWhile_cons_of_neg (by simp [hd]), List.append_nil]
  have drop : ∀ u, (name ++ d :: u).dropWhile inName = d :: u := fun u => by
    rw [List.dropWhile_append_of_pos hname, List.dropWhile_cons_of_neg (by simp [hd])]
  have line : ∀ g, '@' :: (name ++ d :: r) ++ g ++ t = '@' :: (name ++ d :: (r ++ (g ++ t))) := by simp
  by_cases hcolon : d = ':'
  · subst hcolon
    cases r with
    | nil =>
      refine ⟨if !name.isEmpty then .labelled name t else .malformed, fun g hg => ?_⟩
      have blank := hg.isSpacing.isBlank
      obtain ⟨c, g, rfl⟩ := List.exists_cons_of_ne_nil hg.1
      rw [line, List.nil_append, List.cons_append, ofText_at (take _) (drop _),
        isGap_iff.mpr (hg.2 c List.mem_cons_self), Bool.and_true]
      split
      · refine .labelled name ?_
        rw [words_dropWhile_isGap, Text.words_append_of_isBlank (List.forall_mem_cons.mp blank).2]
      · exact .malformed
    | cons c r =>
      refine ⟨if !name.isEmpty && isGap c then .labelled name (r ++ ' ' :: t) else .malformed, fun g hg => ?_⟩
      rw [line, List.cons_append, ofText_at (take _) (drop _)]
      split
      · refine .labelled name ?_
        rw [words_dropWhile_isGap, ← List.append_assoc, Text.words_gap hg, Text.words_append_cons rfl]
      · exact .malformed
  · refine ⟨.malformed, fun g _ => ?_⟩
    rw [line, ofText_at_of_ne]
    · exact .malformed
    · intro c rest h
      rw [drop] at h
      exact hcolon (List.cons.inj h).1

/-- Whatever run of spaces and tabs stands at a place of a line, the line is read as one with the same label and with
    the same tokens behind it. -/
theorem exists_same_ofText {s : Text} (hs : s ≠ []) (t : Text) : ∃ l, ∀ g, IsGap g → Same (ofText (s ++ g ++ t)) l := by
  obtain ⟨c, s, rfl⟩ := List.exists_cons_of_ne_nil hs
  by_cases hc : c = '@'
  · subst hc
    by_cases hin : ∀ d ∈ s, inName d = true
    · exact ⟨.malformed, fun g hg => ofText_name_gap hin hg t ▸ .malformed⟩
    · have rest : s.dropWhile inName ≠ [] := by simpa using hin
      obtain ⟨d, r, hr⟩ := List.exists_cons_of_ne_nil rest
      have stop := Text.head?_dropWhile_eq_false inName s d (by rw [hr]; rfl)
      have whole : s.takeWhile inName ++ d :: r = s := by rw [← hr, List.takeWhile_append_dropWhile]
      rw [← whole]
      exact exists_same_ofText_behind (fun c hc => List.mem_takeWhile_imp hc) stop r t
  · refine ⟨.plain (c :: s ++ ' ' :: t), fun g hg => ?_⟩
    rw [ofText_of_head?_ne (by simpa using hc)]
    refine .plain ?_
    rw [Text.words_gap hg, Text.words_append_cons rfl]

theorem same_ofText {line line' : Text} (h : Text.Regapped line line') : Same (ofText line) (ofText line') := by
  cases h with
  | refl =>
    cases ofText line with
    | plain body => exact .plain rfl
    | labelled name body => exact .labelled name rfl
    | malformed => exact .malformed
  | gap t hs hg hg' =>
    obtain ⟨l, hl⟩ := exists_same_ofText hs t
    exact (hl _ hg).trans (hl _ hg').symm

end Labelling

/-! ### Passes -/

/-- Problems of one kind, which differ at most in the line that they quote. -/
inductive Problem.Alike : Problem → Problem → Prop
  | same (p : Problem) : Alike p p
  | definition (line line' : Text) : Alike (.definition line) (.definition line')
  | labelling (line line' : Text) : Alike (.labelling line) (.labelling line')
  | expressions (line line' : Text) : Alike (.expressions line) (.expressions line')

theorem Problem.Alike.trans {p q r : Problem} (h : Alike p q) (h' : Alike q r) : Alike p r := by
  cases h with
  | same => exact h'
  | definition line _ =>
    cases h' with
    | same => exact .definition ..
    | definition => exact .definition ..
  | labelling line _ =>
    cases h' with
    | same => exact .labelling ..
    | labelling => exact .labelling ..
  | expressions line _ =>
    cases h' with
    | same => exact .expressions ..
    | expressions => exact .expressions ..

namespace Assembly

variable {line line' body body' : Text} {labels vars : SymbolTable}

theorem agree_addLabel (h : Labelling.Same (Labelling.ofText line) (Labelling.ofText line')) (index : Nat) :
    Agree Problem.Alike Eq (addLabel labels index line) (addLabel labels index line') := by
  unfold addLabel
  generalize Labelling.ofText line = l, Labelling.ofText line' = l' at h
  cases h with
  | plain => exact .ok rfl
  | malformed => exact .error (.labelling line line')
  | labelled name =>
    simp only
    cases labels.insert? ⟨name, index⟩ with
    | some labels => exact .ok rfl
    | none => exact .error (.labelling line line')

theorem agree_addVariable (h : line.words = line'.words) (address : Nat) :
    Agree Problem.Alike Eq (addVariable vars address line) (addVariable vars address line') := by
  unfold addVariable
  rw [h]
  split
  · split
    · exact .error (.definition line line')
    · split
      · exact .error (.same _)
      · cases vars.insert? ⟨_, address⟩ with
        | some vars => exact .ok rfl
        | none => exact .error (.definition line line')
  · exact .error (.definition line line')

theorem agree_statement (h : body.words = body'.words) :
    Agree Problem.Alike Eq (statement labels vars line body) (statement labels vars line' body') := by
  unfold statement
  rw [h]
  split
  · split
    · exact .ok rfl
    · exact .error (.expressions line line')
  · split
    · exact .error (.same _)
    · exact .refl .same _
  · exact .error (.expressions line line')

theorem agree_instruction (h : Labelling.Same (Labelling.ofText line) (Labelling.ofText line')) :
    Agree Problem.Alike Eq (instruction labels vars line) (instruction labels vars line') := by
  unfold instruction
  generalize Labelling.ofText line = l, Labelling.ofText line' = l' at h
  cases h with
  | plain h => exact agree_statement h
  | labelled name h => exact agree_statement h
  | malformed => exact .error (.labelling line line')

theorem readAlike_of_regapped (h : Text.Regapped line line') : ReadAlike Problem.Alike line line' where
  kind := by
    cases h with
    | refl => rfl
    | gap t hs hg hg' => rw [Text.isPrefixOf_gap (by decide) hg, Text.isPrefixOf_gap (by decide) hg']
  labelled labels index := agree_addLabel (Labelling.same_ofText h) index
  declared vars address := agree_addVariable h.words_eq address
  coded labels vars := by
    refine (agree_instruction (Labelling.same_ofText h)).bind ?_
    rintro i _ rfl
    exact .refl .same _

/-! ### Sources -/

variable {source source' : Text}

/-- One change of the spacing. -/
theorem agree_ofSource_of_respaces (h : Text.Respaces source source') :
    Agree (SameFault Eq Problem.Alike) Eq (ofSource source) (ofSource source') :=
  agree_ofLines (h.lines.imp fun _ _ h => ⟨h.1, readAlike_of_regapped h.2⟩)

theorem SameFault.trans {e e' e'' : SourceError} (h : SameFault Eq Problem.Alike e e')
    (h' : SameFault Eq Problem.Alike e' e'') : SameFault Eq Problem.Alike e e'' :=
  ⟨h.1.trans h'.1, h.2.trans h'.2⟩

/-- Any changes of the spacing of a source leave what it assembles to as it is, or its error on the same line and of
    the same kind, and carriage returns before its line feeds change nothing. -/
theorem ofSource_respaced (source : Text) :
    (∀ source', Relation.ReflTransGen Text.Respaces source source' →
      Agree (SameFault Eq Problem.Alike) Eq (ofSource source) (ofSource source')) ∧
    ofSource (Text.withReturns source) = ofSource source := by
  constructor
  · intro source' h
    induction h with
    | refl => exact .refl (fun e => ⟨rfl, .same e.problem⟩) _
    | tail _ step ih =>
      exact ih.trans (fun e e' e'' (h : SameFault _ _ e e') h' => h.trans h') (agree_ofSource_of_respaces step)
  · rw [ofSource_eq_ofLines, ofSource_eq_ofLines, Text.lines_withReturns]

theorem ofSource_respaced_jump :
    Relation.ReflTransGen Text.Respaces "@a: HLT\nJMP  @a b".toList "@a: HLT\n\tJMP\t@a b".toList ∧
    Agree (SameFault Eq Problem.Alike) Eq (.error ⟨2, .expressions "JMP  @a b".toList⟩)
      (ofSource "@a: HLT\n\tJMP\t@a b".toList) := by
  have spaces : IsGap "  ".toList := by decide
  have tab : IsGap "\t".toList := by decide
  have inside := Text.Respaces.inside "@a: HLT\nJMP".toList "@a b".toList spaces tab
  have front := Text.Respaces.front "JMP\t@a b".toList (.inr ⟨"@a: HLT".toList, rfl⟩)
    (fun _ h => absurd h List.not_mem_nil) tab.isSpacing
  have steps := (Relation.ReflTransGen.single inside).tail front
  have fails : ofSource "@a: HLT\nJMP  @a b".toList = .error ⟨2, .expressions "JMP  @a b".toList⟩ := by rfl
  exact ⟨steps, fails ▸ (ofSource_respaced "@a: HLT\nJMP  @a b".toList).1 _ steps⟩

end Assembly
end StoredProgram
