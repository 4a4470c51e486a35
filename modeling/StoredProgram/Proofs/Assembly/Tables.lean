import StoredProgram.Proofs.Assembly.Rewriting

/-! # Tables of an assembled source

A source is read three times, and each time its lines are counted alike: the words, the labels and the variables of
an assembled source all go by the same instruction lines and the same definitions (`Fits`), wherever blank lines
and definitions stand. -/

namespace StoredProgram.Assembly

variable {source source' : Text} {a : Assembly}

/-- The number of lines of a source that are of a kind, less the white space around them. -/
def countLines (source : Text) (kind : Text → Bool) : Nat := ((source.splitOn '\n').map Text.trim).countP kind

/-- The words, instructions and tables of an assembly belong to a source. -/
structure Fits (source : Text) (a : Assembly) : Prop where
  /-- There is a word for each line that is neither blank nor a definition. -/
  length_words : a.words.length = countLines source fun line => !line.isEmpty && !keyword.isPrefixOf line
  length_instructions : a.instructions.length = a.words.length
  /-- Each word fits in 22 bits and is decoded to its instruction. -/
  decoded : ∀ (index : Nat) (w : Word), a.words[index]? = some w →
    ∃ i, a.instructions[index]? = some i ∧ Instruction.decode w = .ok i ∧ 0 ≤ w.toInt ∧ w.toInt < 4194304
  address_label : ∀ name v, a.labels.address? name = some v ↔ LabelAt (code source) name v
  name_label : ∀ name v, a.labels.name? v = some name ↔ LabelAt (code source) name v
  /-- The variables are the declared names in their order, one address after the other behind the program. -/
  vars : ∃ names, List.Forall₂ Declares (declarations source) names ∧
    names.length = countLines source keyword.isPrefixOf ∧
    a.vars.entries = (names.zipIdx a.words.length).map fun (name, address) => ⟨name, address⟩
  label_lt_variable : ∀ s ∈ a.labels.entries, ∀ r ∈ a.vars.entries, s.address < r.address

/-! ### Counting lines -/

theorem length_code : (code source).length = countLines source fun line => !line.isEmpty && !keyword.isPrefixOf line := by
  rw [code, Text.lineTexts, List.filter_filter, ← List.countP_eq_length_filter, countLines]
  simp only [Bool.and_comm]

theorem length_declarations : (declarations source).length = countLines source keyword.isPrefixOf := by
  rw [declarations, Text.lineTexts, List.filter_filter, ← List.countP_eq_length_filter, countLines]
  refine List.countP_congr fun line _ => ?_
  cases line with
  | nil =>
    constructor
    · intro h
      cases h
    · intro h
      cases h
  | cons c t => rw [List.isEmpty_cons, Bool.not_false, Bool.and_true]

/-! ### Words -/

theorem Assembles.length_words {ls ds : List Text} (h : Assembles ls ds a) : a.words.length = ls.length :=
  h.words.length_eq.symm.trans h.instructions.length_eq.symm

theorem toInt_lt_of_encode {i : Instruction} {w : Word} (h : i.encode = .ok w) : 0 ≤ w.toInt ∧ w.toInt < 4194304 := by
  obtain ⟨h0, hlt, hw⟩ := Instruction.encode_eq_ok_iff.mp h
  have hop := i.operation.code_lt
  have hm := i.mode.code_lt
  omega

theorem Assembles.exists_decode {ls ds : List Text} (h : Assembles ls ds a) {index : Nat} {w : Word}
    (hw : a.words[index]? = some w) :
    ∃ i, a.instructions[index]? = some i ∧ Instruction.decode w = .ok i ∧ 0 ≤ w.toInt ∧ w.toInt < 4194304 := by
  obtain ⟨i, hi, hd⟩ := Instruction.exists_decode_of_getElem? h.words hw
  exact ⟨i, hi, hd, toInt_lt_of_encode (Instruction.decode_eq_ok_iff_encode.mp hd)⟩

/-! ### Tables -/

theorem Assembles.label_lt_variable {ls ds : List Text} (h : Assembles ls ds a) {s r : Symbol}
    (hs : s ∈ a.labels.entries) (hr : r ∈ a.vars.entries) : s.address < r.address := by
  have below := (SymbolPass.address_lt_of_mem_symbols (h.labels ▸ hs)).2
  have behind := (SymbolPass.address_lt_of_mem_symbols (h.vars ▸ hr)).1
  omega

/-- An assembly fits its source, and a source with the same instruction lines and the same definitions has the same
    assembly. -/
theorem ofSource_fits (h : ofSource source = .ok a) :
    Fits source a ∧ ∀ source', code source' = code source → declarations source' = declarations source →
      ofSource source' = .ok a := by
  have h := ofSource_eq_ok_iff.mp h
  refine ⟨?_, fun source' hc hd => ofSource_eq_ok_iff.mpr (hc.symm ▸ hd.symm ▸ h)⟩
  exact {
    length_words := h.length_words.trans length_code
    length_instructions := h.words.length_eq
    decoded := fun _ _ => h.exists_decode
    address_label := h.means.labels
    name_label := fun name v => by
      rw [SymbolTable.name?_eq_some_iff, ← SymbolTable.address?_eq_some_iff, h.means.labels]
    vars := by
      obtain ⟨names, hn, hv⟩ := h.exists_names
      exact ⟨names, hn, hn.length_eq.symm.trans length_declarations, h.length_words ▸ hv⟩
    label_lt_variable := fun _ hs _ hr => h.label_lt_variable hs hr }

theorem ofSource_fits_label_behind_definition :
    ∃ a, ofSource "\n$define x\n@go: LDA #7\n$define y\n\nJMP @go".toList = .ok a ∧
      Fits "\n$define x\n@go: LDA #7\n$define y\n\nJMP @go".toList a ∧ a.words = [262151, 3932160] ∧
      ofSource "$define x\n$define y\n@go: LDA #7\nJMP @go".toList = .ok a := by
  have h : ofSource "\n$define x\n@go: LDA #7\n$define y\n\nJMP @go".toList =
      .ok ⟨[⟨.load, .immediate, 7⟩, ⟨.jump, .immediate, 0⟩], [262151, 3932160], ⟨[⟨"go".toList, 0⟩], by simp, by simp⟩,
        ⟨[⟨"x".toList, 2⟩, ⟨"y".toList, 3⟩], by simp, by simp⟩⟩ := by rfl
  obtain ⟨fits, same⟩ := ofSource_fits h
  exact ⟨_, h, fits, rfl, same _ (by decide +kernel) (by decide +kernel)⟩

end StoredProgram.Assembly
