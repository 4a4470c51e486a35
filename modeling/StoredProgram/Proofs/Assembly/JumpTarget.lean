import StoredProgram.Proofs.Assembly.Extension
import StoredProgram.Proofs.Assembly.Rewriting

/-! # Jumps to labels

The name of a label ends at a colon, a space or a tab, and may hold any other white space, while the operand of a jump
is a token. So a jump behind a source reaches a label of the source just if the name of the label is a token
(`ofSource_extended_jump_iff`). -/

namespace StoredProgram.Assembly

variable {ls ds : List Text} {source name : Text} {a : Assembly} {v : Int} {op : Operation}

/-! ### Labels -/

/-- The line with a given index has one label. -/
theorem LabelAt.unique {name' : Text} (h : LabelAt ls name v) (h' : LabelAt ls name' v) : name = name' := by
  obtain ⟨index, line, hl, ⟨body, hb⟩, rfl⟩ := h
  obtain ⟨index', line', hl', ⟨body', hb'⟩, hv⟩ := h'
  obtain rfl : index = index' := Int.ofNat.inj hv
  obtain rfl : line = line' := Option.some.inj (hl.symm.trans hl')
  have same := (Labelling.ofText_of_labelled hb).symm.trans (Labelling.ofText_of_labelled hb')
  exact (Labelling.labelled.inj same).1

/-! ### A row with an operation -/

theorem lineTexts_line (op : Operation) {t : Text} (ht : '\n' ∉ t) :
    (op.line t).lineTexts = [Text.trim (op.line t)] := by
  have mnemonic : '\n' ∉ op.mnemonic := fun h => absurd (op.isToken_mnemonic.2 _ h) (by decide)
  have single : '\n' ∉ op.line t := by simp [Operation.line, mnemonic, ht]
  exact Text.lineTexts_of_trim_ne_nil single (op.trim_ne_nil (op.words_line_eq_cons t))

theorem isPrefixOf_trim_line (op : Operation) (t : Text) : keyword.isPrefixOf (Text.trim (op.line t)) = false :=
  isPrefixOf_eq_false (op.head?_trim_ne (op.words_line_eq_cons t) (by decide))

theorem code_extended_line (op : Operation) {t : Text} (ht : '\n' ∉ t) (source : Text) :
    code (extended source op t) = code source ++ [Text.trim (op.line t)] := by
  rw [extended, code_append_newline]
  refine congrArg _ ?_
  rw [code, lineTexts_line op ht, List.filter_cons, isPrefixOf_trim_line]
  rfl

theorem declarations_extended_line (op : Operation) {t : Text} (ht : '\n' ∉ t) (source : Text) :
    declarations (extended source op t) = declarations source := by
  rw [extended, declarations_append_newline, declarations, declarations, lineTexts_line op ht, List.filter_cons,
    isPrefixOf_trim_line]
  exact List.append_nil _

/-! ### Jumps -/

theorem isToken_target (h : name.IsToken) : Text.IsToken ('@' :: name) :=
  ⟨List.cons_ne_nil _ _, List.forall_mem_cons.mpr ⟨by decide, h.2⟩⟩

/-- What refers to a label by an operand that is split at white space names it by a token. -/
theorem isToken_of_words_target {m : Mode} {t : Text} (hw : Text.words ('@' :: name) = [t]) (hd : Denotes ls ds t m v)
    (hne : name ≠ []) (h : LabelAt ls name v) : name.IsToken := by
  have first : t.head? = some '@' := (Text.head?_of_words (by rintro _ ⟨⟩; rfl) hw).symm
  have token : t.IsToken := Text.isToken_of_mem_words (hw ▸ List.mem_cons_self)
  cases hd with
  | label h' =>
    obtain rfl := h.unique h'
    exact ⟨hne, fun c hc => token.2 c (List.mem_cons_of_mem _ hc)⟩
  | number => exact absurd first (Mode.sigil_head?_ne _ _)
  | name => exact absurd first (Mode.sigil_head?_ne _ _)

theorem isToken_of_lineCommands {i : Instruction} (hi : i ≠ .halt) (hne : name ≠ []) (h : LabelAt ls name i.value)
    (hc : LineCommands ls ds (Text.trim (op.line ('@' :: name))) i) : name.IsToken := by
  obtain ⟨body, hb, hc⟩ := hc
  obtain rfl : body = Text.trim (op.line ('@' :: name)) := by
    rcases hb with ⟨-, hb⟩ | ⟨_, hb⟩
    · exact hb
    · exact absurd hb.head?_eq (op.head?_trim_ne (op.words_line_eq_cons _) (by decide))
  cases hc with
  | halt => exact absurd rfl hi
  | operation hw hd =>
    rw [Text.words_trim, Operation.words_line_eq_cons] at hw
    obtain ⟨-, hw⟩ := List.cons.inj hw
    exact isToken_of_words_target hw hd hne h

/-- A jump to a label of a source is assembled, and leads to its instruction, just if the name of the label is a
    token. -/
theorem ofSource_extended_jump_iff (h : ofSource source = .ok a) (hb : ∀ s ∈ a.vars.entries, s.address < 65535)
    (hn : a.labels.address? name = some v) (hlt : v < 65536) :
    (∃ b, ofSource (extended source .jump ('@' :: name)) = .ok b ∧
      b.instructions.getLast? = some ⟨.jump, .immediate, v⟩) ↔ name.IsToken := by
  have ha := ofSource_eq_ok_iff.mp h
  have label := (ha.means.labels name v).mp hn
  constructor
  · rintro ⟨b, hx, hlast⟩
    obtain ⟨hname, hnl⟩ := (labelsFit_of_assembles ha).named _ (SymbolTable.address?_eq_some_iff.mp hn)
    have single : '\n' ∉ '@' :: name := by simp [hnl]
    rw [ofSource_eq_ok_iff, code_extended_line .jump single, declarations_extended_line .jump single] at hx
    obtain ⟨i, hl, hi⟩ := hx.exists_getLast?
    obtain rfl := Option.some.inj (hl.symm.trans hlast)
    have jumps : (⟨.jump, .immediate, v⟩ : Instruction) ≠ .halt := fun h => nomatch congrArg Instruction.operation h
    exact isToken_of_lineCommands jumps hname.1 label.append hi
  · intro ht
    have hat := isToken_target ht
    have hd : Denotes (code source ++ [Operation.jump.line ('@' :: name)]) (declarations source) ('@' :: name)
        .immediate v := .label label.append
    obtain ⟨b, hx⟩ := (exists_ofSource_extended_iff h hb hat).mpr ⟨.immediate, v, hd, hlt⟩
    exact ⟨b, hx, getLast?_instructions_extended hx hat hd hlt⟩

theorem ofSource_extended_jump_iff_loop :
    (∃ b, ofSource (extended "$define x\n@loop: LDA Rx".toList .jump "@loop".toList) = .ok b ∧
      b.instructions.getLast? = some ⟨.jump, .immediate, 0⟩) ↔ Text.IsToken "loop".toList := by
  have h : ofSource "$define x\n@loop: LDA Rx".toList = .ok ⟨[⟨.load, .direct, 1⟩], [327681],
      ⟨[⟨"loop".toList, 0⟩], by simp, by simp⟩, ⟨[⟨"x".toList, 1⟩], by simp, by simp⟩⟩ := by rfl
  exact ofSource_extended_jump_iff h (by decide) (by rfl) (by decide)

/-- A jump to a label whose name holds a no-break space is refused. -/
theorem ofSource_extended_jump_no_break_space :
    ∃ a, ofSource "@a\u00a0b: HLT".toList = .ok a ∧ (∀ s ∈ a.vars.entries, s.address < 65535) ∧
      a.labels.address? "a\u00a0b".toList = some 0 ∧
      ofSource (extended "@a\u00a0b: HLT".toList .jump "@a\u00a0b".toList) =
        .error ⟨2, .expressions "JMP @a\u00a0b".toList⟩ :=
  ⟨⟨[.halt], [0], ⟨[⟨"a\u00a0b".toList, 0⟩], by simp, by simp⟩, .empty⟩, by rfl, by decide, by rfl, by rfl⟩

end StoredProgram.Assembly
