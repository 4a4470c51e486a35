import Mathlib.Data.List.DropRight
import StoredProgram.Machine.Dump
import StoredProgram.Proofs.Instruction.Text
import StoredProgram.Proofs.Machine.Step
import StoredProgram.Proofs.Text.Table

/-! # What a dump shows

Every machine has a dump (`dump_eq`). It shows a row for each of the first registers and hides the others, of which
nothing is to be seen (`Idle`): it shows no more of them than it has to (`shownLength_le`), and no register that a
machine does not have. The line of a register is found five lines behind its index, and an arrow stands only in the one
of the program counter (`arrow_infix_iff`). -/

namespace StoredProgram.Machine

variable {m : Machine} {index k n : Nat} {w : Word} {d : Char} {l t : Text}

/-- The registers from an index on are zero, behind the program, and not at the program counter. -/
def Idle (m : Machine) (n : Nat) : Prop :=
  ∀ (index : Nat) (w : Word), n ≤ index → m.register? index = some w →
    w = 0 ∧ m.programLength ≤ index ∧ m.pc ≠ index

theorem exists_register? (h : index < m.size) : ∃ w, m.register? index = some w :=
  ⟨m.registers[index], (register?_natCast m index).trans (Array.getElem?_eq_getElem h)⟩

/-! ### Registers in use -/

/-- The registers are those in use and zeros behind them. -/
theorem exists_zeros (m : Machine) :
    ∃ used zeros, m.registers.toList = used ++ zeros ∧ used.length = m.usedLength ∧ (∀ w ∈ zeros, w = 0) ∧
      ∀ w ∈ used.getLast?, w ≠ 0 := by
  refine ⟨m.registers.toList.rdropWhile (· == 0), m.registers.toList.rtakeWhile (· == 0),
    (List.rdropWhile_append_rtakeWhile ..).symm, ?_, fun w hw => ?_, fun w hw => ?_⟩
  · rw [usedLength, List.rdropWhile, List.length_reverse]
  · simpa using List.mem_rtakeWhile_imp hw
  · obtain ⟨used, rfl⟩ := List.mem_getLast?_eq_getLast hw
    exact fun h0 => List.rdropWhile_last_not _ _ used (beq_iff_eq.mpr h0)

theorem usedLength_le (m : Machine) : m.usedLength ≤ m.size := by
  obtain ⟨used, zeros, registers, count, -⟩ := m.exists_zeros
  rw [size, ← Array.length_toList, registers, List.length_append, count]
  exact Nat.le_add_right ..

theorem eq_zero_of_usedLength_le (h : m.usedLength ≤ index) (hw : m.register? index = some w) : w = 0 := by
  obtain ⟨used, zeros, registers, count, zero, -⟩ := m.exists_zeros
  rw [register?_natCast, ← Array.getElem?_toList, registers, List.getElem?_append_right (count ▸ h)] at hw
  exact zero w (List.mem_of_getElem? hw)

/-- The last register in use is not zero. -/
theorem exists_ne_zero_of_lt_usedLength (h : n < m.usedLength) :
    ∃ (index : Nat) (w : Word), n ≤ index ∧ m.register? index = some w ∧ w ≠ 0 := by
  obtain ⟨used, zeros, registers, count, -, last⟩ := m.exists_zeros
  have here : used.length - 1 < used.length := by omega
  refine ⟨used.length - 1, used[used.length - 1], by omega, ?_, last _ ?_⟩
  · rw [register?_natCast, ← Array.getElem?_toList, registers, List.getElem?_append_left here,
      List.getElem?_eq_getElem here]
  · rw [List.getLast?_eq_getElem?, List.getElem?_eq_getElem here]
    rfl

/-! ### The registers shown -/

theorem shownLength_le_size (m : Machine) : m.shownLength ≤ m.size := Nat.min_le_left ..

theorem idle_shownLength (m : Machine) : Idle m m.shownLength := by
  intro index w h hw
  have inside := (bounds_of_register? hw).2
  have used := m.usedLength_le
  unfold shownLength at h
  refine ⟨eq_zero_of_usedLength_le (by omega) hw, by omega, by omega⟩

/-- A dump shows no more registers than it has to, if the program counter is not behind them all. -/
theorem shownLength_le (hpc : m.pc < m.size) (h : Idle m n) : m.shownLength ≤ n := by
  refine Nat.le_of_not_lt fun hlt => ?_
  have inside : n < m.size := Nat.lt_of_lt_of_le hlt m.shownLength_le_size
  obtain ⟨w, hw⟩ := exists_register? inside
  obtain ⟨-, program, -⟩ := h n w (Nat.le_refl n) hw
  -- So it is not for the program that more registers are shown.
  unfold shownLength at hlt
  by_cases used : n < m.usedLength
  · obtain ⟨index, w, hi, hw, ne_zero⟩ := exists_ne_zero_of_lt_usedLength used
    exact ne_zero (h index w hi hw).1
  · obtain ⟨counter, hc⟩ := Int.eq_ofNat_of_zero_le (show 0 ≤ m.pc by omega)
    obtain ⟨w, hw⟩ := exists_register? (m := m) (show counter < m.size by omega)
    exact (h counter w (by omega) hw).2.2 hc

theorem shownLength_eq_size (h : m.size ≤ m.pc) : m.shownLength = m.size := by
  unfold shownLength
  omega

theorem lt_shownLength (h0 : 0 ≤ m.pc) (h : m.pc < m.size) : m.pc < m.shownLength := by
  unfold shownLength
  omega

/-- The rows of the table of registers. -/
def registerRows (m : Machine) : List (Nat × Word) :=
  ((m.registers.toList.take m.shownLength).zipIdx).map fun (w, index) => (index, w)

theorem getElem?_registerRows_iff {r : Nat × Word} :
    m.registerRows[k]? = some r ↔ k < m.shownLength ∧ r.1 = k ∧ m.register? k = some r.2 := by
  obtain ⟨index, w⟩ := r
  rw [registerRows, List.getElem?_map, List.getElem?_zipIdx, List.getElem?_take, register?_natCast]
  by_cases hk : k < m.shownLength
  · rw [if_pos hk, Array.getElem?_toList]
    cases m.registers[k]? <;> simp [hk, eq_comm]
  · rw [if_neg hk]
    simp [hk]

theorem length_registerRows (m : Machine) : m.registerRows.length = m.shownLength := by
  rw [registerRows, List.length_map, List.length_zipIdx, List.length_take]
  exact Nat.min_eq_left m.shownLength_le_size

/-! ### Lines -/

/-- What the cell of an instruction shows. -/
inductive Notes (m : Machine) (index : Nat) (w : Word) : Text → Prop
  | instruction {i : Instruction} (inside : index < m.programLength) (h : Instruction.decode w = .ok i) :
    Notes m index w i.text
  | undecodable {e : DecodeError} (inside : index < m.programLength) (h : Instruction.decode w = .error e) :
    Notes m index w "?".toList
  | behind (h : m.programLength ≤ index) : Notes m index w []

theorem notes_note (m : Machine) (index : Nat) (w : Word) : Notes m index w (m.note index w) := by
  unfold note
  split
  · rename_i inside
    split
    · rename_i h
      exact .instruction inside h
    · rename_i h
      exact .undecodable inside h
  · rename_i behind
    exact .behind (Nat.le_of_not_lt behind)

/-- What points at the register of the program counter. -/
def arrow : Text := "* --> ".toList

/-- The cell with the address of a register. -/
def addressCell (m : Machine) (index : Nat) : Text :=
  (if m.pc = index then arrow else []) ++ "R[".toList ++ Text.ofNat index ++ "] =".toList

/-- The column that frames the table of registers. -/
def frame : List (Column Text) := [⟨"Registers".toList, .left, id⟩]

/-- The lines of the table of registers. -/
def table (m : Machine) : List Text := Table.layout m.registerColumns m.registerRows

/-- The lines of a dump. -/
def dumpLines (m : Machine) : List Text := m.status :: Table.layout frame m.table

/-- The line of a register, given what the cell of its instruction shows. -/
def registerLine (m : Machine) (index : Nat) (w : Word) (note : Text) : Text :=
  Table.row frame m.table
    [Table.row m.registerColumns m.registerRows [m.addressCell index, Text.ofInt w.toInt, note]]

theorem length_dumpLines (m : Machine) : m.dumpLines.length = m.shownLength + 7 := by
  rw [dumpLines, List.length_cons, Table.length_layout, table, Table.length_layout, length_registerRows]

theorem map_cell_registerColumns (m : Machine) (index : Nat) (w : Word) :
    (m.registerColumns.map fun c => c.cell (index, w)) =
      [m.addressCell index, Text.ofInt w.toInt, m.note index w] := rfl

theorem map_cell_frame (l : Text) : (frame.map fun c => c.cell l) = [l] := rfl

theorem getElem?_dumpLines (h : index < m.shownLength) (hw : m.register? index = some w) :
    m.dumpLines[index + 5]? = some (m.registerLine index w (m.note index w)) := by
  have row := Table.getElem?_layout_add_two m.registerColumns
    (getElem?_registerRows_iff.mpr ⟨h, rfl, hw⟩ : m.registerRows[index]? = some (index, w))
  rw [map_cell_registerColumns, ← table] at row
  have line := Table.getElem?_layout_add_two frame row
  rw [map_cell_frame] at line
  rw [dumpLines, List.getElem?_cons_succ]
  exact line

/-! ### Stars, line feeds and escape characters -/

section

variable (hd : d = '*' ∨ d = '\n' ∨ d = '\x1b')
include hd

theorem not_mem_ofInt_of_foreign (z : Int) : d ∉ Text.ofInt z := fun h => by
  rcases Text.mem_ofInt h with rfl | h
  · exact absurd hd (by decide)
  · rcases hd with rfl | rfl | rfl <;> exact absurd h (by decide)

theorem Notes.not_mem (h : Notes m index w t) : d ∉ t := by
  rcases hd with rfl | rfl | rfl
  all_goals
    cases h with
    | instruction => exact fun h => absurd (Instruction.mem_text h) (by decide)
    | undecodable => decide
    | behind => exact List.not_mem_nil

theorem not_mem_status (m : Machine) : d ∉ m.status := by
  have pc := not_mem_ofInt_of_foreign hd m.pc
  have acc := not_mem_ofInt_of_foreign hd m.acc.toInt
  unfold status
  simp only [List.mem_append, List.mem_cons, not_or]
  refine ⟨⟨⟨⟨?_, pc⟩, ?_⟩, acc⟩, ?_, ?_⟩
  · rcases hd with rfl | rfl | rfl <;> decide
  · rcases hd with rfl | rfl | rfl <;> decide
  · rcases hd with rfl | rfl | rfl <;> decide
  · rcases hd with rfl | rfl | rfl <;> cases m.completed <;> decide

theorem not_mem_titles (m : Machine) : ∀ c ∈ m.registerColumns, d ∉ c.title := by
  simp only [registerColumns, List.forall_mem_cons]
  rcases hd with rfl | rfl | rfl <;> decide

/-- No cell has a line feed or an escape character, and only an arrow has a star. -/
theorem star_of_mem_cell (ht : t ∈ [m.addressCell index, Text.ofInt w.toInt, m.note index w])
    (h : d ∈ t) : d = '*' ∧ m.pc = index := by
  simp only [List.mem_cons, List.not_mem_nil, or_false] at ht
  rcases ht with rfl | rfl | rfl
  · simp only [addressCell, List.mem_append] at h
    rcases h with ((h | h) | h) | h
    · split at h
      · rename_i here
        refine ⟨hd.resolve_right ?_, here⟩
        rintro (rfl | rfl) <;> exact absurd h (by decide)
      · cases h
    · rcases hd with rfl | rfl | rfl <;> exact absurd h (by decide)
    · rcases hd with rfl | rfl | rfl <;> exact absurd (Text.isDigit_of_mem_ofNat _ h) (by decide)
    · rcases hd with rfl | rfl | rfl <;> exact absurd h (by decide)
  · exact absurd h (not_mem_ofInt_of_foreign hd _)
  · exact absurd h ((m.notes_note index w).not_mem hd)

end

theorem not_mem_cell (hd : d = '\n' ∨ d = '\x1b') : ∀ c ∈ m.registerColumns, ∀ r ∈ m.registerRows, d ∉ c.cell r := by
  intro c hc r _ h
  have cell := List.mem_map_of_mem (f := fun c => c.cell (r.1, r.2)) hc
  rw [map_cell_registerColumns] at cell
  obtain ⟨rfl, -⟩ := star_of_mem_cell (Or.inr hd) cell h
  exact absurd hd (by decide)

theorem not_mem_table (hd : d = '\n' ∨ d = '\x1b') : ∀ l ∈ m.table, d ∉ l := by
  refine Table.not_mem_layout ?_ (not_mem_titles (Or.inr hd) m) (not_mem_cell hd)
  rcases hd with rfl | rfl <;> decide

theorem not_mem_newline (m : Machine) : ∀ l ∈ m.dumpLines, '\n' ∉ l := by
  rw [dumpLines, List.forall_mem_cons]
  refine ⟨not_mem_status (Or.inr (Or.inl rfl)) m, Table.not_mem_layout (by decide) (by decide) ?_⟩
  rw [frame, List.forall_mem_singleton]
  exact not_mem_table (Or.inl rfl)

/-- Nothing in a dump is without a width. -/
theorem dump_eq (m : Machine) : m.dump = some m.dumpLines := by
  have colours : '\x1b' = '\n' ∨ '\x1b' = '\x1b' := Or.inr rfl
  have inner : m.registerLines = some m.table :=
    Table.lines_of_not_mem (not_mem_titles (Or.inr colours) m) (not_mem_cell colours)
  have outer : Table.lines frame m.table = some (Table.layout frame m.table) :=
    Table.lines_of_not_mem (by decide) (List.forall_mem_singleton.mpr (not_mem_table colours))
  rw [dump, inner, Option.bind_eq_bind, Option.bind_some, ← frame, outer]
  rfl

/-- Apart from the lines of the registers, no line has a star. -/
theorem getElem?_dumpLines_cases (h : m.dumpLines[k]? = some l) :
    (∃ index w, k = index + 5 ∧ index < m.shownLength ∧ m.register? index = some w ∧
      l = m.registerLine index w (m.note index w)) ∨ '*' ∉ l := by
  have foreign : '*' = '*' ∨ '*' = '\n' ∨ '*' = '\x1b' := Or.inl rfl
  have framed : ∀ line : Text, '*' ∉ line → '*' ∉ Table.row frame m.table [line] := fun line free =>
    Table.not_mem_row (by decide) (List.forall_mem_singleton.mpr free)
  rw [dumpLines] at h
  cases k with
  | zero =>
    cases h
    exact Or.inr (not_mem_status foreign m)
  | succ k =>
    rw [List.getElem?_cons_succ] at h
    -- First the lines of the outer table, then those of the inner one, which are its rows.
    rcases Table.getElem?_layout_iff.mp h with ⟨-, rfl⟩ | ⟨-, rfl⟩ | ⟨i, line, rfl, hline, rfl⟩ | ⟨-, rfl⟩
    · exact Or.inr (framed _ (by decide))
    · exact Or.inr (Table.not_mem_rule (by decide) (by decide))
    · rw [map_cell_frame]
      rcases Table.getElem?_layout_iff.mp hline with ⟨-, rfl⟩ | ⟨-, rfl⟩ | ⟨index, r, rfl, hr, rfl⟩ | ⟨-, rfl⟩
      · exact Or.inr (framed _ (Table.not_mem_row (by decide) (List.forall_mem_map.mpr (not_mem_titles foreign m))))
      · exact Or.inr (framed _ (Table.not_mem_rule (by decide) (by decide)))
      · obtain ⟨shown, hi, hw⟩ := getElem?_registerRows_iff.mp hr
        refine Or.inl ⟨index, r.2, rfl, shown, hw, ?_⟩
        rw [registerLine, ← map_cell_registerColumns, ← hi]
      · exact Or.inr (framed _ (Table.not_mem_rule (by decide) (by decide)))
    · exact Or.inr (Table.not_mem_rule (by decide) (by decide))

theorem pc_eq_of_star_mem_registerLine (h : '*' ∈ m.registerLine index w (m.note index w)) : m.pc = index := by
  refine Classical.byContradiction fun elsewhere => ?_
  have cells : ∀ t ∈ [m.addressCell index, Text.ofInt w.toInt, m.note index w], '*' ∉ t := fun _ ht hd =>
    elsewhere (star_of_mem_cell (Or.inl rfl) ht hd).2
  have inner : '*' ∉ Table.row m.registerColumns m.registerRows _ := Table.not_mem_row (by decide) cells
  exact absurd h (Table.not_mem_row (by decide) (List.forall_mem_singleton.mpr inner))

theorem arrow_infix_registerLine (h : m.pc = index) : arrow <:+: m.registerLine index w t := by
  have cell : arrow <:+: m.addressCell index := by
    rw [addressCell, if_pos h, List.append_assoc, List.append_assoc]
    exact (List.prefix_append ..).isInfix
  have inner : m.addressCell index <:+: Table.row m.registerColumns m.registerRows [_, Text.ofInt w.toInt, t] :=
    Table.infix_row (k := 0) rfl rfl
  exact cell.trans (inner.trans (Table.infix_row (k := 0) rfl rfl))

theorem exists_arrow (h0 : 0 ≤ m.pc) (h : m.pc < m.size) :
    ∃ (k : Nat) (l : Text), (k : Int) = m.pc + 5 ∧ m.dumpLines[k]? = some l ∧ arrow <:+: l := by
  have shown := lt_shownLength h0 h
  obtain ⟨index, hi⟩ := Int.eq_ofNat_of_zero_le h0
  rw [hi] at shown h
  obtain ⟨w, hw⟩ := exists_register? (Int.ofNat_lt.mp h)
  exact ⟨index + 5, _, by omega, getElem?_dumpLines (Int.ofNat_lt.mp shown) hw, arrow_infix_registerLine hi⟩

/-- An arrow stands in the line of the register of the program counter, and nowhere else. -/
theorem arrow_infix_iff (h : m.dumpLines[k]? = some l) : arrow <:+: l ↔ (k : Int) = m.pc + 5 ∧ 0 ≤ m.pc ∧ m.pc < m.size := by
  constructor
  · intro ha
    have star : '*' ∈ l := ha.subset (by decide)
    rcases getElem?_dumpLines_cases h with ⟨index, w, rfl, shown, hw, rfl⟩ | free
    · have here := pc_eq_of_star_mem_registerLine star
      have := m.shownLength_le_size
      omega
    · exact absurd star free
  · rintro ⟨hk, h0, hlt⟩
    obtain ⟨k', l', hk', hl', ha⟩ := exists_arrow h0 hlt
    obtain rfl : k = k' := by omega
    rw [h] at hl'
    cases hl'
    exact ha

/-- There is one arrow, unless the program counter is the address of no register. -/
theorem unique_arrow_iff (m : Machine) :
    (∃! k : Nat, ∃ l, m.dumpLines[k]? = some l ∧ arrow <:+: l) ↔ 0 ≤ m.pc ∧ m.pc < m.size := by
  constructor
  · rintro ⟨k, ⟨l, hl, ha⟩, -⟩
    exact ((arrow_infix_iff hl).mp ha).2
  · rintro ⟨h0, hlt⟩
    obtain ⟨k, l, hk, hl, ha⟩ := exists_arrow h0 hlt
    refine ⟨k, ⟨l, hl, ha⟩, fun k' ⟨l', hl', ha'⟩ => ?_⟩
    have := ((arrow_infix_iff hl').mp ha').1
    omega

/-! ### Dumps -/

/-- The lines of a dump show the registers below an index, with an arrow at the one of the program counter. -/
structure Dumps (m : Machine) (shown : Nat) (ls : List Text) : Prop where
  shown_le : shown ≤ m.size
  idle : Idle m shown
  least : m.pc < m.size → ∀ n, Idle m n → shown ≤ n
  all : m.size ≤ m.pc → shown = m.size
  length : ls.length = shown + 7
  unbroken : ∀ l ∈ ls, '\n' ∉ l
  /-- Each register shown has its line, and there is a register for each of these lines. -/
  line : ∀ index < shown, ∃ w note, m.register? index = some w ∧ Notes m index w note ∧
    ls[index + 5]? = some (m.registerLine index w note)
  arrow_infix : ∀ (k : Nat) (l : Text), ls[k]? = some l →
    (arrow <:+: l ↔ (k : Int) = m.pc + 5 ∧ 0 ≤ m.pc ∧ m.pc < m.size)
  unique_arrow : (∃! k : Nat, ∃ l, ls[k]? = some l ∧ arrow <:+: l) ↔ 0 ≤ m.pc ∧ m.pc < m.size

/-- There is a dump of every machine. It hides no register in which there is something to be seen, and marks the one of
    the program counter. -/
theorem exists_dumps (m : Machine) : ∃ shown ls, m.dump = some ls ∧ Dumps m shown ls := by
  refine ⟨m.shownLength, m.dumpLines, m.dump_eq, {
    shown_le := m.shownLength_le_size
    idle := m.idle_shownLength
    least := fun hpc _ => shownLength_le hpc
    all := shownLength_eq_size
    length := m.length_dumpLines
    unbroken := m.not_mem_newline
    line := fun index h => ?_
    arrow_infix := fun _ _ => arrow_infix_iff
    unique_arrow := m.unique_arrow_iff }⟩
  obtain ⟨w, hw⟩ := exists_register? (Nat.lt_of_lt_of_le h m.shownLength_le_size)
  exact ⟨w, _, hw, m.notes_note index w, getElem?_dumpLines h hw⟩

/-- The first word has been overwritten, and the program counter is at the second one. -/
theorem exists_dumps_overwritten :
    ∃ ls, dump { registers := #[-1, 0, 5, 0], pc := 1, programLength := 2 } = some ls ∧
      Dumps { registers := #[-1, 0, 5, 0], pc := 1, programLength := 2 } 3 ls ∧
      note { registers := #[-1, 0, 5, 0], pc := 1, programLength := 2 } 0 (-1) = "?".toList := by
  obtain ⟨shown, ls, hls, dumps⟩ := exists_dumps { registers := #[-1, 0, 5, 0], pc := 1, programLength := 2 }
  have lower : 3 ≤ shown := Nat.le_of_not_lt fun h => absurd (dumps.idle 2 5 (by omega) rfl).1 (by decide)
  have upper : shown ≤ 3 := dumps.least (by decide) 3 fun index w h hw => by
    have last : index < 4 := Int.ofNat_lt.mp (bounds_of_register? hw).2
    obtain rfl : index = 3 := by omega
    cases hw
    decide
  exact ⟨ls, hls, Nat.le_antisymm upper lower ▸ dumps, by rfl⟩

end StoredProgram.Machine
