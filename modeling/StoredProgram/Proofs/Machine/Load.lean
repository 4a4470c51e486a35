import StoredProgram.Proofs.Machine.Step

/-! # Loaded machines

A program is loaded if its registers can be counted and memory has so many (`load_eq_some_iff`). As long as their
number does not wrap around, the machine holds the program, the initial words behind it, and zeros (`eq_filled`). Where
it wraps around, the registers are cut off, but no other word comes in (`of_register?_load`). -/

namespace StoredProgram

variable {counting : Counting}

theorem Counting.add?_eq_some_iff {a b n : Nat} :
    counting.add? a b = some n ↔ (counting = .checked → a + b < UInt64.size) ∧ n = (a + b) % UInt64.size := by
  cases counting with
  | wrapping => simp [add?, eq_comm]
  | checked =>
    rw [add?, Option.ite_none_right_eq_some, Option.some.injEq]
    constructor
    · rintro ⟨hlt, rfl⟩
      exact ⟨fun _ => hlt, (Nat.mod_eq_of_lt hlt).symm⟩
    · rintro ⟨fits, rfl⟩
      exact ⟨fits rfl, (Nat.mod_eq_of_lt (fits rfl)).symm⟩

namespace Machine

variable {ws initial : List Word} {blank : UInt64} {m : Machine} {w : Word} {address : Int} {n : Nat}

/-- The machine with a program, initial words behind it, and some more registers with zeros. -/
def filled (ws initial : List Word) (blank : Nat) : Machine where
  registers := (ws ++ initial ++ List.replicate blank 0).toArray
  programLength := ws.length

/-! ### Cut and filled words -/

theorem length_resize (ws : List Word) (n : Nat) : (resize ws n).length = n := by
  rw [resize, List.length_append, List.length_take, List.length_replicate]
  omega

theorem resize_of_le (h : ws.length ≤ n) : resize ws n = ws ++ List.replicate (n - ws.length) 0 := by
  rw [resize, List.take_of_length_le h]

theorem resize_of_ge (h : n ≤ ws.length) : resize ws n = ws.take n := by
  rw [resize, Nat.sub_eq_zero_of_le h, List.replicate_zero, List.append_nil]

theorem of_getElem?_resize {index : Nat} (h : (resize ws n)[index]? = some w) :
    ws[index]? = some w ∨ ws.length ≤ index ∧ w = 0 := by
  rw [resize, List.getElem?_append] at h
  split at h
  · rw [List.getElem?_take] at h
    split at h
    · exact Or.inl h
    · cases h
  · rename_i behind
    obtain ⟨inside, rfl⟩ := List.getElem?_eq_some_iff.mp h
    rw [List.length_take] at behind
    rw [List.length_replicate, List.length_take] at inside
    exact Or.inr ⟨by omega, List.getElem_replicate ..⟩

/-! ### What a machine holds -/

/-- A program is loaded just if the additions do not fail and memory has as many registers as they give, even while
    the words are put into it. -/
theorem load_eq_some_iff :
    load counting ws initial blank = some m ↔
      (counting = .checked → ws.length + initial.length + blank.toNat < UInt64.size) ∧
        ws.length + initial.length < memoryLimit ∧
        (ws.length + initial.length + blank.toNat) % UInt64.size < memoryLimit ∧
        m = { registers :=
                (resize (ws ++ initial) ((ws.length + initial.length + blank.toNat) % UInt64.size)).toArray,
              programLength := ws.length } := by
  unfold load allocate
  simp only [Option.bind_eq_bind, Option.bind_eq_some_iff, Counting.add?_eq_some_iff, Option.ite_none_right_eq_some,
    Option.some.injEq, Option.pure_def, List.length_append]
  constructor
  · rintro ⟨count, ⟨counted, rfl⟩, registers, ⟨⟨words, room⟩, rfl⟩, rfl⟩
    exact ⟨counted, words, room, rfl⟩
  · rintro ⟨counted, words, room, rfl⟩
    exact ⟨_, ⟨counted, rfl⟩, _, ⟨⟨words, room⟩, rfl⟩, rfl⟩

theorem size_load (hm : load counting ws initial blank = some m) :
    m.size = (ws.length + initial.length + blank.toNat) % UInt64.size := by
  obtain ⟨-, -, -, rfl⟩ := load_eq_some_iff.mp hm
  rw [size, List.size_toArray, length_resize]

theorem pc_load (hm : load counting ws initial blank = some m) : m.pc = 0 := by
  obtain ⟨-, -, -, rfl⟩ := load_eq_some_iff.mp hm
  rfl

theorem steps_load (hm : load counting ws initial blank = some m) : m.steps = 0 := by
  obtain ⟨-, -, -, rfl⟩ := load_eq_some_iff.mp hm
  rfl

theorem programLength_load (hm : load counting ws initial blank = some m) : m.programLength = ws.length := by
  obtain ⟨-, -, -, rfl⟩ := load_eq_some_iff.mp hm
  rfl

theorem eq_filled (hm : load counting ws initial blank = some m)
    (h : ws.length + initial.length + blank.toNat < UInt64.size) : m = filled ws initial blank.toNat := by
  obtain ⟨-, -, -, rfl⟩ := load_eq_some_iff.mp hm
  have room : (ws ++ initial).length ≤ ws.length + initial.length + blank.toNat := by
    rw [List.length_append]
    omega
  rw [Nat.mod_eq_of_lt h, resize_of_le room, List.length_append, Nat.add_sub_cancel_left]
  rfl

/-- The registers behind the program hold the initial words, and zeros behind them. -/
theorem register?_filled_add (ws initial : List Word) (blank rank : Nat) :
    (filled ws initial blank).register? (ws.length + rank : Nat) = (initial ++ List.replicate blank 0)[rank]? := by
  rw [register?_natCast, filled, List.getElem?_toArray, List.append_assoc,
    List.getElem?_append_right (Nat.le_add_right ..), Nat.add_sub_cancel_left]

/-- A loaded register holds a word of the program, an initial word behind the program, or zero. -/
theorem of_register?_load (hm : load counting ws initial blank = some m) (h : m.register? address = some w) :
    w ∈ ws ∨ (∃ k : Nat, address = (ws.length + k : Nat) ∧ initial[k]? = some w) ∨ w = 0 := by
  obtain ⟨-, -, -, rfl⟩ := load_eq_some_iff.mp hm
  obtain ⟨h0, -⟩ := bounds_of_register? h
  obtain ⟨index, rfl⟩ := Int.eq_ofNat_of_zero_le h0
  rw [register?_natCast, List.getElem?_toArray] at h
  rcases of_getElem?_resize h with h | h
  · rw [List.getElem?_append] at h
    split at h
    · exact Or.inl (List.mem_of_getElem? h)
    · exact Or.inr (Or.inl ⟨index - ws.length, by omega, h⟩)
  · exact Or.inr (Or.inr h.2)

/-- A loaded register within the program holds a word of the program, also where registers have been cut off. -/
theorem getElem?_of_register?_load (hm : load counting ws initial blank = some m) {index : Nat}
    (h : m.register? index = some w) (hi : index < ws.length) : ws[index]? = some w := by
  obtain ⟨-, -, -, rfl⟩ := load_eq_some_iff.mp hm
  rw [register?_natCast, List.getElem?_toArray] at h
  rcases of_getElem?_resize h with h | ⟨behind, -⟩
  · rwa [List.getElem?_append_left hi] at h
  · rw [List.length_append] at behind
    omega

/-! ### Whether there is a machine -/

theorem memoryLimit_lt_size : memoryLimit < UInt64.size := by decide

/-- Registers that memory has are filled as they should be, however they are counted. -/
theorem load_of_lt (h : ws.length + initial.length + blank.toNat < memoryLimit) (counting : Counting) :
    load counting ws initial blank = some (filled ws initial blank.toNat) := by
  have counted : ws.length + initial.length + blank.toNat < UInt64.size := Nat.lt_trans h memoryLimit_lt_size
  have made : load counting ws initial blank = some _ :=
    load_eq_some_iff.mpr ⟨fun _ => counted, by omega, by rwa [Nat.mod_eq_of_lt counted], rfl⟩
  rw [made, eq_filled made counted]

theorem exists_load_checked_iff :
    (∃ m, load .checked ws initial blank = some m) ↔ ws.length + initial.length + blank.toNat < memoryLimit := by
  refine ⟨fun ⟨m, hm⟩ => ?_, fun room => ⟨_, load_of_lt room .checked⟩⟩
  obtain ⟨counted, -, room, -⟩ := load_eq_some_iff.mp hm
  rwa [Nat.mod_eq_of_lt (counted rfl)] at room

theorem exists_load_wrapping_iff :
    (∃ m, load .wrapping ws initial blank = some m) ↔ ws.length + initial.length < memoryLimit ∧
      (ws.length + initial.length + blank.toNat) % UInt64.size < memoryLimit := by
  constructor
  · rintro ⟨m, hm⟩
    obtain ⟨-, words, room, -⟩ := load_eq_some_iff.mp hm
    exact ⟨words, room⟩
  · rintro ⟨words, room⟩
    exact ⟨_, load_eq_some_iff.mpr ⟨nofun, words, room, rfl⟩⟩

/-! ### Lost words -/

/-- The number of registers wraps around at most once for words that fit in memory, so some of them are lost then. -/
theorem registers_load_of_wrap (hm : load counting ws initial blank = some m)
    (wrap : UInt64.size ≤ ws.length + initial.length + blank.toNat) :
    m.size = ws.length + initial.length + blank.toNat - UInt64.size ∧ m.size < ws.length + initial.length ∧
      m.registers = ((ws ++ initial).take m.size).toArray := by
  have few : blank.toNat < UInt64.size := blank.toNat_lt
  have limit := memoryLimit_lt_size
  have count := size_load hm
  obtain ⟨-, words, -, rfl⟩ := load_eq_some_iff.mp hm
  rw [count, Nat.mod_eq_sub_mod wrap, Nat.mod_eq_of_lt (by omega)]
  refine ⟨rfl, by omega, ?_⟩
  rw [resize_of_ge]
  rw [List.length_append]
  omega

/-- Where additions are checked, there is a machine just if memory has all the registers; where they wrap around, just if
    it has as many as the additions give. Such a machine has the program, the initial words and the blank registers, and
    as many registers as all of them together, if and only if their number does not wrap around, and then the program is
    within its registers. Where the number wraps around, words are lost: the registers are cut off, before the end of the
    program unless the initial words and the blank registers alone make it wrap around. -/
theorem registers_load_iff (ws initial : List Word) (blank : UInt64) :
    ((∃ m, load .checked ws initial blank = some m) ↔ ws.length + initial.length + blank.toNat < memoryLimit) ∧
    ((∃ m, load .wrapping ws initial blank = some m) ↔ ws.length + initial.length < memoryLimit ∧
      (ws.length + initial.length + blank.toNat) % UInt64.size < memoryLimit) ∧
    ∀ (counting : Counting) (m : Machine), load counting ws initial blank = some m →
      (m.registers = (ws ++ initial ++ List.replicate blank.toNat 0).toArray ↔
        ws.length + initial.length + blank.toNat < UInt64.size) ∧
      (m.size = ws.length + initial.length + blank.toNat ↔
        ws.length + initial.length + blank.toNat < UInt64.size) ∧
      (ws.length + initial.length + blank.toNat < UInt64.size → m.programLength ≤ m.size) ∧
      (UInt64.size ≤ ws.length + initial.length + blank.toNat →
        m.size < ws.length + initial.length ∧ m.registers = ((ws ++ initial).take m.size).toArray ∧
          (m.programLength ≤ m.size ↔ UInt64.size ≤ initial.length + blank.toNat)) := by
  refine ⟨exists_load_checked_iff, exists_load_wrapping_iff, fun counting m hm => ?_⟩
  have size_iff : m.size = ws.length + initial.length + blank.toNat ↔
      ws.length + initial.length + blank.toNat < UInt64.size := by
    rw [size_load hm]
    exact Nat.mod_eq_iff_lt (by decide)
  refine ⟨⟨fun h => size_iff.mp ?_, fun h => ?_⟩, size_iff, fun h => ?_, fun wrap => ?_⟩
  · rw [size, h, List.size_toArray, List.length_append, List.length_append, List.length_replicate]
  · rw [eq_filled hm h]
    rfl
  · rw [size_iff.mpr h, programLength_load hm]
    omega
  · obtain ⟨count, lost, cut⟩ := registers_load_of_wrap hm wrap
    refine ⟨lost, cut, ?_⟩
    rw [programLength_load hm, count]
    omega

/-- Of a program of two words, an initial word and two registers less than a count can hold, one word is left. -/
theorem registers_load_iff_wrapped :
    ∃ m, load .wrapping [262151, 0] [5] 18446744073709551614 = some m ∧ m.registers = #[262151] ∧
      ¬ m.programLength ≤ m.size := by
  obtain ⟨-, made, held⟩ := registers_load_iff [262151, 0] [5] 18446744073709551614
  obtain ⟨m, hm⟩ := made.mpr (by decide)
  obtain ⟨-, -, -, wrapped⟩ := held .wrapping m hm
  obtain ⟨-, left, program⟩ := wrapped (by decide)
  rw [size_load hm] at left
  exact ⟨m, hm, left, program.not.mpr (by decide)⟩

/-- Where additions wrap around, words are lost, the number of registers is not the true one, and the program is longer
    than the memory. Where they are checked, there is no machine. -/
theorem load_loses_words :
    (∃ m, load .wrapping [262151, 0] [5] 18446744073709551614 = some m ∧
      m.registers ≠ ([262151, 0] ++ [5] ++ List.replicate (18446744073709551614 : UInt64).toNat 0 : List Word).toArray ∧
      m.size ≠ 2 + 1 + (18446744073709551614 : UInt64).toNat ∧ m.size < m.programLength) ∧
    load .checked [262151, 0] [5] 18446744073709551614 = none := by
  refine ⟨⟨{ registers := #[262151], programLength := 2 }, by rfl, fun h => ?_, by decide, by decide⟩, by rfl⟩
  have sizes : 1 = Array.size _ := congrArg Array.size h
  rw [List.size_toArray, List.length_append, List.length_replicate] at sizes
  exact absurd sizes (by decide)

end Machine
end StoredProgram
