import Mathlib.Tactic.Common
import StoredProgram.Instruction
import StoredProgram.Proofs.Except
import StoredProgram.Proofs.Layout

/-! # Encoding and decoding

An instruction has a word just if its value fits the value field, and the fields of the instruction are then
the digits of the word (`Instruction.encode_eq_ok_iff`). Decoding finds them again: it is the inverse of
encoding, and no other word is decoded (`Instruction.decode_eq_ok_iff_encode`). What is refused, and why, is told by
the value of the instruction (`Instruction.encode_eq_error_iff`) and by the size of the word
(`Instruction.decode_eq_error_iff`). -/

namespace StoredProgram

/-! ### Codes -/

theorem Operation.ofCode?_eq_some_iff {n : Nat} {op : Operation} : ofCode? n = some op ↔ op.code = n := by
  refine ⟨fun h => ?_, fun h => h ▸ ofCode?_code op⟩
  have hd : all.Nodup := by decide
  exact (List.getElem?_inj (by cases op <;> decide) hd).mp ((ofCode?_code op).trans h.symm)

theorem Operation.ofCode?_eq_none_iff {n : Nat} : ofCode? n = none ↔ 16 ≤ n :=
  List.getElem?_eq_none_iff

theorem Operation.code_lt (op : Operation) : op.code < 16 := by
  cases op <;> decide

theorem Mode.ofCode?_eq_some_iff {n : Nat} {m : Mode} : ofCode? n = some m ↔ m.code = n := by
  refine ⟨fun h => ?_, fun h => h ▸ ofCode?_code m⟩
  have hd : all.Nodup := by decide
  exact (List.getElem?_inj (by cases m <;> decide) hd).mp ((ofCode?_code m).trans h.symm)

theorem Mode.ofCode?_eq_none_iff {n : Nat} : ofCode? n = none ↔ 3 ≤ n :=
  List.getElem?_eq_none_iff

theorem Mode.code_lt (m : Mode) : m.code < 3 := by
  cases m <;> decide

namespace Instruction

variable {i : Instruction} {w : Word}

/-- An instruction whose value fits the value field has a word, and the fields are its digits. -/
theorem encode_eq_ok_iff :
    i.encode = .ok w ↔ 0 ≤ i.value ∧ i.value < 65536 ∧
      w.toInt = i.operation.code * 262144 + i.mode.code * 65536 + i.value := by
  have hop := i.operation.code_lt
  have hm := i.mode.code_lt
  unfold encode
  rw [map_eq_ok_iff]
  simp only [Layout.pack_eq_ok_iff, Layout.standard_number, Layout.standard_valueLimit]
  constructor
  · rintro ⟨_, ⟨⟨h0, hlt⟩, rfl⟩, rfl⟩
    exact ⟨h0, hlt, Int64.toInt_ofInt_of_le (by omega) (by omega)⟩
  · rintro ⟨h0, hlt, hw⟩
    exact ⟨w.toInt, ⟨⟨h0, hlt⟩, hw.symm⟩, Int64.ofInt_toInt w⟩

theorem exists_encode_eq_ok_iff : (∃ w, i.encode = .ok w) ↔ 0 ≤ i.value ∧ i.value < 65536 := by
  have hop := i.operation.code_lt
  have hm := i.mode.code_lt
  simp only [encode_eq_ok_iff]
  refine ⟨fun ⟨_, h0, hlt, _⟩ => ⟨h0, hlt⟩, fun ⟨h0, hlt⟩ => ?_⟩
  refine ⟨Int64.ofInt (i.operation.code * 262144 + i.mode.code * 65536 + i.value), h0, hlt, ?_⟩
  exact Int64.toInt_ofInt_of_le (by omega) (by omega)

theorem unpack_of_nonneg {n : Int} (h : 0 ≤ n) :
    Layout.standard.unpack n = ⟨n / 262144, n % 262144 / 65536, n % 65536⟩ := by
  unfold Layout.unpack
  rw [Layout.standard_opcodeUnit, Layout.standard_modeUnit, Int.tdiv_eq_ediv_of_nonneg h,
    Int.tmod_eq_emod_of_nonneg h, Int.tmod_eq_emod_of_nonneg h, Int.tdiv_eq_ediv_of_nonneg (by omega)]

theorem le_toInt_iff : 0 ≤ w.toInt ↔ ¬w < 0 := by
  rw [Int64.lt_iff_toInt_lt, Int64.toInt_zero, Int.not_lt]

theorem decode_eq_ok_iff_fields :
    decode w = .ok i ↔ 0 ≤ w.toInt ∧ w.toInt / 262144 = i.operation.code ∧
      w.toInt % 262144 / 65536 = i.mode.code ∧ w.toInt % 65536 = i.value := by
  unfold decode
  split
  · rename_i hneg
    exact ⟨fun h => (nomatch h), fun h => absurd hneg (le_toInt_iff.mp h.1)⟩
  · rename_i hneg
    have hw := le_toInt_iff.mpr hneg
    rw [unpack_of_nonneg hw]
    simp only
    obtain ⟨operation, mode, value⟩ := i
    refine ⟨fun h => ?_, fun h => ?_⟩
    · split at h
      · cases h
      · rename_i hop
        split at h
        · cases h
        · rename_i hm
          cases h
          have hop : operation.code = _ := Operation.ofCode?_eq_some_iff.mp hop
          have hm : mode.code = _ := Mode.ofCode?_eq_some_iff.mp hm
          refine ⟨hw, ?_, ?_, rfl⟩
          · show _ = (operation.code : Int)
            omega
          · show _ = (mode.code : Int)
            omega
    · obtain ⟨-, hop, hm, rfl⟩ := h
      rw [hop, hm, Int.toNat_natCast, Int.toNat_natCast, Operation.ofCode?_code, Mode.ofCode?_code]

/-- Decoding is the inverse of encoding. -/
theorem decode_eq_ok_iff_encode : decode w = .ok i ↔ i.encode = .ok w := by
  have hop := i.operation.code_lt
  have hm := i.mode.code_lt
  rw [decode_eq_ok_iff_fields, encode_eq_ok_iff]
  omega

section Programs

variable {ws : List Word} {is : List Instruction} {k : Nat}

theorem decodeAll_eq_ok_iff : decodeAll ws = .ok is ↔ List.Forall₂ (fun i w => i.encode = .ok w) is ws := by
  unfold decodeAll
  rw [mapM_eq_ok_iff]
  simp only [decode_eq_ok_iff_encode]
  exact ⟨List.Forall₂.flip, List.Forall₂.flip⟩

variable (h : List.Forall₂ (fun i w => i.encode = .ok w) is ws)
include h

theorem exists_word_of_getElem? (hi : is[k]? = some i) : ∃ w, ws[k]? = some w ∧ decode w = .ok i := by
  obtain ⟨hk, rfl⟩ := List.getElem?_eq_some_iff.mp hi
  have hkw : k < ws.length := h.length_eq ▸ hk
  exact ⟨ws[k], List.getElem?_eq_getElem hkw, decode_eq_ok_iff_encode.mpr (h.get hk hkw)⟩

theorem exists_decode_of_getElem? (hw : ws[k]? = some w) : ∃ i, is[k]? = some i ∧ decode w = .ok i := by
  obtain ⟨hk, rfl⟩ := List.getElem?_eq_some_iff.mp hw
  have hki : k < is.length := h.length_eq ▸ hk
  exact ⟨is[k], List.getElem?_eq_getElem hki, decode_eq_ok_iff_encode.mpr (h.get hki hk)⟩

end Programs

/-! ### What is refused -/

theorem encode_eq_error_iff {e : PackError} :
    i.encode = .error e ↔
      (i.value < 0 ∧ e = .negative i.value) ∨ (65536 ≤ i.value ∧ e = .overflow i.value 65536) := by
  unfold encode
  rw [map_eq_error_iff, Layout.pack_eq_error_iff, Layout.standard_valueLimit]

/-- The first thing that is wrong with a word that is no instruction: it is negative, it is beyond the encoded words
    and so its opcode is beyond all operations, or its mode is the code that no mode has. -/
inductive Refused (w : Word) : DecodeError → Prop
  | negative (h : w.toInt < 0) : Refused w (.negative w)
  | opcode (h : 4194304 ≤ w.toInt) : Refused w (.unknownOpcode w (w.toInt / 262144))
  | mode (h0 : 0 ≤ w.toInt) (hlt : w.toInt < 4194304) (hm : w.toInt % 262144 / 65536 = 3) :
    Refused w (.unknownMode w 3)

theorem refused_of_decode {e : DecodeError} (h : decode w = .error e) : Refused w e := by
  unfold decode at h
  split at h
  · rename_i hneg
    cases h
    exact .negative (Int.not_le.mp fun h0 => le_toInt_iff.mp h0 hneg)
  · rename_i hneg
    have h0 := le_toInt_iff.mpr hneg
    rw [unpack_of_nonneg h0] at h
    simp only at h
    split at h
    · rename_i hop
      cases h
      have beyond := Operation.ofCode?_eq_none_iff.mp hop
      exact .opcode (by omega)
    · rename_i op hop
      split at h
      · rename_i hm
        cases h
        have hlt := op.code_lt
        have hop := Operation.ofCode?_eq_some_iff.mp hop
        have beyond := Mode.ofCode?_eq_none_iff.mp hm
        -- A mode field has two bits, so there is but one code beyond the three modes.
        have three : w.toInt % 262144 / 65536 = 3 := by omega
        rw [three]
        exact .mode h0 (by omega) three
      · cases h

theorem Refused.unique {e e' : DecodeError} (h : Refused w e) (h' : Refused w e') : e = e' := by
  cases h with
  | negative _ =>
    cases h' with
    | negative _ => rfl
    | opcode _ => omega
    | mode _ _ _ => omega
  | opcode _ =>
    cases h' with
    | negative _ => omega
    | opcode _ => rfl
    | mode _ _ _ => omega
  | mode _ _ _ =>
    cases h' with
    | negative _ => omega
    | opcode _ => omega
    | mode _ _ _ => rfl

/-- A word is refused just for what is wrong with it first. -/
theorem decode_eq_error_iff {e : DecodeError} : decode w = .error e ↔ Refused w e := by
  refine ⟨refused_of_decode, fun h => ?_⟩
  cases hd : decode w with
  | error e' => rw [h.unique (refused_of_decode hd)]
  | ok i =>
    have hop := i.operation.code_lt
    have hm := i.mode.code_lt
    obtain ⟨h0, hcode, hmode, -⟩ := decode_eq_ok_iff_fields.mp hd
    cases h <;> omega

/-- Encoding and decoding are inverse to each other, and each refuses exactly what the other one never gives: encoding a
    value that does not fit, decoding a word that is negative, beyond the operations, or without a mode. -/
theorem decode_inverse_encode (w : Word) (i : Instruction) :
    (decode w = .ok i ↔ i.encode = .ok w) ∧
    (∀ e, decode w = .error e ↔ Refused w e) ∧
    ∀ e, i.encode = .error e ↔
      (i.value < 0 ∧ e = .negative i.value) ∨ (65536 ≤ i.value ∧ e = .overflow i.value 65536) :=
  ⟨decode_eq_ok_iff_encode, fun _ => decode_eq_error_iff, fun _ => encode_eq_error_iff⟩

end Instruction
end StoredProgram
