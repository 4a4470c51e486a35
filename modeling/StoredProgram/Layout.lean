import StoredProgram.Text.Decimal

/-! # Layouts of an encoded word

An instruction is packed by position: its opcode, addressing mode and value are the digits of the word
in a number system with mixed bases, the value being the lowest digit. Packing refuses a value that does
not fit its field. Unpacking accepts every integer and divides towards zero, so the fields of a negative
word are zero or negative, and the opcode of a word beyond the layout exceeds its field. -/

namespace StoredProgram

/-- The widths in bits of the three fields of an encoded word. -/
structure Layout where
  opcodeBits : Nat
  modeBits : Nat
  valueBits : Nat

/-- The three fields of a word, from the highest to the lowest. -/
structure Fields where
  opcode : Int
  mode : Int
  value : Int
  deriving DecidableEq

/-- A value does not fit its field: it is negative, or not below the limit of the field. -/
inductive PackError where
  | negative (value : Int)
  | overflow (value limit : Int)
  deriving DecidableEq

/-- The wording of a value that does not fit. -/
def PackError.message : PackError → Text
  | negative v => "negative value ".toList ++ Text.ofInt v ++ " cannot be encoded".toList
  | overflow v limit =>
    "value overflow: ".toList ++ Text.ofInt v ++ " does not fit in the value field (limit ".toList ++
      Text.ofInt limit ++ ")".toList

namespace Layout

/-- The layout of every word that the machine executes. -/
def standard : Layout := ⟨4, 2, 16⟩

/-- The width in bits of an encoded word. -/
def totalBits (l : Layout) : Nat := l.opcodeBits + l.modeBits + l.valueBits

/-- What one unit of the opcode adds to the word. -/
def opcodeUnit (l : Layout) : Int := (1 <<< (l.valueBits + l.modeBits) : Nat)

/-- What one unit of the mode adds to the word. -/
def modeUnit (l : Layout) : Int := (1 <<< l.valueBits : Nat)

/-- The value field holds the natural numbers below this limit. -/
def valueLimit (l : Layout) : Int := l.modeUnit

/-- Encoded words are the natural numbers below this limit. -/
def wordLimit (l : Layout) : Int := (1 <<< l.totalBits : Nat)

/-- Packs fields into a word; the opcode and the mode are those of an instruction and always fit. -/
def pack (l : Layout) (f : Fields) : Except PackError Int :=
  if f.value < 0 then .error (.negative f.value)
  else if l.valueLimit ≤ f.value then .error (.overflow f.value l.valueLimit)
  else .ok (f.opcode * l.opcodeUnit + f.mode * l.modeUnit + f.value)

/-- Splits a word into its fields by division towards zero. -/
def unpack (l : Layout) (w : Int) : Fields where
  opcode := w.tdiv l.opcodeUnit
  mode := (w.tmod l.opcodeUnit).tdiv l.modeUnit
  value := w.tmod l.modeUnit

end Layout
end StoredProgram
