import StoredProgram.Instruction

/-! # The machine

A machine has an accumulator, a program counter and an array of registers that holds the program and its
data alike. A program is loaded into the first registers, its variables into those behind it. No machine has
more registers than memory does. -/

namespace StoredProgram

/-- The state of a machine. The length of the program matters only to what is shown of the state. -/
structure Machine where
  registers : Array Word
  pc : Int := 0
  acc : Word := 0
  completed : Bool := false
  steps : UInt64 := 0
  programLength : Nat := 0
  deriving DecidableEq

/-- Why a machine cannot go on. -/
inductive Fault where
  /-- The register at the program counter holds no instruction. -/
  | undecodable (address : Int) (error : DecodeError)
  /-- The program counter is the address of no register. -/
  | counterOutside (pc : Int) (size : Nat)
  /-- An operand is the address of no register. -/
  | addressOutside (address : Int) (size : Nat)
  /-- The machine has not stopped within the steps it was given. -/
  | stepLimit (limit : Nat)
  deriving DecidableEq

/-- The wording of a fault. -/
def Fault.message : Fault → Text
  | undecodable a e =>
    "unable to decode the instruction at address ".toList ++ Text.ofInt a ++ ": ".toList ++ e.message
  | counterOutside pc n =>
    "program counter ".toList ++ Text.ofInt pc ++ " is outside of memory (".toList ++ Text.ofNat n ++
      " registers)".toList
  | addressOutside a n =>
    "register address ".toList ++ Text.ofInt a ++ " is outside of memory (".toList ++ Text.ofNat n ++
      " registers)".toList
  | stepLimit n => "machine did not halt within ".toList ++ Text.ofNat n ++ " steps".toList

/-- The machine after an action, and the fault that the action met, if any. -/
structure Outcome where
  machine : Machine
  fault : Option Fault := none
  deriving DecidableEq

/-- What becomes of a sum that no count of 64 bits holds: there is none, or it wraps around. -/
inductive Counting where
  | checked
  | wrapping
  deriving DecidableEq

/-- The sum of two counts, if there is one. -/
def Counting.add? : Counting → Nat → Nat → Option Nat
  | checked, a, b => if a + b < UInt64.size then some (a + b) else none
  | wrapping, a, b => some ((a + b) % UInt64.size)

namespace Machine

/-- The number of registers. -/
def size (m : Machine) : Nat := m.registers.size

/-! ### New machines -/

/-- Memory has less than `2 ^ 63` bytes, of which a register takes eight, so it has fewer registers than this. -/
def memoryLimit : Nat := 1 <<< 60

/-- Cuts a list of words to a length, or fills it up with zeros. -/
def resize (ws : List Word) (n : Nat) : List Word := ws.take n ++ List.replicate (n - ws.length) 0

/-- Registers that some words are put into and that are then cut or filled up to a count, if memory has so many. -/
def allocate (ws : List Word) (count : Nat) : Option (Array Word) :=
  if ws.length < memoryLimit ∧ count < memoryLimit then some (resize ws count).toArray else none

/-- A machine without a program whose registers hold some words and then zeros, up to a count, if memory has so
    many registers. -/
def ofRegisters (ws : List Word) (count : Nat) : Option Machine :=
  (allocate ws (max count ws.length)).map fun registers => { registers }

/-- The number of registers of the default machine. -/
def defaultSize : Nat := 1024

/-- A machine with the default number of registers, all zero. -/
def default : Machine := (ofRegisters [] defaultSize).get (by decide)

/-- A machine with a program, initial contents of the registers behind it, and some more registers with zeros, if
    they can be counted and memory has so many registers. -/
def load (counting : Counting) (program initial : List Word) (blank : UInt64) : Option Machine := do
  let filled := program ++ initial
  let count ← counting.add? filled.length blank.toNat
  let registers ← allocate filled count
  return { registers, programLength := program.length }

/-! ### Registers -/

/-- The contents of the register at an address, if there is one. -/
def register? (m : Machine) (address : Int) : Option Word :=
  if 0 ≤ address then m.registers[address.toNat]? else none

theorem register?_eq_none_iff {m : Machine} {a : Int} :
    m.register? a = none ↔ a < 0 ∨ m.size ≤ a := by
  unfold register? size
  split
  · rw [Array.getElem?_eq_none_iff]
    omega
  · simp; omega

@[simp] theorem register?_natCast (m : Machine) (n : Nat) : m.register? n = m.registers[n]? := by
  simp [register?]

/-- The contents of the register at an address. -/
def read (m : Machine) (address : Int) : Except Fault Word :=
  match m.register? address with
  | some w => .ok w
  | none => .error (.addressOutside address m.size)

/-- Replaces the contents of the register at an address. -/
def write (m : Machine) (address : Int) (w : Word) : Machine :=
  { m with registers := m.registers.setIfInBounds address.toNat w }

@[simp] theorem size_write (m : Machine) (a : Int) (w : Word) : (m.write a w).size = m.size := by
  simp [write, size]

/-- A write changes the register that it names, and no other. -/
theorem register?_write {m : Machine} {a : Nat} (h : a < m.size) (b : Int) (w : Word) :
    (m.write a w).register? b = if b = a then some w else m.register? b := by
  unfold register? write
  by_cases hb : 0 ≤ b
  · obtain ⟨n, rfl⟩ := Int.eq_ofNat_of_zero_le hb
    by_cases hn : a = n
    · subst hn
      simp [Array.getElem?_setIfInBounds_self_of_lt (show a < m.registers.size from h)]
    · rw [if_pos hb, if_pos hb, if_neg (by omega)]
      exact Array.getElem?_setIfInBounds_ne hn
  · rw [if_neg hb, if_neg hb, if_neg (by omega)]

/-- Sets a register from outside. A fault names the register as a signed word. -/
def set (m : Machine) (register : UInt64) (w : Word) : Outcome :=
  if register.toNat < m.size then { machine := m.write register.toNat w }
  else { machine := m, fault := some (.addressOutside register.toInt64.toInt m.size) }

end Machine
end StoredProgram
