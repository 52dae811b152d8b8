/-!
# Addressing modes

A three-bit field chooses how an instruction gets from a register to its
operand.  From mode two on, each odd mode is the mode before it with one more
step: the word found there is the operand's address.
-/

namespace WordMachine

inductive AddressingMode where
  /-- The operand is the register. -/
  | register
  /-- The register holds the operand's address. -/
  | registerDeferred
  /-- The register holds the operand's address and then moves on by a word.  On
  the program counter the operand is the word after the instruction. -/
  | autoIncrement
  /-- As auto-increment, through a pointer. -/
  | autoIncrementDeferred
  /-- The register first moves back by a word and then holds the operand's
  address. -/
  | autoDecrement
  /-- As auto-decrement, through a pointer. -/
  | autoDecrementDeferred
  /-- The operand's address is the register plus the word after the
  instruction. -/
  | index
  /-- As index, through a pointer. -/
  | indexDeferred
deriving DecidableEq, Repr

namespace AddressingMode

def ofBits (bits : BitVec 3) : AddressingMode :=
  match bits.toFin with
  | 0 => register
  | 1 => registerDeferred
  | 2 => autoIncrement
  | 3 => autoIncrementDeferred
  | 4 => autoDecrement
  | 5 => autoDecrementDeferred
  | 6 => index
  | 7 => indexDeferred

def bits : AddressingMode → BitVec 3
  | register => 0
  | registerDeferred => 1
  | autoIncrement => 2
  | autoIncrementDeferred => 3
  | autoDecrement => 4
  | autoDecrementDeferred => 5
  | index => 6
  | indexDeferred => 7

/-- Whether the operand is reached through a pointer in memory. -/
def isDeferred : AddressingMode → Bool
  | autoIncrementDeferred | autoDecrementDeferred | indexDeferred => true
  | _ => false

/-- A mode without the pointer that it goes through, if it goes through one. -/
def plain : AddressingMode → AddressingMode
  | autoIncrementDeferred => autoIncrement
  | autoDecrementDeferred => autoDecrement
  | indexDeferred => index
  | mode => mode

def name : AddressingMode → String
  | register => "register"
  | registerDeferred => "register deferred"
  | autoIncrement => "autoincrement"
  | autoIncrementDeferred => "autoincrement deferred"
  | autoDecrement => "autodecrement"
  | autoDecrementDeferred => "autodecrement deferred"
  | index => "index"
  | indexDeferred => "index deferred"

@[simp]
theorem ofBits_bits (mode : AddressingMode) : ofBits mode.bits = mode := by
  cases mode <;> rfl

@[simp]
theorem bits_ofBits (bits : BitVec 3) : (ofBits bits).bits = bits := by
  revert bits
  decide

theorem isDeferred_plain (mode : AddressingMode) : mode.plain.isDeferred = false := by
  cases mode <;> rfl

end AddressingMode

end WordMachine
