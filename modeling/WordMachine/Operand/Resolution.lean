import WordMachine.Operand.Location
import WordMachine.Operand.Mode

/-!
# Following an addressing mode

Resolution finds the location of an operand and does to the registers what the
mode asks for.  A register that a mode moves is moved only when the location
was found; a word that an index mode, or absolute mode on the program counter,
takes out of the instruction stream stays taken even if the location was not.
-/

namespace WordMachine

/-- What resolution finds, and the space that it leaves behind. -/
abbrev Resolution := Except MemoryFault Location × AddressSpace

/-- A location in memory leaves one space behind, and a fault another. -/
def Resolution.settle (found : Except MemoryFault WordAddress)
    (onSuccess onFault : AddressSpace) : Resolution :=
  match found with
  | .ok address => (.ok (.memory address), onSuccess)
  | .error fault => (.error fault, onFault)

namespace AddressSpace

open Resolution (settle)

/-- The space in which a register was moved back by a word.  A register that
holds less than the size of a word faults. -/
def preDecrement (space : AddressSpace) (reg : Register) : Except MemoryFault AddressSpace :=
  if (space.register reg).toNat < wordSize then .error (.decrementUnderflow reg)
  else .ok (space.adjust reg (-2))

/-- Follows an addressing mode from a register.

In the index modes the register is read after the index word was taken, so that
an operand relative to the program counter is relative to the word after the
index. -/
def resolve (space : AddressSpace) (reg : Register) (mode : AddressingMode) :
    Checked Resolution :=
  let value := space.register reg
  match mode with
  | .register => return (.ok (.register reg), space)
  | .registerDeferred => return settle (WordAddress.ofWord value) space space
  | .autoIncrement => return settle (WordAddress.ofWord value) (space.adjust reg 2) space
  | .autoIncrementDeferred =>
      if reg = .pc then do
        match ← space.nextWord with
        | (.error fault, space) => return (.error fault, space)
        | (.ok pointer, space) => return settle (WordAddress.ofWord pointer) space space
      else do
        return settle (← space.dereference value) (space.adjust reg 2) space
  | .autoDecrement =>
      match space.preDecrement reg with
      | .error fault => return (.error fault, space)
      | .ok moved => return settle (WordAddress.ofWord (moved.register reg)) moved (moved.adjust reg 2)
  | .autoDecrementDeferred =>
      match space.preDecrement reg with
      | .error fault => return (.error fault, space)
      | .ok moved => do
          return settle (← moved.dereference (moved.register reg)) moved (moved.adjust reg 2)
  | .index => do
      match ← space.nextWord with
      | (.error fault, space) => return (.error fault, space)
      | (.ok offset, space) => return settle (WordAddress.ofWord (space.register reg + offset)) space space
  | .indexDeferred => do
      match ← space.nextWord with
      | (.error fault, space) => return (.error fault, space)
      | (.ok offset, space) =>
          return settle (← space.dereference (space.register reg + offset)) space space

end AddressSpace

end WordMachine
