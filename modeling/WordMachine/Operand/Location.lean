import WordMachine.Memory.AddressSpace

/-!
# Operand locations

Where an operand lives once its addressing mode has been followed: in a
register, or in a word of memory.
-/

namespace WordMachine

inductive Location where
  | register (reg : Register)
  | memory (address : WordAddress)
deriving DecidableEq

namespace Location

def address? : Location → Option WordAddress
  | register _ => none
  | memory address => some address

/-- A register by its name, a word of memory by its address in brackets. -/
def text : Location → String
  | register reg => reg.name
  | memory address => "[" ++ Numeral.address address.offset ++ "]"

end Location

namespace AddressSpace

/-- The word at a location. -/
def load (space : AddressSpace) : Location → Checked Word
  | .register reg => return space.register reg
  | .memory address => space.loadWord address

def store (space : AddressSpace) (value : Word) : Location → Checked AddressSpace
  | .register reg => return space.setRegister reg value
  | .memory address => space.storeWord address value

/-- The word that a location holds. -/
def valueAt (space : AddressSpace) : Location → Word
  | .register reg => space.register reg
  | .memory address => space.wordAt address

/-- The space after a location was given a word. -/
def withValue (space : AddressSpace) (value : Word) : Location → AddressSpace
  | .register reg => space.setRegister reg value
  | .memory address => space.withWord address value

@[simp]
theorem load_eq (space : AddressSpace) (location : Location) :
    space.load location = .ok (space.valueAt location) := by
  cases location with
  | register reg => rfl
  | memory address => exact space.loadWord_eq address

@[simp]
theorem store_eq (space : AddressSpace) (value : Word) (location : Location) :
    space.store value location = .ok (space.withValue value location) := by
  cases location with
  | register reg => rfl
  | memory address => exact space.storeWord_eq address value

/-- What is stored at a location can be loaded from it again. -/
@[simp]
theorem valueAt_withValue (space : AddressSpace) (value : Word) (location : Location) :
    (space.withValue value location).valueAt location = value := by
  cases location with
  | register reg => simp [valueAt, withValue, register, setRegister]
  | memory address => exact space.wordAt_withWord address value

end AddressSpace

end WordMachine
