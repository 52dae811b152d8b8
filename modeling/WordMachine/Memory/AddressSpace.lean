import WordMachine.Memory.Address
import WordMachine.Memory.Buffer
import WordMachine.Memory.Image
import WordMachine.RegisterFile

/-!
# The address space

All that a program can change: the registers, the condition codes and memory.
The space also knows how long the loaded program image is.  The memory map does
not keep a program from writing into its own image.
-/

namespace WordMachine

structure AddressSpace where
  registers : RegisterFile
  memory : Buffer Layout.spaceSize
  romLength : Nat
deriving DecidableEq

namespace AddressSpace

/-- Every byte, register and flag is zero, and no program is loaded. -/
def blank : AddressSpace := ⟨.cleared, .zeroed _, 0⟩

instance : Inhabited AddressSpace := ⟨blank⟩

/-- The first address past the loaded program. -/
def programEnd (space : AddressSpace) : Nat := Layout.romBase + space.romLength

/-! ## Registers and flags -/

def register (space : AddressSpace) (reg : Register) : Word := space.registers.read reg

def setRegister (space : AddressSpace) (reg : Register) (value : Word) : AddressSpace :=
  { space with registers := space.registers.write reg value }

/-- Moves a register by a signed amount. -/
def adjust (space : AddressSpace) (reg : Register) (amount : Int) : AddressSpace :=
  { space with registers := space.registers.adjust reg amount }

def pc (space : AddressSpace) : Word := space.registers.pc

def setPc (space : AddressSpace) (value : Word) : AddressSpace :=
  { space with registers := space.registers.setPc value }

def codes (space : AddressSpace) : ConditionCodes := space.registers.codes

def setCodes (space : AddressSpace) (codes : ConditionCodes) : AddressSpace :=
  { space with registers := { space.registers with codes := codes } }

def setFlag (space : AddressSpace) (flag : Flag) (value : Bool) : AddressSpace :=
  { space with registers := space.registers.setFlag flag value }

def resetRegisters (space : AddressSpace) : AddressSpace :=
  { space with registers := .cleared }

/-! ## Words in memory -/

def loadWord (space : AddressSpace) (address : WordAddress) : Checked Word :=
  space.memory.readWord address.offset

def storeWord (space : AddressSpace) (address : WordAddress) (value : Word) :
    Checked AddressSpace := do
  return { space with memory := ← space.memory.writeWord address.offset value }

/-- The word at an address that may lie outside memory. -/
def readWord (space : AddressSpace) (address : Word) : Checked (Except MemoryFault Word) :=
  match WordAddress.ofWord address with
  | .error fault => return .error fault
  | .ok address => return .ok (← space.loadWord address)

/-- The word at an address, taken as the address of another word. -/
def dereference (space : AddressSpace) (address : Word) :
    Checked (Except MemoryFault WordAddress) := do
  return (← space.readWord address) >>= WordAddress.ofWord

/-- Takes the word at the program counter out of the instruction stream.  The
counter moves past the word only when there is one. -/
def nextWord (space : AddressSpace) : Checked (Except MemoryFault Word × AddressSpace) := do
  match ← space.readWord space.pc with
  | .error fault => return (.error fault, space)
  | .ok word => return (.ok word, space.setPc (space.pc + 2))

/-! ## Whole regions -/

/-- Places a program image at the start of its region and fills the rest of the
region with zeros.  An image that is too long changes nothing. -/
def loadImage (space : AddressSpace) (image : List Byte) (Reason : Type := ReadFailure) :
    Checked (Except (LoadFault Reason) AddressSpace) :=
  if Layout.romSize < image.length then
    return .error (.tooLarge image.length Layout.romSize)
  else do
    let memory ← space.memory.write Layout.romBase image
    let memory ← memory.clear (Layout.romBase + image.length) (Layout.romSize - image.length)
    return .ok { space with memory := memory, romLength := image.length }

def clearVideo (space : AddressSpace) : Checked AddressSpace := do
  return { space with memory := ← space.memory.clear Layout.videoBase Layout.videoSize }

def video (space : AddressSpace) : Checked (List Byte) :=
  space.memory.read Layout.videoBase Layout.videoSize

/-- Copies the first bytes of a region over the first bytes of a buffer, as many
as both have, and counts them. -/
def snapshot (space : AddressSpace) (base size : Nat) (buffer : List Byte) :
    Checked (Nat × List Byte) := do
  let count := min buffer.length size
  return (count, (← space.memory.read base count) ++ buffer.drop count)

def videoSnapshot (space : AddressSpace) (buffer : List Byte) : Checked (Nat × List Byte) :=
  space.snapshot Layout.videoBase Layout.videoSize buffer

def romSnapshot (space : AddressSpace) (buffer : List Byte) : Checked (Nat × List Byte) :=
  space.snapshot Layout.romBase Layout.romSize buffer

/-! ## Memory as bytes -/

/-- The byte at an address, and zero past the end of memory. -/
def byteAt (space : AddressSpace) (address : Nat) : Byte := space.memory.byteAt address

/-- The word at a word address. -/
def wordAt (space : AddressSpace) (address : WordAddress) : Word :=
  .ofBytes (space.byteAt address.offset) (space.byteAt (address.offset + 1))

/-- The space after a word is stored. -/
def withWord (space : AddressSpace) (address : WordAddress) (value : Word) : AddressSpace :=
  { space with memory := space.memory.overlay address.offset value.bytes }

@[simp]
theorem loadWord_eq (space : AddressSpace) (address : WordAddress) :
    space.loadWord address = .ok (space.wordAt address) :=
  space.memory.readWord_eq address.offset_lt

@[simp]
theorem storeWord_eq (space : AddressSpace) (address : WordAddress) (value : Word) :
    space.storeWord address value = .ok (space.withWord address value) := by
  rw [storeWord, Buffer.writeWord_eq _ address.offset_lt]
  rfl

theorem byteAt_withWord (space : AddressSpace) (address : WordAddress) (value : Word)
    (place : Nat) :
    (space.withWord address value).byteAt place =
      if place = address.offset then value.lowByte
      else if place = address.offset + 1 then value.highByte
      else space.byteAt place := by
  have hlength : value.bytes.length = 2 := rfl
  have hfits := address.offset_lt
  rw [byteAt, withWord, Buffer.byteAt_overlay _ _ _ (by omega), hlength]
  by_cases hlow : place = address.offset
  · simp [hlow, Word.bytes]
  · by_cases hhigh : place = address.offset + 1
    · simp [hhigh, Word.bytes]
    · have hout : ¬(address.offset ≤ place ∧ place < address.offset + 2) := by omega
      simp [hlow, hhigh, hout, byteAt]

/-- A word that is stored can be read back. -/
@[simp]
theorem wordAt_withWord (space : AddressSpace) (address : WordAddress) (value : Word) :
    (space.withWord address value).wordAt address = value := by
  simp [wordAt, byteAt_withWord]

end AddressSpace

end WordMachine
