import Mathlib.Tactic.ByContra
import WordMachine.Operand.Location

/-!
# Changes to an address space

What each change to an address space changes, and what it keeps.  Words of
memory are read through checked addresses, so no access to memory can breach
the bounds of the buffer behind it.
-/

namespace WordMachine

/-! ## Results that can fail -/

@[simp]
theorem ok_bind {ε α β : Type} (value : α) (next : α → Except ε β) :
    (Except.ok value >>= next) = next value := rfl

@[simp]
theorem isOk_map {ε α β : Type} (f : α → β) (found : Except ε α) :
    (found.map f).isOk = found.isOk := by
  cases found <;> rfl

theorem isOk_of_isOk_bind {ε α β : Type} {found : Except ε α} {next : α → Except ε β}
    (hbind : (found >>= next).isOk = true) : found.isOk = true := by
  cases found with
  | error fault => exact hbind
  | ok value => rfl

theorem exists_of_bind_eq_ok {ε α β : Type} {found : Except ε α} {next : α → Except ε β}
    {result : β} (hbind : found >>= next = .ok result) :
    ∃ value, found = .ok value ∧ next value = .ok result := by
  cases found with
  | error fault => cases hbind
  | ok value => exact ⟨value, rfl, hbind⟩

namespace RegisterFile

@[simp]
theorem write_read (file : RegisterFile) (reg : Register) :
    file.write reg (file.read reg) = file := by
  apply ext_read
  · rfl
  · intro other
    rw [read_write]
    split
    · rename_i heq
      rw [heq]
    · rfl

@[simp]
theorem write_write (file : RegisterFile) (reg : Register) (first second : Word) :
    (file.write reg first).write reg second = file.write reg second := by
  apply ext_read
  · rfl
  · intro other
    simp only [read_write]
    split <;> rfl

end RegisterFile

namespace AddressSpace

variable (space : AddressSpace)

/-! ## Registers -/

@[simp]
theorem register_setRegister (reg other : Register) (value : Word) :
    (space.setRegister reg value).register other =
      if reg = other then value else space.register other :=
  space.registers.read_write reg other value

@[simp]
theorem memory_setRegister (reg : Register) (value : Word) :
    (space.setRegister reg value).memory = space.memory := rfl

@[simp]
theorem codes_setRegister (reg : Register) (value : Word) :
    (space.setRegister reg value).codes = space.codes := rfl

@[simp]
theorem romLength_setRegister (reg : Register) (value : Word) :
    (space.setRegister reg value).romLength = space.romLength := rfl

@[simp]
theorem setRegister_register (reg : Register) :
    space.setRegister reg (space.register reg) = space := by
  rw [setRegister, register, RegisterFile.write_read]

@[simp]
theorem setRegister_setRegister (reg : Register) (first second : Word) :
    (space.setRegister reg first).setRegister reg second = space.setRegister reg second := by
  simp only [setRegister, RegisterFile.write_write]

/-- The program counter is a register like any other. -/
theorem pc_eq_register : space.pc = space.register .pc := rfl

theorem setPc_eq_setRegister (value : Word) : space.setPc value = space.setRegister .pc value := rfl

theorem adjust_eq_setRegister (reg : Register) (amount : Int) :
    space.adjust reg amount =
      space.setRegister reg (space.register reg + BitVec.ofInt 16 amount) := rfl

@[simp]
theorem adjust_zero (reg : Register) : space.adjust reg 0 = space := by
  have hzero : BitVec.ofInt 16 0 = 0#16 := rfl
  rw [adjust_eq_setRegister, hzero, BitVec.add_zero, setRegister_register]

/-- Moves of one register add up. -/
@[simp]
theorem adjust_adjust (reg : Register) (first second : Int) :
    (space.adjust reg first).adjust reg second = space.adjust reg (first + second) := by
  simp only [adjust_eq_setRegister, register_setRegister, if_true, setRegister_setRegister,
    BitVec.ofInt_add, BitVec.add_assoc]

/-! ## Condition codes -/

@[simp]
theorem register_setCodes (codes : ConditionCodes) (reg : Register) :
    (space.setCodes codes).register reg = space.register reg := rfl

@[simp]
theorem memory_setCodes (codes : ConditionCodes) :
    (space.setCodes codes).memory = space.memory := rfl

@[simp]
theorem codes_setCodes (codes : ConditionCodes) : (space.setCodes codes).codes = codes := rfl

@[simp]
theorem romLength_setCodes (codes : ConditionCodes) :
    (space.setCodes codes).romLength = space.romLength := rfl

/-! ## Locations -/

/-- Giving a location a word changes the register that the location is, and no
other. -/
@[simp]
theorem register_withValue (value : Word) (location : Location) (reg : Register) :
    (space.withValue value location).register reg =
      if location = .register reg then value else space.register reg := by
  cases location with
  | register target => simp [withValue]
  | memory address =>
      rw [if_neg (by simp)]
      rfl

@[simp]
theorem codes_withValue (value : Word) (location : Location) :
    (space.withValue value location).codes = space.codes := by
  cases location <;> rfl

@[simp]
theorem romLength_withValue (value : Word) (location : Location) :
    (space.withValue value location).romLength = space.romLength := by
  cases location <;> rfl

@[simp]
theorem memory_withValue_register (value : Word) (reg : Register) :
    (space.withValue value (.register reg)).memory = space.memory := rfl

/-- Giving a location a word changes the two bytes of the word in memory that
the location is, and no other. -/
theorem exists_address_of_byteAt_withValue_ne {value : Word} {location : Location} {place : Nat}
    (hchanged : (space.withValue value location).byteAt place ≠ space.byteAt place) :
    ∃ address, location = .memory address ∧
      (place = address.offset ∨ place = address.offset + 1) := by
  cases location with
  | register reg => exact absurd rfl hchanged
  | memory address =>
      refine ⟨address, rfl, ?_⟩
      by_contra hneither
      rw [not_or] at hneither
      apply hchanged
      change (space.withWord address value).byteAt place = _
      rw [byteAt_withWord, if_neg hneither.1, if_neg hneither.2]

theorem wordAt_withWord_of_apart {address other : WordAddress} (value : Word)
    (hapart : address.offset + 2 ≤ other.offset) :
    (space.withWord address value).wordAt other = space.wordAt other := by
  rw [wordAt, byteAt_withWord, byteAt_withWord, if_neg (by omega), if_neg (by omega),
    if_neg (by omega), if_neg (by omega)]
  rfl

/-! ## Words at unchecked addresses -/

/-- The word at an address that may lie outside memory. -/
def wordAt? (address : Word) : Except MemoryFault Word :=
  (WordAddress.ofWord address).map space.wordAt

/-- The word address that the word at an address is. -/
def pointerAt? (address : Word) : Except MemoryFault WordAddress :=
  space.wordAt? address >>= WordAddress.ofWord

/-- What words memory holds depends on memory alone. -/
theorem wordAt_congr {left right : AddressSpace} (hmemory : left.memory = right.memory) :
    left.wordAt = right.wordAt := by
  funext address
  simp only [wordAt, byteAt, hmemory]

theorem wordAt?_congr {left right : AddressSpace} (hmemory : left.memory = right.memory) :
    left.wordAt? = right.wordAt? := by
  funext address
  simp only [wordAt?, wordAt_congr hmemory]

@[simp]
theorem readWord_eq (address : Word) : space.readWord address = .ok (space.wordAt? address) := by
  rw [readWord, wordAt?]
  cases WordAddress.ofWord address with
  | error fault => rfl
  | ok checked =>
      simp only [loadWord_eq]
      rfl

@[simp]
theorem dereference_eq (address : Word) :
    space.dereference address = .ok (space.pointerAt? address) := by
  simp only [dereference, readWord_eq]
  rfl

end AddressSpace

namespace WordAddress

theorem ext_offset {left right : WordAddress} (heq : left.offset = right.offset) :
    left = right := by
  cases left
  cases right
  congr 1
  exact BitVec.eq_of_toNat_eq heq

theorem ofWord_val (address : WordAddress) : ofWord address.val = .ok address :=
  dif_pos address.inSpace

theorem ofWord_isOk (address : Word) :
    (ofWord address).isOk = decide (address.toNat + 1 < Layout.spaceSize) := by
  rw [ofWord]
  split <;> simp_all [Except.isOk, Except.toBool]

end WordAddress

end WordMachine
