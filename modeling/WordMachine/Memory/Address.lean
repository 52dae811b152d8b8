import WordMachine.Memory.Fault
import WordMachine.Memory.Layout

/-!
# Word addresses

A word address is an address whose word is known to lie in memory.  It can be
odd, and its word can straddle two regions; the region of the word is that of
its first byte.
-/

namespace WordMachine

structure WordAddress where
  val : Word
  inSpace : val.toNat + 1 < Layout.spaceSize
deriving DecidableEq

namespace WordAddress

/-- The place of the word's first byte in memory. -/
def offset (address : WordAddress) : Nat := address.val.toNat

theorem offset_lt (address : WordAddress) : address.offset + 1 < Layout.spaceSize := address.inSpace

def region (address : WordAddress) : Region := .ofAddress address.offset

/-- An address is good for a word when both bytes of the word lie in
memory. -/
def ofWord (address : Word) : Except MemoryFault WordAddress :=
  if h : address.toNat + 1 < Layout.spaceSize then .ok ⟨address, h⟩
  else .error (.addressOutOfRange address.toNat Layout.spaceSize)

/-- An instruction is read from an even address of the program image.  That
the address is outside the image is noticed before that it is odd. -/
def ofFetch (pc : Word) : Except MemoryFault WordAddress :=
  if h : Layout.romBase ≤ pc.toNat ∧ pc.toNat + 1 < Layout.spaceSize then
    if pc.toNat % wordSize = 0 then .ok ⟨pc, h.2⟩ else .error (.misalignedFetch pc)
  else .error (.fetchOutOfRange pc)

end WordAddress

end WordMachine
