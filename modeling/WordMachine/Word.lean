/-!
# Bytes and words

The machine works on words of sixteen bits, kept in memory as two bytes.  The
low byte of a word stands at the lower address.
-/

namespace WordMachine

abbrev Byte := BitVec 8
abbrev Word := BitVec 16

/-- Number of bytes in a word, and so the distance between neighbouring
words. -/
def wordSize : Nat := 2

namespace Word

/-- The word whose low byte stands at the lower address. -/
def ofBytes (low high : Byte) : Word := high ++ low

def lowByte (word : Word) : Byte := word.setWidth 8

def highByte (word : Word) : Byte := (word >>> 8).setWidth 8

/-- The bit that makes a word negative when it is read as a signed number. -/
def signBit : Word := 0x8000

def isNegative (word : Word) : Bool := word &&& signBit != 0

/-- The two bytes of a word, in the order in which memory holds them. -/
def bytes (word : Word) : List Byte := [word.lowByte, word.highByte]

theorem toNat_ofBytes (low high : Byte) :
    (ofBytes low high).toNat = low.toNat + 256 * high.toNat := by
  simp only [ofBytes, BitVec.toNat_append]
  rw [Nat.shiftLeft_eq, Nat.mul_comm, ← Nat.two_pow_add_eq_or_of_lt low.isLt]
  omega

@[simp]
theorem lowByte_ofBytes (low high : Byte) : (ofBytes low high).lowByte = low := by
  apply BitVec.eq_of_toNat_eq
  have := toNat_ofBytes low high
  simp only [lowByte, BitVec.toNat_setWidth]
  omega

@[simp]
theorem highByte_ofBytes (low high : Byte) : (ofBytes low high).highByte = high := by
  apply BitVec.eq_of_toNat_eq
  have := toNat_ofBytes low high
  simp only [highByte, BitVec.toNat_setWidth, BitVec.toNat_ushiftRight, Nat.shiftRight_eq_div_pow]
  omega

/-- A word is made of its two bytes and nothing else. -/
@[simp]
theorem ofBytes_bytes (word : Word) : ofBytes word.lowByte word.highByte = word := by
  apply BitVec.eq_of_toNat_eq
  rw [toNat_ofBytes]
  simp only [lowByte, highByte, BitVec.toNat_setWidth, BitVec.toNat_ushiftRight,
    Nat.shiftRight_eq_div_pow]
  omega

end Word

end WordMachine
