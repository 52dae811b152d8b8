import WordMachine.ConditionCodes

/-!
# Bitwise operations, shifts and rotates

The bitwise operations clear `v` and, unless they say otherwise, leave `c`
alone.  A shift or a rotate moves a word by one bit; the bit that falls out
becomes `c`, and `v` says that `n` and `c` then differ.
-/

namespace WordMachine.Bitwise

/-- The condition codes after a bitwise result. -/
def logical (codes : ConditionCodes) (result : Word) : ConditionCodes :=
  { codes.describe result with v := false }

def mov (src : Word) (codes : ConditionCodes) : Word × ConditionCodes :=
  (src, logical codes src)

/-- Tests the bits that two words have in common. -/
def bit (src dst : Word) (codes : ConditionCodes) : ConditionCodes :=
  logical codes (src &&& dst)

/-- Clears the bits of the destination that the source has. -/
def bic (src dst : Word) (codes : ConditionCodes) : Word × ConditionCodes :=
  let result := dst &&& ~~~src
  (result, logical codes result)

/-- Sets the bits of the destination that the source has. -/
def bis (src dst : Word) (codes : ConditionCodes) : Word × ConditionCodes :=
  let result := dst ||| src
  (result, logical codes result)

def xor (src dst : Word) (codes : ConditionCodes) : Word × ConditionCodes :=
  let result := dst ^^^ src
  (result, logical codes result)

/-- Gives zero, and no carry. -/
def clr (codes : ConditionCodes) : Word × ConditionCodes :=
  (0, { logical codes 0 with c := false })

/-- Inverts every bit, and always carries. -/
def com (dst : Word) (codes : ConditionCodes) : Word × ConditionCodes :=
  let result := ~~~dst
  (result, { logical codes result with c := true })

/-- Describes a word, and clears the carry. -/
def tst (dst : Word) (codes : ConditionCodes) : ConditionCodes :=
  { logical codes dst with c := false }

/-- Exchanges the two bytes of a word.  The flags describe the new low byte. -/
def swab (dst : Word) (_codes : ConditionCodes) : Word × ConditionCodes :=
  let result := Word.ofBytes dst.highByte dst.lowByte
  let low := result.lowByte
  (result, { n := low &&& 0x80 != 0, z := low == 0, v := false, c := false })

/-- The condition codes after a shift that let `carry` fall out. -/
def shifted (codes : ConditionCodes) (result : Word) (carry : Bool) : ConditionCodes :=
  let codes := codes.describe result
  { codes with c := carry, v := codes.n ^^ carry }

/-- Rotates right through the carry. -/
def ror (dst : Word) (codes : ConditionCodes) : Word × ConditionCodes :=
  let result := dst >>> 1 ||| (if codes.c then 0x8000 else 0)
  (result, shifted codes result (dst &&& 1 != 0))

/-- Rotates left through the carry. -/
def rol (dst : Word) (codes : ConditionCodes) : Word × ConditionCodes :=
  let result := dst <<< 1 ||| (if codes.c then 1 else 0)
  (result, shifted codes result dst.isNegative)

/-- Shifts right and keeps the sign. -/
def asr (dst : Word) (codes : ConditionCodes) : Word × ConditionCodes :=
  let result := dst.sshiftRight 1
  (result, shifted codes result (dst &&& 1 != 0))

/-- Shifts left, and lets a zero in. -/
def asl (dst : Word) (codes : ConditionCodes) : Word × ConditionCodes :=
  let result := dst <<< 1
  (result, shifted codes result dst.isNegative)

end WordMachine.Bitwise
