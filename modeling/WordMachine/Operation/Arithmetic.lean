import WordMachine.ConditionCodes

/-!
# Arithmetic on words

Sums and differences wrap around at the word size.  Each operation takes the
condition codes as they are and gives its result together with the condition
codes that it leaves: `n` and `z` describe the result, `c` is the carry or the
borrow, and `v` says that the result has the wrong sign.
-/

namespace WordMachine.Arithmetic

/-- The destination plus the source. -/
def add (src dst : Word) (codes : ConditionCodes) : Word × ConditionCodes :=
  let result := dst + src
  (result, { codes.describe result with
    v := (~~~(src ^^^ dst) &&& (src ^^^ result)).isNegative
    c := dst.uaddOverflow src })

/-- The destination less the source. -/
def sub (src dst : Word) (codes : ConditionCodes) : Word × ConditionCodes :=
  let result := dst - src
  (result, { codes.describe result with
    v := ((src ^^^ dst) &&& (dst ^^^ result)).isNegative
    c := dst.usubOverflow src })

/-- Compares by the source less the destination, the other way round than
`sub`. -/
def cmp (src dst : Word) (codes : ConditionCodes) : ConditionCodes :=
  let result := src - dst
  { codes.describe result with
    v := ((src ^^^ dst) &&& (src ^^^ result)).isNegative
    c := src.usubOverflow dst }

/-- Counting up leaves the carry alone. -/
def inc (dst : Word) (codes : ConditionCodes) : Word × ConditionCodes :=
  let result := dst + 1
  (result, { codes.describe result with v := dst == 0x7FFF })

/-- Counting down leaves the carry alone. -/
def dec (dst : Word) (codes : ConditionCodes) : Word × ConditionCodes :=
  let result := dst - 1
  (result, { codes.describe result with v := dst == 0x8000 })

/-- Zero less the destination. -/
def neg (dst : Word) (codes : ConditionCodes) : Word × ConditionCodes :=
  let result := -dst
  (result, { codes.describe result with v := result == 0x8000, c := result != 0 })

/-- The carry as a word. -/
def carryWord (codes : ConditionCodes) : Word := if codes.c then 1 else 0

/-- The destination plus the carry. -/
def adc (dst : Word) (codes : ConditionCodes) : Word × ConditionCodes :=
  let result := dst + carryWord codes
  (result, { codes.describe result with
    v := dst == 0x7FFF && codes.c
    c := dst == 0xFFFF && codes.c })

/-- The destination less the carry.  The overflow flag marks the most negative
destination, whether or not there is a carry to take from it. -/
def sbc (dst : Word) (codes : ConditionCodes) : Word × ConditionCodes :=
  let result := dst - carryWord codes
  (result, { codes.describe result with
    v := dst == 0x8000
    c := dst == 0 && codes.c })

end WordMachine.Arithmetic
