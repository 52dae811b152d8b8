/-!
# Binary64 rounding

A binary64 number has fifty-three significant bits.  The operations on such
numbers give the exact result rounded to the nearest of them, and a result
halfway between two goes to the one with an even significand.  Here they are
computed on exact fractions, for numbers that are not negative and that are
neither too large nor too small for the format.
-/

namespace WordMachine.Binary64

/-- The integer nearest to a quotient; halfway between two, the even one. -/
def roundHalfEven (num den : Nat) : Nat :=
  let quotient := num / den
  let twice := 2 * (num % den)
  if den < twice ∨ (twice = den ∧ quotient % 2 = 1) then quotient + 1 else quotient

/-- A fraction whose denominator is not zero. -/
structure Ratio where
  num : Nat
  den : Nat

namespace Ratio

/-- The nearest fraction with fifty-three significant bits.  The quotient is
first scaled by a power of two to lie between 2⁵² and 2⁵³, so that the bits
left of the point are the significant ones. -/
def round (exact : Ratio) : Ratio :=
  if exact.num = 0 then ⟨0, 1⟩
  else
    let up := 1 <<< (52 + exact.den.log2)
    let down := 1 <<< exact.num.log2
    let narrow := exact.num * up < (exact.den * down) <<< 52
    let up := if narrow then 2 * up else up
    ⟨roundHalfEven (exact.num * up) (exact.den * down) * down, up⟩

/-- The nearest binary64 number to a natural number. -/
def ofNat (number : Nat) : Ratio := round ⟨number, 1⟩

def mul (left right : Ratio) : Ratio := round ⟨left.num * right.num, left.den * right.den⟩

def div (left right : Ratio) : Ratio := round ⟨left.num * right.den, left.den * right.num⟩

end Ratio

/-- The first natural number that rounds to infinity. -/
def overflowBound : Nat := (1 <<< 1024) - (1 <<< 970)

end WordMachine.Binary64
