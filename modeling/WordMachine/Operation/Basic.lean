import WordMachine.Operation.Arithmetic
import WordMachine.Operation.Bitwise

/-!
# Operations

The operations that instructions perform on one word or on two.  An operation
that only compares or tests has no result to be stored.
-/

namespace WordMachine

inductive UnaryOperation where
  | clr
  | com
  | inc
  | dec
  | neg
  | adc
  | sbc
  | tst
  | ror
  | rol
  | asr
  | asl
  | swab
deriving DecidableEq, Repr

inductive BinaryOperation where
  | mov
  | cmp
  | bit
  | bic
  | bis
  | add
  | sub
  | xor
deriving DecidableEq, Repr

/-- The result to be stored, if there is one, and the condition codes. -/
abbrev Computed := Option Word × ConditionCodes

/-- An operation that has a result to be stored. -/
def Computed.stored (computed : Word × ConditionCodes) : Computed :=
  (some computed.1, computed.2)

/-- An operation that only sets the condition codes. -/
def Computed.noted (codes : ConditionCodes) : Computed := (none, codes)

open Computed (stored noted)

def UnaryOperation.compute (operation : UnaryOperation) (dst : Word) (codes : ConditionCodes) :
    Computed :=
  match operation with
  | .clr => stored (Bitwise.clr codes)
  | .com => stored (Bitwise.com dst codes)
  | .inc => stored (Arithmetic.inc dst codes)
  | .dec => stored (Arithmetic.dec dst codes)
  | .neg => stored (Arithmetic.neg dst codes)
  | .adc => stored (Arithmetic.adc dst codes)
  | .sbc => stored (Arithmetic.sbc dst codes)
  | .tst => noted (Bitwise.tst dst codes)
  | .ror => stored (Bitwise.ror dst codes)
  | .rol => stored (Bitwise.rol dst codes)
  | .asr => stored (Bitwise.asr dst codes)
  | .asl => stored (Bitwise.asl dst codes)
  | .swab => stored (Bitwise.swab dst codes)

def BinaryOperation.compute (operation : BinaryOperation) (src dst : Word)
    (codes : ConditionCodes) : Computed :=
  match operation with
  | .mov => stored (Bitwise.mov src codes)
  | .cmp => noted (Arithmetic.cmp src dst codes)
  | .bit => noted (Bitwise.bit src dst codes)
  | .bic => stored (Bitwise.bic src dst codes)
  | .bis => stored (Bitwise.bis src dst codes)
  | .add => stored (Arithmetic.add src dst codes)
  | .sub => stored (Arithmetic.sub src dst codes)
  | .xor => stored (Bitwise.xor src dst codes)

/-- Whether the operation has a result to be stored. -/
def UnaryOperation.writes : UnaryOperation → Bool
  | .tst => false
  | _ => true

/-- Whether the operation has a result to be stored. -/
def BinaryOperation.writes : BinaryOperation → Bool
  | .cmp | .bit => false
  | _ => true

end WordMachine
