import WordMachine.Instruction.Fields
import WordMachine.Operand.Location
import WordMachine.Operation.Basic
import WordMachine.Operation.Condition

/-!
# Effects

What an instruction does once its operands have been found.  An effect works
on operands of its own kind, so each kind of effect goes with one shape of
instruction, or with two for an operation on two words.
-/

namespace WordMachine

/-- Operations without an operand.  Neither halting nor doing nothing changes
anything: a program halts by running off its end. -/
inductive ControlOperation where
  | halt
  | nop
  | clear (flag : Flag)
  | clearAll
  | set (flag : Flag)
  | setAll
deriving DecidableEq, Repr

def ControlOperation.apply (operation : ControlOperation) (codes : ConditionCodes) :
    ConditionCodes :=
  match operation with
  | .halt | .nop => codes
  | .clear flag => codes.set flag false
  | .clearAll => .cleared
  | .set flag => codes.set flag true
  | .setAll => .allSet

/-- The effects of the instructions that this library knows.  Tables can give them other
names, opcodes and masks, but have no others to choose from. -/
inductive Effect where
  | control (operation : ControlOperation)
  | unary (operation : UnaryOperation)
  | binary (operation : BinaryOperation)
  | branch (condition : Condition)
deriving DecidableEq, Repr

/-- Operands that have been found. -/
inductive Operands where
  | none
  | one (dst : Location)
  | two (src dst : Location)
  | displacement (displacement : Byte)
deriving DecidableEq

namespace AddressSpace

/-- Sets the condition codes and stores the result, if there is one. -/
def finish (space : AddressSpace) (computed : Computed) (dst : Location) :
    Checked AddressSpace :=
  let space := space.setCodes computed.2
  match computed.1 with
  | some result => space.store result dst
  | none => return space

end AddressSpace

/-- The space after an effect, and whether a branch was taken.  All operands are
read before anything is written.  Operands of another kind are a breach. -/
def Effect.apply (effect : Effect) (operands : Operands) (space : AddressSpace) :
    Checked (AddressSpace × Bool) :=
  match effect, operands with
  | .control operation, .none => return (space.setCodes (operation.apply space.codes), false)
  | .unary operation, .one dst => do
      let value ← space.load dst
      return (← space.finish (operation.compute value space.codes) dst, false)
  | .binary operation, .two src dst => do
      let left ← space.load src
      let right ← space.load dst
      return (← space.finish (operation.compute left right space.codes) dst, false)
  | .branch condition, .displacement displacement =>
      if condition.holds space.codes then
        return (space.setPc (branchTarget space.pc displacement), true)
      else return (space, false)
  | _, _ => .error .operandMismatch

end WordMachine
