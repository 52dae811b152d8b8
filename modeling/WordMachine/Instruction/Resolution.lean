import WordMachine.Instruction.Effect
import WordMachine.Instruction.Text
import WordMachine.Operand.Resolution

/-!
# Finding the operands of an instruction

The source is found before the destination.  The destination is followed even
when the source was not found, so that the words that an instruction takes out
of the instruction stream do not depend on how its operands fare; of two faults
that of the source counts.
-/

namespace WordMachine

/-- An operand that was followed. -/
structure ResolvedOperand where
  found : Except MemoryFault Location
  /-- The word that the operand took out of the instruction stream. -/
  extension : Option Word
  space : AddressSpace

/-- The operands of an instruction, all of them followed. -/
structure ResolvedOperands where
  operands : Except MemoryFault Operands
  extensions : Extensions
  space : AddressSpace

namespace AddressSpace

/-- Follows an operand.  That the program counter moved on by exactly one word
is the sign that the operand took the word there, which is read again as its
extension. -/
def resolveOperand (space : AddressSpace) (spec : OperandSpec) : Checked ResolvedOperand := do
  let before := space.pc
  let (found, space) ← space.resolve spec.reg spec.mode
  if space.pc = before + 2 then
    return ⟨found, (← space.readWord before).toOption, space⟩
  else return ⟨found, none, space⟩

def resolveOperands (space : AddressSpace) : Fields → Checked ResolvedOperands
  | .noOperand => return ⟨.ok .none, {}, space⟩
  | .single dst => do
      let dst ← space.resolveOperand dst
      return ⟨dst.found.map .one, { dst := dst.extension }, dst.space⟩
  | .double src dst => do
      let src ← space.resolveOperand src
      let dst ← src.space.resolveOperand dst
      let operands := do return .two (← src.found) (← dst.found)
      return ⟨operands, ⟨src.extension, dst.extension⟩, dst.space⟩
  | .branch displacement => return ⟨.ok (.displacement displacement), {}, space⟩

end AddressSpace

end WordMachine
