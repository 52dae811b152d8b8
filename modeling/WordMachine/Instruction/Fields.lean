import WordMachine.Operand.Mode
import WordMachine.Register
import WordMachine.Word

/-!
# Operand fields

An instruction word carries its operands in fields.  A mode and a register make
an operand: the destination stands in the low six bits, the source in the six
bits above.  A branch carries a displacement in its low byte.  No field has a
sign.
-/

namespace WordMachine

/-- How the fields of an instruction are laid out. -/
inductive Shape where
  | noOperand
  | singleOperand
  | doubleOperand
  /-- The source is a register; the three bits of its mode belong to the
  opcode. -/
  | doubleOperandReg
  | branch
deriving DecidableEq, Repr

namespace Word

def sourceMode (word : Word) : BitVec 3 := word.extractLsb' 9 3

def sourceRegister (word : Word) : BitVec 3 := word.extractLsb' 6 3

def destinationMode (word : Word) : BitVec 3 := word.extractLsb' 3 3

def destinationRegister (word : Word) : BitVec 3 := word.extractLsb' 0 3

def displacement (word : Word) : Byte := word.extractLsb' 0 8

end Word

structure OperandSpec where
  mode : AddressingMode
  reg : Register
deriving DecidableEq, Repr

namespace OperandSpec

def ofFields (mode reg : BitVec 3) : Checked OperandSpec := do
  return ⟨.ofBits mode, ← Register.ofIndex reg.toNat⟩

/-- The register itself. -/
def direct (reg : Register) : OperandSpec := ⟨.register, reg⟩

/-- The six bits of an operand. -/
def bits (spec : OperandSpec) : BitVec 6 := spec.mode.bits ++ (BitVec.ofFin spec.reg.index : BitVec 3)

end OperandSpec

inductive Fields where
  | noOperand
  | single (dst : OperandSpec)
  | double (src dst : OperandSpec)
  | branch (displacement : Byte)
deriving DecidableEq, Repr

namespace Fields

/-- The fields of a word under a shape. -/
def ofWord (shape : Shape) (word : Word) : Checked Fields := do
  let destination := OperandSpec.ofFields word.destinationMode word.destinationRegister
  match shape with
  | .noOperand => return .noOperand
  | .singleOperand => return .single (← destination)
  | .doubleOperand =>
      return .double (← OperandSpec.ofFields word.sourceMode word.sourceRegister) (← destination)
  | .doubleOperandReg =>
      return .double (.direct (← Register.ofIndex word.sourceRegister.toNat)) (← destination)
  | .branch => return .branch word.displacement

/-- The bits that the fields take up in an instruction word. -/
def bits : Fields → Word
  | noOperand => 0
  | single dst => dst.bits.setWidth 16
  | double src dst => src.bits.setWidth 16 <<< 6 ||| dst.bits.setWidth 16
  | branch displacement => displacement.setWidth 16

/-- The fields that an instruction of a shape can have. -/
def Fits : Fields → Shape → Prop
  | noOperand, .noOperand => True
  | single _, .singleOperand => True
  | double _ _, .doubleOperand => True
  | double src _, .doubleOperandReg => src.mode = .register
  | branch _, .branch => True
  | _, _ => False

instance (fields : Fields) (shape : Shape) : Decidable (fields.Fits shape) := by
  unfold Fits
  split <;> infer_instance

end Fields

end WordMachine
