import WordMachine.Instruction.Table
import WordMachine.Numeral

/-!
# Instructions as text

An instruction is shown as its name and its operands, with numbers in octal.
An operand that takes a word out of the instruction stream shows that word: as
a displacement in front of the register, or, on the program counter, as an
immediate value `#n` or an absolute address `@#n`.
-/

namespace WordMachine

/-- The words after an instruction that its operands took. -/
structure Extensions where
  src : Option Word := none
  dst : Option Word := none
deriving DecidableEq, Repr

/-- An operand as text.  A displacement that could not be read shows as a
question mark. -/
def OperandSpec.text (spec : OperandSpec) (extension : Option Word) : String :=
  let reg := spec.reg.name
  let number (word : Word) := Numeral.octal word.toNat
  let displacement := (extension.map number).getD "?"
  match spec.mode, spec.reg, extension with
  | .autoIncrement, .pc, some word => "#" ++ number word
  | .autoIncrementDeferred, .pc, some word => "@#" ++ number word
  | .register, _, _ => reg
  | .registerDeferred, _, _ => "(" ++ reg ++ ")"
  | .autoIncrement, _, _ => "(" ++ reg ++ ")+"
  | .autoIncrementDeferred, _, _ => "@(" ++ reg ++ ")+"
  | .autoDecrement, _, _ => "-(" ++ reg ++ ")"
  | .autoDecrementDeferred, _, _ => "@-(" ++ reg ++ ")"
  | .index, _, _ => displacement ++ "(" ++ reg ++ ")"
  | .indexDeferred, _, _ => "@" ++ displacement ++ "(" ++ reg ++ ")"

/-- An instruction as text. -/
def Entry.text (entry : Entry) (fields : Fields) (extensions : Extensions) : String :=
  match fields with
  | .noOperand => entry.name
  | .single dst => entry.name ++ " " ++ dst.text extensions.dst
  | .double src dst =>
      entry.name ++ " " ++ src.text extensions.src ++ ", " ++ dst.text extensions.dst
  | .branch displacement => entry.name ++ " " ++ Numeral.octal displacement.toNat

end WordMachine
