import WordMachine.Instruction.Fields

/-!
# Statistics

Counts of what a run did.
-/

namespace WordMachine

structure Statistics where
  /-- Instructions that were executed, with or without an effect. -/
  instructions : Nat := 0
  noOperand : Nat := 0
  single : Nat := 0
  /-- Instructions with two operands, those with a register source included. -/
  double : Nat := 0
  branch : Nat := 0
  branchesTaken : Nat := 0
  /-- Instructions without an effect, because an operand was not found. -/
  operandFaults : Nat := 0
  /-- Words that were fetched and are no instruction. -/
  invalidOpcodes : Nat := 0
  naiveTicks : Nat := 0
  optimizedTicks : Nat := 0
deriving DecidableEq, Repr, Inhabited

namespace Statistics

/-- Counts an executed instruction. -/
def record (stats : Statistics) (shape : Shape) : Statistics :=
  let stats := { stats with instructions := stats.instructions + 1 }
  match shape with
  | .noOperand => { stats with noOperand := stats.noOperand + 1 }
  | .singleOperand => { stats with single := stats.single + 1 }
  | .doubleOperand | .doubleOperandReg => { stats with double := stats.double + 1 }
  | .branch => { stats with branch := stats.branch + 1 }

/-- What the overlap of stages saved, which is never less than nothing. -/
def ticksSaved (stats : Statistics) : Nat := stats.naiveTicks - stats.optimizedTicks

variable (stats : Statistics) (shape : Shape)

@[simp]
theorem instructions_record : (stats.record shape).instructions = stats.instructions + 1 := by
  cases shape <;> rfl

@[simp]
theorem branch_record : (stats.record shape).branch = stats.branch + (shape == .branch).toNat := by
  cases shape <;> rfl

@[simp]
theorem branchesTaken_record : (stats.record shape).branchesTaken = stats.branchesTaken := by
  cases shape <;> rfl

@[simp]
theorem operandFaults_record : (stats.record shape).operandFaults = stats.operandFaults := by
  cases shape <;> rfl

@[simp]
theorem invalidOpcodes_record : (stats.record shape).invalidOpcodes = stats.invalidOpcodes := by
  cases shape <;> rfl

end Statistics

end WordMachine
