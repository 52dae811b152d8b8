/-!
# Breaches

Some operations are promised arguments that make sense: a register number
below eight, an offset inside a buffer, operands that fit the instruction.
A broken promise is a *breach*.  It is not a condition that a program on the
machine could cause or observe, so it is kept apart from the machine's own
faults and ends the operation that met it.
-/

namespace WordMachine

inductive Breach where
  /-- No register has this number. -/
  | registerIndex (index : Nat)
  /-- No stage of the pipeline has this number. -/
  | stageIndex (index : Nat)
  /-- `count` bytes at `offset` do not lie inside a buffer of `size` bytes. -/
  | bufferBounds (offset count size : Nat)
  /-- The operands at hand are not those that the effect works on. -/
  | operandMismatch
deriving DecidableEq, Repr

/-- The result of an operation whose promises are checked. -/
abbrev Checked (α : Type) := Except Breach α

/-- A register number is the one argument that is reported by value. -/
def Breach.message? : Breach → Option String
  | .registerIndex index => some s!"register index {index} out of range"
  | _ => none

end WordMachine
