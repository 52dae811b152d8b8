import WordMachine.Instruction.Effect

/-!
# Instruction tables

A table is a list of entries.  An entry names an instruction and says which
words are instances of it: those that agree with its opcode in the bits of its
mask.  Where several entries claim a word the first of them has it.
-/

namespace WordMachine

structure Entry where
  mask : Word
  opcode : Word
  shape : Shape
  name : String
  effect : Effect
deriving DecidableEq, Repr

namespace Entry

/-- No operand: the whole word is the opcode. -/
def noOperand (name : String) (opcode : Word) (operation : ControlOperation) : Entry :=
  ⟨0o177777, opcode, .noOperand, name, .control operation⟩

/-- One operand, in the low six bits. -/
def single (name : String) (opcode : Word) (operation : UnaryOperation) : Entry :=
  ⟨0o177700, opcode, .singleOperand, name, .unary operation⟩

/-- Two operands, in the low twelve bits. -/
def double (name : String) (opcode : Word) (operation : BinaryOperation) : Entry :=
  ⟨0o170000, opcode, .doubleOperand, name, .binary operation⟩

/-- A register as the source, and an operand, in the low nine bits. -/
def doubleReg (name : String) (opcode : Word) (operation : BinaryOperation) : Entry :=
  ⟨0o177000, opcode, .doubleOperandReg, name, .binary operation⟩

/-- A displacement, in the low byte. -/
def branch (name : String) (opcode : Word) (condition : Condition) : Entry :=
  ⟨0o177400, opcode, .branch, name, .branch condition⟩

def withMask (entry : Entry) (mask : Word) : Entry := { entry with mask := mask }

/-- The entry for an effect.  The kind of the effect decides the shape; an
operation on two words takes its source from a register when asked to. -/
def ofEffect (name : String) (opcode : Word) (effect : Effect) (registerSource : Bool) : Entry :=
  match effect with
  | .control operation => noOperand name opcode operation
  | .unary operation => single name opcode operation
  | .binary operation =>
      if registerSource then doubleReg name opcode operation else double name opcode operation
  | .branch condition => branch name opcode condition

/-- Whether a word is an instance of the instruction. -/
def selects (entry : Entry) (word : Word) : Bool := word &&& entry.mask == entry.opcode

/-- The instance of the instruction that has these fields. -/
def encode (entry : Entry) (fields : Fields) : Word := entry.opcode ||| fields.bits

/-- Whether the effect works on operands of the entry's shape. -/
def wellShaped (entry : Entry) : Bool :=
  match entry.effect, entry.shape with
  | .control _, .noOperand => true
  | .unary _, .singleOperand => true
  | .binary _, .doubleOperand | .binary _, .doubleOperandReg => true
  | .branch _, .branch => true
  | _, _ => false

@[simp]
theorem wellShaped_ofEffect (name : String) (opcode : Word) (effect : Effect)
    (registerSource : Bool) : (ofEffect name opcode effect registerSource).wellShaped = true := by
  cases effect <;> cases registerSource <;> rfl

@[simp]
theorem wellShaped_withMask (entry : Entry) (mask : Word) :
    (entry.withMask mask).wellShaped = entry.wellShaped := rfl

end Entry

structure Table where
  entries : List Entry
deriving DecidableEq, Repr

namespace Table

/-- The entry that a word belongs to. -/
def decode? (table : Table) (word : Word) : Option Entry :=
  table.entries.find? (·.selects word)

/-- The first entry of a name. -/
def byName? (table : Table) (name : String) : Option Entry :=
  table.entries.find? (·.name == name)

theorem selects_of_decode {table : Table} {word : Word} {entry : Entry}
    (hdecode : table.decode? word = some entry) : entry.selects word = true := by
  simpa using List.find?_some hdecode

theorem mem_of_decode {table : Table} {word : Word} {entry : Entry}
    (hdecode : table.decode? word = some entry) : entry ∈ table.entries :=
  List.mem_of_find?_eq_some hdecode

end Table

end WordMachine
