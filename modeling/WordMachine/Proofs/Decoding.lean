import WordMachine.Instruction.Standard
import WordMachine.Proofs.Effect

/-!
# What a word decodes to

Three bits always name a register, so the fields of a word can be read under
every shape.  The entries of a table pair each effect with a shape that gives it
operands of its own kind; tables whose entries do are well shaped.
-/

namespace WordMachine

namespace Register

/-- The register that three bits name. -/
def ofBits (bits : BitVec 3) : Register := all[bits.toFin]

theorem ofIndex_toNat (bits : BitVec 3) : ofIndex bits.toNat = .ok (ofBits bits) :=
  dif_pos bits.isLt

end Register

namespace Word

/-- The operand in the bits for the source. -/
def source (word : Word) : OperandSpec := ⟨.ofBits word.sourceMode, .ofBits word.sourceRegister⟩

/-- The operand in the bits for the destination. -/
def destination (word : Word) : OperandSpec :=
  ⟨.ofBits word.destinationMode, .ofBits word.destinationRegister⟩

end Word

theorem OperandSpec.ofFields_eq (mode reg : BitVec 3) :
    ofFields mode reg = .ok ⟨.ofBits mode, .ofBits reg⟩ := by
  rw [ofFields, Register.ofIndex_toNat]
  rfl

namespace Fields

/-- The fields of a word under a shape. -/
def decoded (shape : Shape) (word : Word) : Fields :=
  match shape with
  | .noOperand => .noOperand
  | .singleOperand => .single word.destination
  | .doubleOperand => .double word.source word.destination
  | .doubleOperandReg => .double (.direct (.ofBits word.sourceRegister)) word.destination
  | .branch => .branch word.displacement

theorem ofWord_eq (shape : Shape) (word : Word) : ofWord shape word = .ok (decoded shape word) := by
  simp only [ofWord, OperandSpec.ofFields_eq, Register.ofIndex_toNat, ok_bind]
  cases shape <;> rfl

theorem fits_decoded (shape : Shape) (word : Word) : (decoded shape word).Fits shape := by
  cases shape <;> trivial

end Fields

namespace Effect

/-- Whether fields are for operands of the kind that the effect works on. -/
def suitsFields (effect : Effect) (fields : Fields) : Bool :=
  match effect, fields with
  | control _, .noOperand | unary _, .single _ | binary _, .double _ _ | branch _, .branch _ => true
  | _, _ => false

/-- Operands that are found are of the kind that their fields are for. -/
theorem suits_of_operandsOf {effect : Effect} {fields : Fields}
    (hfields : effect.suitsFields fields = true) {space : AddressSpace} {operands : Operands}
    (hfound : space.operandsOf fields = .ok operands) : effect.suits operands = true := by
  cases AddressSpace.finds_of_operandsOf hfound
  all_goals cases effect <;> first | rfl | cases hfields

end Effect

namespace Entry

/-- An entry is well shaped if and only if it was built for its effect, whatever
its mask has been set to. -/
theorem wellShaped_iff (entry : Entry) :
    entry.wellShaped = true ↔
      ∃ registerSource mask,
        entry = (ofEffect entry.name entry.opcode entry.effect registerSource).withMask mask := by
  constructor
  · intro hshaped
    obtain ⟨mask, opcode, shape, name, effect⟩ := entry
    refine ⟨decide (shape = .doubleOperandReg), mask, ?_⟩
    cases effect <;> cases shape <;> first | rfl | cases hshaped
  · rintro ⟨registerSource, mask, hbuilt⟩
    rw [hbuilt, wellShaped_withMask, wellShaped_ofEffect]

/-- A well-shaped entry has fields for the operands that its effect works on. -/
theorem suitsFields_of_wellShaped {entry : Entry} (hshaped : entry.wellShaped = true)
    {fields : Fields} (hfits : fields.Fits entry.shape) :
    entry.effect.suitsFields fields = true := by
  obtain ⟨mask, opcode, shape, name, effect⟩ := entry
  cases effect <;> cases shape <;> cases fields <;>
    simp_all [wellShaped, Fields.Fits, Effect.suitsFields]

end Entry

namespace Table

/-- Every entry pairs its effect with a shape that suits it. -/
def WellShaped (table : Table) : Prop := ∀ entry ∈ table.entries, entry.wellShaped = true

instance (table : Table) : Decidable table.WellShaped :=
  inferInstanceAs (Decidable (∀ entry ∈ table.entries, entry.wellShaped = true))

theorem standard_wellShaped : standard.WellShaped := wellShaped_standard

/-- A word is undecoded if and only if no entry selects it. -/
theorem decode?_eq_none_iff (table : Table) (word : Word) :
    table.decode? word = none ↔ ∀ entry ∈ table.entries, entry.selects word = false := by
  simp only [decode?, List.find?_eq_none, Bool.not_eq_true]

end Table

end WordMachine
