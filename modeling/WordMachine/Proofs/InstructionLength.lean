import WordMachine.Proofs.Execution

/-!
# The length of an instruction

How many words an instruction takes out of the instruction stream can be told
from the modes of its operands.  A fault does not change it, so the stream stays
in step whatever becomes of the operands.
-/

namespace WordMachine

/-- A branch from inside the address space does not wrap around. -/
theorem toNat_branchTarget {pc : Word} (hpc : pc.toNat ≤ Layout.spaceSize) (displacement : Byte) :
    (branchTarget pc displacement).toNat = pc.toNat + 2 * displacement.toNat := by
  have hsize : Layout.spaceSize = 0xC000 := rfl
  have hdisplacement := displacement.isLt
  have hdouble : (displacement.setWidth 16 * 2 : Word).toNat = 2 * displacement.toNat := by
    have htwo : (2 : Word).toNat = 2 := rfl
    rw [BitVec.toNat_mul, BitVec.toNat_setWidth, htwo]
    omega
  rw [branchTarget, BitVec.toNat_add, hdouble]
  omega

namespace Machine

namespace Fetched

/-- Where the instruction stream goes on after the instruction. -/
def endCursor (fetched : Fetched) : Nat :=
  cursorAfter fetched.fields.specs (fetched.pc.toNat + wordSize)

theorem endCursor_le {fetched : Fetched} (hroom : fetched.pc.toNat + 1 < Layout.spaceSize) :
    fetched.endCursor ≤ Layout.spaceSize :=
  cursorAfter_le fetched.fields.specs hroom

end Fetched

variable {machine : Machine} {fetched : Fetched}

theorem toNat_pc_operandSpace (hroom : machine.pc.toNat + 1 < Layout.spaceSize) :
    machine.operandSpace.pc.toNat = machine.pc.toNat + wordSize :=
  machine.space.toNat_register_adjust_forward hroom

theorem toNat_pc_followedAll_operandSpace (hinstruction : machine.instruction? = some fetched)
    (hback : ∀ spec ∈ fetched.fields.specs, spec.backsUp = false) :
    (machine.operandSpace.followedAll fetched.fields.specs).pc.toNat = fetched.endCursor := by
  obtain ⟨hpc, -, hroom, -⟩ := pc_of_instruction? hinstruction
  rw [machine.operandSpace.toNat_pc_followedAll hback, toNat_pc_operandSpace hroom,
    Fetched.endCursor, hpc]

theorem toNat_pc_executed_of_branches (hinstruction : machine.instruction? = some fetched)
    (hback : ∀ spec ∈ fetched.fields.specs, spec.backsUp = false) {displacement : Byte}
    (hbranches : fetched.Branches machine.codes displacement) :
    (machine.executed fetched).machine.pc.toNat =
      fetched.endCursor + 2 * displacement.toNat := by
  obtain ⟨hpc, -, hroom, -⟩ := pc_of_instruction? hinstruction
  have hcursor := toNat_pc_followedAll_operandSpace hinstruction hback
  have hend : fetched.endCursor ≤ Layout.spaceSize := Fetched.endCursor_le (hpc ▸ hroom)
  rw [pc_executed_of_branches hbranches, toNat_branchTarget (hcursor ▸ hend), hcursor]

theorem toNat_pc_executed (hinstruction : machine.instruction? = some fetched)
    (hfields : fetched.entry.effect.suitsFields fetched.fields = true)
    (hback : ∀ spec ∈ fetched.fields.specs, spec.backsUp = false)
    (hbranches : ∀ displacement, ¬fetched.Branches machine.codes displacement)
    (hwrites : ¬machine.WritesRegister fetched .pc) :
    (machine.executed fetched).machine.pc.toNat = fetched.endCursor := by
  rw [← toNat_pc_followedAll_operandSpace hinstruction hback, pc, AddressSpace.pc_eq_register,
    register_executed hfields (fun _ => hbranches) hwrites, AddressSpace.pc_eq_register]

/-- The length of an instruction is static: once its operands were followed, the
program counter is past the words that their modes ask for, whatever came of the
operands.  There it stays to the end of the step, except that a branch that is
taken adds its displacement, and that a result whose destination is the program
counter takes its place. -/
theorem pc_after_step (hshaped : machine.table.WellShaped)
    (hinstruction : machine.instruction? = some fetched)
    (hback : ∀ spec ∈ fetched.fields.specs, spec.backsUp = false) :
    fetched.pc = machine.pc ∧
    ∃ resolved transition,
      machine.operandSpace.resolveOperands fetched.fields = .ok resolved ∧
      resolved.space.pc.toNat = fetched.endCursor ∧
      machine.step = .ok transition ∧
      (∀ displacement, fetched.Branches machine.codes displacement →
        transition.machine.pc.toNat = fetched.endCursor + 2 * displacement.toNat) ∧
      (machine.WritesRegister fetched .pc →
        ∃ operands result, resolved.operands = .ok operands ∧
          (fetched.entry.effect.computed operands resolved.space).1 = some result ∧
          transition.machine.pc = result) ∧
      ((∀ displacement, ¬fetched.Branches machine.codes displacement) →
        ¬machine.WritesRegister fetched .pc →
        transition.machine.pc.toNat = fetched.endCursor) := by
  have hfields := suitsFields_of_instruction? hshaped hinstruction
  refine ⟨(pc_of_instruction? hinstruction).1, _, _,
    machine.operandSpace.resolveOperands_eq fetched.fields,
    toNat_pc_followedAll_operandSpace hinstruction hback,
    machine.step_of_instruction hshaped hinstruction, ?_, ?_, ?_⟩
  · intro displacement hbranches
    exact toNat_pc_executed_of_branches hinstruction hback hbranches
  · intro hwrites
    exact register_executed_of_writes hfields hwrites
  · intro hbranches hwrites
    exact toNat_pc_executed hinstruction hfields hback hbranches hwrites

/-- A move takes its index out of the instruction stream even though the
decrement of its destination underflows. -/
theorem pc_after_step_of_underflow :
    (Table.standard.WellShaped ∧
      (∃ fetched, (facing 0o016142).instruction? = some fetched ∧
        ∀ spec ∈ fetched.fields.specs, spec.backsUp = false)) ∧
    ∃ transition, (facing 0o016142).step = .ok transition ∧
      transition.machine.pc.toNat = 0x8004 := by
  have hinstruction := instruction?_facing
    (rfl : Table.standard.decode? 0o016142 = some (.double "mov" 0o010000 .mov))
  have hback : ∀ spec ∈ (Fields.decoded .doubleOperand 0o016142).specs,
      spec.backsUp = false := by decide
  obtain ⟨-, resolved, transition, -, -, hstep, -, -, hstays⟩ :=
    pc_after_step Table.standard_wellShaped hinstruction hback
  refine ⟨⟨Table.standard_wellShaped, _, hinstruction, hback⟩, transition, hstep, ?_⟩
  apply hstays
  · rintro displacement ⟨hfields, -⟩
    cases hfields
  · rintro ⟨-, -, hdst⟩
    exact absurd hdst (by decide)

end Machine

end WordMachine
