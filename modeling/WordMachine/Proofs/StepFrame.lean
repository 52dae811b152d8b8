import WordMachine.Proofs.Execution

/-!
# The frame of a step

A step that executes an instruction writes one word of memory at most, and moves
registers by no more than the modes of the operands say.  An operand that is not
found moves nothing and keeps the effect from taking place; what an operand
before it or after it has moved stays moved.
-/

namespace WordMachine

namespace Machine

/-- How far a step that executes an instruction can change a machine. -/
structure Frame (machine : Machine) (fetched : Fetched) (after : Machine) : Prop where
  operandFaults : after.stats.operandFaults =
    machine.stats.operandFaults + (machine.faulted fetched).toNat
  /-- A byte that changes is one of the two at the resolved destination. -/
  bytes : ∀ place, after.space.byteAt place ≠ machine.space.byteAt place →
    ∃ resolved operands address,
      machine.operandSpace.resolveOperands fetched.fields = .ok resolved ∧
      resolved.operands = .ok operands ∧ operands.destination? = some (.memory address) ∧
      (place = address.offset ∨ place = address.offset + 1)
  memory : machine.faulted fetched = true ∨ fetched.entry.effect.writes = false ∨
      (∃ reg, fetched.fields.destination? = some (.direct reg)) →
    after.space.memory = machine.space.memory
  /-- A register that receives no result moves by as much as the operands that
  are found move it. -/
  register : ∀ reg, reg ≠ .pc → ¬machine.WritesRegister fetched reg →
    ((after.space.register reg).toNat : Int) = (machine.space.register reg).toNat +
      AddressSpace.shiftOf reg (machine.operandSpace.trail fetched.fields.specs)
  codes : machine.faulted fetched = true ∨
      (∃ condition, fetched.entry.effect = .branch condition) ∨
      fetched.entry.effect = .control .halt ∨ fetched.entry.effect = .control .nop →
    after.codes = machine.codes
  romLength : after.space.romLength = machine.space.romLength
  table : after.table = machine.table
  costs : after.costs = machine.costs
  disassemblyCapacity : after.traces.disassembly.capacity = machine.traces.disassembly.capacity
  bytesCapacity : after.traces.bytes.capacity = machine.traces.bytes.capacity

variable {machine : Machine} {fetched : Fetched}

theorem frame_executed (hfields : fetched.entry.effect.suitsFields fetched.fields = true) :
    machine.Frame fetched (retire (machine.executed fetched)).machine where
  operandFaults := by
    rw [← operandFaults_executed]
    exact Statistics.operandFaults_record _ _
  bytes := by
    intro place hchanged
    obtain ⟨operands, address, hfound, hdst⟩ := exists_destination_of_byteAt_executed_ne hchanged
    exact ⟨_, operands, address, AddressSpace.resolveOperands_eq _ _, hfound, hdst⟩
  memory := memory_executed hfields
  register := by
    intro reg hreg hwrites
    rw [← toNat_register_followedAll_operandSpace hreg,
      ← register_executed hfields (fun hpc => absurd hpc hreg) hwrites]
    rfl
  codes := codes_executed
  romLength := romLength_executed
  table := table_executed
  costs := costs_executed
  disassemblyCapacity := congrArg (·.disassembly.capacity) traces_executed
  bytesCapacity := congrArg (·.bytes.capacity) traces_executed

/-- A step that continues has executed an instruction, and has changed the
machine within the frame of that instruction only. -/
theorem step_frame {transition : Transition} (hshaped : machine.table.WellShaped)
    (hstep : machine.step = .ok transition) (hcontinuing : transition.outcome = .ok .continuing) :
    ∃ fetched, machine.instruction? = some fetched ∧
      machine.Frame fetched transition.machine := by
  obtain ⟨made, hmade, hexit⟩ := machine.exists_exit hshaped
  obtain rfl : made = transition := Except.ok.inj (hmade.symm.trans hstep)
  cases hexit with
  | ended | unfetched | undecoded => cases hcontinuing
  | executed hinstruction =>
      have hfields := suitsFields_of_instruction? hshaped hinstruction
      exact ⟨_, hinstruction, frame_executed hfields⟩

/-- When the decrement of a destination underflows, memory stays as it is, but
the increment of the source is not taken back. -/
theorem step_frame_of_underflow :
    Table.standard.WellShaped ∧ ∃ transition,
      (facing 0o012142).step = .ok transition ∧ transition.outcome = .ok .continuing ∧
      transition.machine.stats.operandFaults = 1 ∧
      transition.machine.space.memory = (facing 0o012142).space.memory ∧
      (transition.machine.space.register .r1).toNat = 2 ∧
      (transition.machine.space.register .r2).toNat = 0 := by
  have hinstruction := instruction?_facing
    (rfl : Table.standard.decode? 0o012142 = some (.double "mov" 0o010000 .mov))
  have hstep := step_of_instruction (facing 0o012142) Table.standard_wellShaped hinstruction
  obtain ⟨fetched, hfetched, hframe⟩ := step_frame Table.standard_wellShaped hstep rfl
  obtain rfl := Option.some.inj (hinstruction.symm.trans hfetched)
  have hfaulted : (facing 0o012142).faulted
      ⟨0x8000, 0o012142, .double "mov" 0o010000 .mov, .decoded .doubleOperand 0o012142,
        .ofDecoding {}⟩ = true :=
    rfl
  have hmoved := fun reg hreg => hframe.register reg hreg fun hwrites =>
    Bool.false_ne_true (hwrites.1.symm.trans hfaulted)
  refine ⟨Table.standard_wellShaped, _, hstep, rfl, ?_, hframe.memory (.inl hfaulted), ?_, ?_⟩
  · rw [hframe.operandFaults]
    exact congrArg (0 + ·.toNat) hfaulted
  · exact Int.ofNat.inj (hmoved .r1 (by decide))
  · exact Int.ofNat.inj (hmoved .r2 (by decide))

end Machine

end WordMachine
