import WordMachine.Proofs.RegisterMotion
import WordMachine.Proofs.Step

/-!
# What executing an instruction changes

The operands of an instruction are followed first, and then its effect takes
place, unless one of them was not found.  This module says, part by part, what
the machine holds after both.
-/

namespace WordMachine

namespace Machine

namespace Fetched

/-- The instruction is a branch that these condition codes let through. -/
def Branches (fetched : Fetched) (codes : ConditionCodes) (displacement : Byte) : Prop :=
  fetched.fields = .branch displacement ∧
    ∃ condition, fetched.entry.effect = .branch condition ∧ condition.holds codes = true

/-- The instruction has a result, and the register for its destination. -/
def Targets (fetched : Fetched) (reg : Register) : Prop :=
  fetched.entry.effect.writes = true ∧ fetched.fields.destination? = some (.direct reg)

end Fetched

variable (machine : Machine) (fetched : Fetched)

/-- An operand of the instruction is not found. -/
def faulted : Bool :=
  (machine.operandSpace.trail fetched.fields.specs).any fun step => !step.2.isOk

/-- The result of the instruction is stored in the register. -/
def WritesRegister (reg : Register) : Prop :=
  machine.faulted fetched = false ∧ fetched.Targets reg

variable {machine fetched}

/-! ## Finding the operands -/

theorem isOk_operandsOf_iff :
    (machine.operandSpace.operandsOf fetched.fields).isOk = true ↔
      machine.faulted fetched = false := by
  rw [AddressSpace.isOk_operandsOf, faulted, List.any_eq_not_all_not]
  simp only [Bool.not_not, Bool.not_eq_false']

theorem faulted_of_fault {fault : MemoryFault}
    (hfault : machine.operandSpace.operandsOf fetched.fields = .error fault) :
    machine.faulted fetched = true := by
  rw [← Bool.not_eq_false, ← isOk_operandsOf_iff, hfault]
  exact Bool.false_ne_true

theorem not_faulted_of_found {operands : Operands}
    (hfound : machine.operandSpace.operandsOf fetched.fields = .ok operands) :
    machine.faulted fetched = false := by
  rw [← isOk_operandsOf_iff, hfound]
  rfl

theorem exists_found_of_not_faulted (hfaulted : machine.faulted fetched = false) :
    ∃ operands, machine.operandSpace.operandsOf fetched.fields = .ok operands := by
  cases hfound : machine.operandSpace.operandsOf fetched.fields with
  | error fault =>
      rw [faulted_of_fault hfound] at hfaulted
      cases hfaulted
  | ok operands => exact ⟨operands, rfl⟩

/-! ## After the operands -/

theorem register_operandSpace_of_ne {reg : Register} (hreg : reg ≠ .pc) :
    machine.operandSpace.register reg = machine.space.register reg :=
  machine.space.register_adjust_of_ne hreg.symm 2

theorem memory_followedAll_operandSpace (specs : List OperandSpec) :
    (machine.operandSpace.followedAll specs).memory = machine.space.memory := by
  rw [AddressSpace.memory_followedAll]
  rfl

theorem codes_followedAll_operandSpace (specs : List OperandSpec) :
    (machine.operandSpace.followedAll specs).codes = machine.codes := by
  rw [AddressSpace.codes_followedAll]
  rfl

theorem toNat_register_followedAll_operandSpace {reg : Register} (hreg : reg ≠ .pc)
    (specs : List OperandSpec) :
    (((machine.operandSpace.followedAll specs).register reg).toNat : Int) =
      (machine.space.register reg).toNat +
        AddressSpace.shiftOf reg (machine.operandSpace.trail specs) := by
  rw [AddressSpace.toNat_register_followedAll _ hreg, register_operandSpace_of_ne hreg]

/-! ## After the effect -/

/-- A byte that changes is one of the two at the resolved destination. -/
theorem exists_destination_of_byteAt_executed_ne {place : Nat}
    (hchanged : (machine.executed fetched).machine.space.byteAt place ≠
      machine.space.byteAt place) :
    ∃ operands address, machine.operandSpace.operandsOf fetched.fields = .ok operands ∧
      operands.destination? = some (.memory address) ∧
      (place = address.offset ∨ place = address.offset + 1) := by
  have hfollowed : (machine.operandSpace.followedAll fetched.fields.specs).byteAt place =
      machine.space.byteAt place := by
    rw [AddressSpace.byteAt, memory_followedAll_operandSpace, ← AddressSpace.byteAt]
  rw [← hfollowed] at hchanged
  cases hfound : machine.operandSpace.operandsOf fetched.fields with
  | error fault =>
      rw [space_executed_of_fault _ hfound] at hchanged
      exact absurd rfl hchanged
  | ok operands =>
      rw [space_executed_of_found _ hfound] at hchanged
      obtain ⟨address, result, hstored, hplace⟩ := Effect.exists_stored_of_byteAt_after_ne hchanged
      exact ⟨operands, address, rfl, (Effect.stored?_eq_some_iff.mp hstored).1, hplace⟩

/-- Memory stays as it is if an operand is not found, the instruction has no
result, or its destination is a register. -/
theorem memory_executed (hfields : fetched.entry.effect.suitsFields fetched.fields = true)
    (hspares : machine.faulted fetched = true ∨ fetched.entry.effect.writes = false ∨
      ∃ reg, fetched.fields.destination? = some (.direct reg)) :
    (machine.executed fetched).machine.space.memory = machine.space.memory := by
  cases hfound : machine.operandSpace.operandsOf fetched.fields with
  | error fault => rw [space_executed_of_fault _ hfound, memory_followedAll_operandSpace]
  | ok operands =>
      rw [space_executed_of_found _ hfound, Effect.memory_after, memory_followedAll_operandSpace]
      -- Each of the three leaves no result to store, or no place in memory for it.
      intro address result hstored
      have hdst := (Effect.stored?_eq_some_iff.mp hstored).1
      obtain hfaulted | hwrites | ⟨reg, hdirect⟩ := hspares
      · rw [not_faulted_of_found hfound] at hfaulted
        cases hfaulted
      · rw [Effect.stored?_eq_none_of_not_writes (Effect.suits_of_operandsOf hfields hfound)
          hwrites] at hstored
        cases hstored
      · rw [(AddressSpace.destination?_eq_register_iff hfound reg).mpr hdirect] at hdst
        cases hdst

/-- A register is where the operands moved it, unless a result is stored in it,
or it is the program counter and a branch is taken. -/
theorem register_executed (hfields : fetched.entry.effect.suitsFields fetched.fields = true)
    {reg : Register}
    (hbranches : reg = .pc → ∀ displacement, ¬fetched.Branches machine.codes displacement)
    (hwrites : ¬machine.WritesRegister fetched reg) :
    (machine.executed fetched).machine.space.register reg =
      (machine.operandSpace.followedAll fetched.fields.specs).register reg := by
  cases hfound : machine.operandSpace.operandsOf fetched.fields with
  | error fault => rw [space_executed_of_fault _ hfound]
  | ok operands =>
      rw [space_executed_of_found _ hfound]
      apply Effect.register_after
      · intro hpc
        rw [codes_followedAll_operandSpace, Option.eq_none_iff_forall_ne_some]
        intro displacement htaken
        obtain ⟨rfl, hcondition⟩ := Effect.taken?_eq_some_iff.mp htaken
        exact hbranches hpc displacement ⟨AddressSpace.eq_branch_of_operandsOf hfound, hcondition⟩
      · intro result hstored
        obtain ⟨hdst, hresult⟩ := Effect.stored?_eq_some_iff.mp hstored
        apply hwrites
        refine ⟨not_faulted_of_found hfound, ?_, ?_⟩
        · rw [← Effect.isSome_computed (Effect.suits_of_operandsOf hfields hfound), hresult]
          rfl
        · exact (AddressSpace.destination?_eq_register_iff hfound reg).mp hdst

theorem register_executed_of_writes
    (hfields : fetched.entry.effect.suitsFields fetched.fields = true) {reg : Register}
    (hwrites : machine.WritesRegister fetched reg) :
    ∃ operands result, machine.operandSpace.operandsOf fetched.fields = .ok operands ∧
      (fetched.entry.effect.computed operands
        (machine.operandSpace.followedAll fetched.fields.specs)).1 = some result ∧
      (machine.executed fetched).machine.space.register reg = result := by
  obtain ⟨hfaulted, hresult, hdirect⟩ := hwrites
  obtain ⟨operands, hfound⟩ := exists_found_of_not_faulted hfaulted
  rw [← Effect.isSome_computed (Effect.suits_of_operandsOf hfields hfound)
    (machine.operandSpace.followedAll fetched.fields.specs), Option.isSome_iff_exists] at hresult
  obtain ⟨result, hresult⟩ := hresult
  have hdst := (AddressSpace.destination?_eq_register_iff hfound reg).mpr hdirect
  have hstored := Effect.stored?_eq_some_iff.mpr ⟨hdst, hresult⟩
  refine ⟨operands, result, hfound, hresult, ?_⟩
  rw [space_executed_of_found _ hfound, Effect.after_of_stored hstored,
    AddressSpace.register_withValue, if_pos rfl]

theorem pc_executed_of_branches {displacement : Byte}
    (hbranches : fetched.Branches machine.codes displacement) :
    (machine.executed fetched).machine.pc =
      branchTarget (machine.operandSpace.followedAll fetched.fields.specs).pc displacement := by
  obtain ⟨hfields, hcondition⟩ := hbranches
  have hfound : machine.operandSpace.operandsOf fetched.fields =
      .ok (.displacement displacement) := by rw [hfields, AddressSpace.operandsOf]
  have htaken : fetched.entry.effect.taken? (.displacement displacement)
      (machine.operandSpace.followedAll fetched.fields.specs).codes = some displacement := by
    rw [codes_followedAll_operandSpace]
    exact Effect.taken?_eq_some_iff.mpr ⟨rfl, hcondition⟩
  rw [pc, space_executed_of_found _ hfound, Effect.after_of_taken htaken,
    AddressSpace.pc_eq_register, AddressSpace.setPc_eq_setRegister,
    AddressSpace.register_setRegister, if_pos rfl]

/-- The condition codes stay as they are if an operand is not found, and for
branches, halting and doing nothing. -/
theorem codes_executed
    (hspares : machine.faulted fetched = true ∨
      (∃ condition, fetched.entry.effect = .branch condition) ∨
      fetched.entry.effect = .control .halt ∨ fetched.entry.effect = .control .nop) :
    (machine.executed fetched).machine.codes = machine.codes := by
  rw [codes]
  cases hfound : machine.operandSpace.operandsOf fetched.fields with
  | error fault => rw [space_executed_of_fault _ hfound, codes_followedAll_operandSpace]
  | ok operands =>
      rw [space_executed_of_found _ hfound, Effect.codes_after, codes_followedAll_operandSpace]
      obtain hfaulted | hquiet := hspares
      · rw [not_faulted_of_found hfound] at hfaulted
        cases hfaulted
      · exact hquiet

@[simp]
theorem romLength_executed :
    (machine.executed fetched).machine.space.romLength = machine.space.romLength := by
  rw [space_executed, AddressSpace.romLength_executed]
  rfl

/-! ## The accounts -/

@[simp]
theorem table_executed : (machine.executed fetched).machine.table = machine.table := by
  rw [executed]
  split <;> rfl

@[simp]
theorem costs_executed : (machine.executed fetched).machine.costs = machine.costs := by
  rw [executed]
  split <;> rfl

@[simp]
theorem traces_executed : (machine.executed fetched).machine.traces = machine.traces := by
  rw [executed]
  split <;> rfl

@[simp]
theorem timer_executed : (machine.executed fetched).machine.timer = machine.timer := by
  rw [executed]
  split <;> rfl

@[simp]
theorem toFetched_executed :
    (machine.executed fetched).toFetched = fetched.charge .execute machine.costs.execute := by
  rw [executed]
  split <;> rfl

@[simp]
theorem extensions_executed :
    (machine.executed fetched).extensions = machine.operandSpace.extensionsOf fetched.fields := by
  rw [executed]
  split <;> rfl

variable (machine fetched) in
/-- The line that a step enters into the trace for the instruction that it executes. -/
def tracedLine : String :=
  fetched.entry.text fetched.fields (machine.operandSpace.extensionsOf fetched.fields)

theorem traces_retire_executed :
    (retire (machine.executed fetched)).machine.traces =
      machine.traces.push (machine.tracedLine fetched) fetched.word := by
  simp only [retire, traces_executed, toFetched_executed, extensions_executed, tracedLine,
    Fetched.charge]

/-- Executing an instruction counts an operand fault if and only if one of its
operands is not found. -/
theorem operandFaults_executed :
    (machine.executed fetched).machine.stats.operandFaults =
      machine.stats.operandFaults + (machine.faulted fetched).toNat := by
  cases hfound : machine.operandSpace.operandsOf fetched.fields with
  | error fault =>
      rw [faulted_of_fault hfound, executed, hfound]
      rfl
  | ok operands =>
      rw [not_faulted_of_found hfound, executed, hfound]
      simp only [Bool.toNat_false, Nat.add_zero]
      split <;> rfl

/-- A step keeps the table. -/
theorem table_of_exit {transition : Transition} (hexit : machine.Exit transition) :
    transition.machine.table = machine.table := by
  cases hexit with
  | ended | unfetched | undecoded => rfl
  | executed hinstruction => exact table_executed

end Machine

end WordMachine
