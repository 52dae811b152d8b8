import WordMachine.Machine.Step
import WordMachine.Proofs.Decoding
import WordMachine.Proofs.Timing

/-!
# The exits of a step

A step has four exits: the program has ended, nothing can be fetched, the word
is no instruction, or an instruction is executed.  For each of them this module
gives the condition and everything that the step then leaves behind.
-/

namespace WordMachine

namespace WordAddress

theorem ofFetch_of_outside {pc : Word}
    (houtside : pc.toNat < Layout.romBase ∨ Layout.spaceSize ≤ pc.toNat + 1) :
    ofFetch pc = .error (.fetchOutOfRange pc) := by
  rw [ofFetch, dif_neg]
  omega

theorem ofFetch_of_odd {pc : Word} (hrom : Layout.romBase ≤ pc.toNat)
    (hspace : pc.toNat + 1 < Layout.spaceSize) (hodd : pc.toNat % wordSize ≠ 0) :
    ofFetch pc = .error (.misalignedFetch pc) := by
  rw [ofFetch, dif_pos ⟨hrom, hspace⟩, if_neg hodd]

theorem ofFetch_of_even {pc : Word} (hrom : Layout.romBase ≤ pc.toNat)
    (hspace : pc.toNat + 1 < Layout.spaceSize) (heven : pc.toNat % wordSize = 0) :
    ofFetch pc = .ok ⟨pc, hspace⟩ := by
  rw [ofFetch, dif_pos ⟨hrom, hspace⟩, if_pos heven]

/-- An instruction is fetched from an even address inside the region of the
program, and from no other. -/
theorem ofFetch_eq_ok_iff {pc : Word} {address : WordAddress} :
    ofFetch pc = .ok address ↔
      address.val = pc ∧ Layout.romBase ≤ pc.toNat ∧ pc.toNat % wordSize = 0 := by
  constructor
  · intro hfetch
    rw [ofFetch] at hfetch
    split at hfetch
    · rename_i hinside
      split at hfetch
      · rename_i heven
        cases hfetch
        exact ⟨rfl, hinside.1, heven⟩
      · cases hfetch
    · cases hfetch
  · rintro ⟨rfl, hrom, heven⟩
    exact ofFetch_of_even hrom address.inSpace heven

end WordAddress

namespace Machine

variable (machine : Machine)

/-- The instruction that the next step executes, if it executes one. -/
def instruction? : Option Fetched :=
  if machine.space.programEnd ≤ machine.pc.toNat then none
  else
    match WordAddress.ofFetch machine.pc with
    | .error _ => none
    | .ok address =>
        let word := machine.space.wordAt address
        (machine.table.decode? word).map fun entry =>
          ⟨machine.pc, word, entry, .decoded entry.shape word, .ofDecoding machine.costs⟩

/-- The space in which the operands of an instruction are followed: the program
counter is past the word of the instruction. -/
def operandSpace : AddressSpace := machine.space.setPc (machine.pc + 2)

/-- The machine after a word that is no instruction: the word is stepped over and
counted. -/
def skipped : Machine :=
  { machine with
    space := machine.operandSpace
    stats := { machine.stats with invalidOpcodes := machine.stats.invalidOpcodes + 1 } }

/-- An instruction after its execution, before it is entered into the accounts. -/
def executed (fetched : Fetched) : Executed :=
  let space := machine.operandSpace.followedAll fetched.fields.specs
  let extensions := machine.operandSpace.extensionsOf fetched.fields
  match machine.operandSpace.operandsOf fetched.fields with
  | .ok operands =>
      let stats := if (fetched.entry.effect.taken? operands space.codes).isSome then
          { machine.stats with branchesTaken := machine.stats.branchesTaken + 1 }
        else machine.stats
      { toFetched := fetched.charge .execute machine.costs.execute
        extensions := extensions
        machine := { machine with
          space := fetched.entry.effect.after operands space
          stats := stats }
        events := [] }
  | .error fault =>
      let stats := { machine.stats with operandFaults := machine.stats.operandFaults + 1 }
      { toFetched := fetched.charge .execute machine.costs.execute
        extensions := extensions
        machine := { machine with space := space, stats := stats }
        events := [.operandUnresolved fetched.pc fetched.word fetched.entry.name fault] }

theorem space_executed_of_found {fetched : Fetched} {operands : Operands}
    (hfound : machine.operandSpace.operandsOf fetched.fields = .ok operands) :
    (machine.executed fetched).machine.space =
      fetched.entry.effect.after operands
        (machine.operandSpace.followedAll fetched.fields.specs) := by
  rw [executed, hfound]

theorem space_executed_of_fault {fetched : Fetched} {fault : MemoryFault}
    (hfault : machine.operandSpace.operandsOf fetched.fields = .error fault) :
    (machine.executed fetched).machine.space =
      machine.operandSpace.followedAll fetched.fields.specs := by
  rw [executed, hfault]

theorem space_executed (fetched : Fetched) :
    (machine.executed fetched).machine.space =
      machine.operandSpace.executed fetched.entry.effect fetched.fields := by
  rw [AddressSpace.executed]
  cases hfound : machine.operandSpace.operandsOf fetched.fields with
  | error fault => exact machine.space_executed_of_fault hfound
  | ok operands => exact machine.space_executed_of_found hfound

/-! ## Fetching and decoding -/

theorem instruction?_eq_some_iff {machine : Machine} {fetched : Fetched} :
    machine.instruction? = some fetched ↔
      machine.pc.toNat < machine.space.programEnd ∧
        ∃ address, WordAddress.ofFetch machine.pc = .ok address ∧
          ∃ entry, machine.table.decode? (machine.space.wordAt address) = some entry ∧
            fetched = ⟨machine.pc, machine.space.wordAt address, entry,
              .decoded entry.shape (machine.space.wordAt address),
              .ofDecoding machine.costs⟩ := by
  rw [instruction?]
  by_cases hended : machine.space.programEnd ≤ machine.pc.toNat
  · rw [if_pos hended]
    simp [Nat.not_lt.mpr hended]
  · rw [if_neg hended]
    cases hfetch : WordAddress.ofFetch machine.pc with
    | error fault => simp
    | ok address =>
        simp only [Option.map_eq_some_iff, Nat.lt_of_not_le hended, true_and, Except.ok.injEq,
          exists_eq_left']
        constructor
        · rintro ⟨entry, hentry, rfl⟩
          exact ⟨entry, hentry, rfl⟩
        · rintro ⟨entry, hentry, rfl⟩
          exact ⟨entry, hentry, rfl⟩

/-- An instruction of a well-shaped table has fields for the operands that its
effect works on. -/
theorem suitsFields_of_instruction? {machine : Machine} (hshaped : machine.table.WellShaped)
    {fetched : Fetched} (hinstruction : machine.instruction? = some fetched) :
    fetched.entry.effect.suitsFields fetched.fields = true := by
  obtain ⟨-, address, -, entry, hdecode, rfl⟩ := instruction?_eq_some_iff.mp hinstruction
  exact Entry.suitsFields_of_wellShaped (hshaped entry (Table.mem_of_decode hdecode))
    (Fields.fits_decoded _ _)

/-- An instruction stands at an even address inside the region of the program. -/
theorem pc_of_instruction? {machine : Machine} {fetched : Fetched}
    (hinstruction : machine.instruction? = some fetched) :
    fetched.pc = machine.pc ∧ Layout.romBase ≤ machine.pc.toNat ∧
      machine.pc.toNat + 1 < Layout.spaceSize ∧ machine.pc.toNat % wordSize = 0 := by
  obtain ⟨-, address, hfetch, entry, -, rfl⟩ := instruction?_eq_some_iff.mp hinstruction
  obtain ⟨hval, hrom, heven⟩ := WordAddress.ofFetch_eq_ok_iff.mp hfetch
  exact ⟨rfl, hrom, hval ▸ address.inSpace, heven⟩

/-! ## The four exits -/

theorem step_of_ended (hended : machine.space.programEnd ≤ machine.pc.toNat) :
    machine.step = .ok ⟨.ok .finished, machine, []⟩ :=
  if_pos hended

theorem step_of_unfetched {fault : MemoryFault}
    (hrunning : machine.pc.toNat < machine.space.programEnd)
    (hfault : WordAddress.ofFetch machine.pc = .error fault) :
    machine.step = .ok ⟨.error (.fetch fault), machine, [.fetchFailed machine.pc fault]⟩ := by
  simp only [step, if_neg (Nat.not_le.mpr hrunning), hfault]
  rfl

theorem step_of_undecoded {address : WordAddress}
    (hrunning : machine.pc.toNat < machine.space.programEnd)
    (haddress : WordAddress.ofFetch machine.pc = .ok address)
    (hword : machine.table.decode? (machine.space.wordAt address) = none) :
    machine.step =
      .ok ⟨.error (.invalidOpcode (machine.space.wordAt address) machine.pc), machine.skipped,
        [.invalidOpcode machine.pc (machine.space.wordAt address)]⟩ := by
  have htable : (machine.setPc (machine.pc + 2)).table.decode? (machine.space.wordAt address) =
      none := hword
  simp only [step, if_neg (Nat.not_le.mpr hrunning), haddress, AddressSpace.loadWord_eq, ok_bind,
    htable]
  rfl

theorem execute_eq {fetched : Fetched}
    (hfields : fetched.entry.effect.suitsFields fetched.fields = true) :
    (machine.setPc (machine.pc + 2)).execute fetched = .ok (machine.executed fetched) := by
  have hspace : (machine.setPc (machine.pc + 2)).space = machine.operandSpace := rfl
  simp only [execute, hspace, AddressSpace.resolveOperands_eq, ok_bind, executed]
  cases hfound : machine.operandSpace.operandsOf fetched.fields with
  | error fault => rfl
  | ok operands =>
      simp only [Effect.apply_eq (Effect.suits_of_operandsOf hfields hfound), ok_bind]
      rfl

theorem step_of_instruction (hshaped : machine.table.WellShaped) {fetched : Fetched}
    (hinstruction : machine.instruction? = some fetched) :
    machine.step = .ok (retire (machine.executed fetched)) := by
  have hfields := suitsFields_of_instruction? hshaped hinstruction
  obtain ⟨hrunning, address, haddress, entry, hdecode, rfl⟩ :=
    instruction?_eq_some_iff.mp hinstruction
  have htable : (machine.setPc (machine.pc + 2)).table.decode? (machine.space.wordAt address) =
      some entry := hdecode
  have htiming : (StepRecord.empty.record .fetch (machine.setPc (machine.pc + 2)).costs.fetch).record
      .decode (machine.setPc (machine.pc + 2)).costs.decode = .ofDecoding machine.costs := rfl
  simp only [step, if_neg (Nat.not_le.mpr hrunning), haddress, AddressSpace.loadWord_eq, ok_bind,
    htable, Fields.ofWord_eq, htiming, machine.execute_eq hfields]
  rfl

/-- What came of a step, by its exit. -/
inductive Exit : Transition → Prop where
  | ended (hended : machine.space.programEnd ≤ machine.pc.toNat) :
      Exit ⟨.ok .finished, machine, []⟩
  | unfetched {fault : MemoryFault} (hrunning : machine.pc.toNat < machine.space.programEnd)
      (hfault : WordAddress.ofFetch machine.pc = .error fault) :
      Exit ⟨.error (.fetch fault), machine, [.fetchFailed machine.pc fault]⟩
  | undecoded {address : WordAddress} (hrunning : machine.pc.toNat < machine.space.programEnd)
      (haddress : WordAddress.ofFetch machine.pc = .ok address)
      (hword : machine.table.decode? (machine.space.wordAt address) = none) :
      Exit ⟨.error (.invalidOpcode (machine.space.wordAt address) machine.pc), machine.skipped,
        [.invalidOpcode machine.pc (machine.space.wordAt address)]⟩
  | executed {fetched : Fetched} (hinstruction : machine.instruction? = some fetched) :
      Exit (retire (machine.executed fetched))

/-- A machine with a well-shaped table always makes its step, by one of the four
exits. -/
theorem exists_exit (hshaped : machine.table.WellShaped) :
    ∃ transition, machine.step = .ok transition ∧ machine.Exit transition := by
  by_cases hended : machine.space.programEnd ≤ machine.pc.toNat
  · exact ⟨_, machine.step_of_ended hended, .ended hended⟩
  · have hrunning := Nat.lt_of_not_le hended
    cases haddress : WordAddress.ofFetch machine.pc with
    | error fault =>
        exact ⟨_, machine.step_of_unfetched hrunning haddress, .unfetched hrunning haddress⟩
    | ok address =>
        cases hword : machine.table.decode? (machine.space.wordAt address) with
        | none =>
            exact ⟨_, machine.step_of_undecoded hrunning haddress hword,
              .undecoded hrunning haddress hword⟩
        | some entry =>
            have hinstruction := instruction?_eq_some_iff.mpr
              ⟨hrunning, address, haddress, entry, hword, rfl⟩
            exact ⟨_, machine.step_of_instruction hshaped hinstruction, .executed hinstruction⟩

theorem exit_of_step {machine : Machine} (hshaped : machine.table.WellShaped)
    {transition : Transition} (hstep : machine.step = .ok transition) :
    machine.Exit transition := by
  obtain ⟨made, hmade, hexit⟩ := machine.exists_exit hshaped
  rwa [Except.ok.inj (hmade.symm.trans hstep)] at hexit

/-! ## Several steps -/

/-- The machine after a number of steps. -/
def afterSteps : Nat → Checked Machine
  | 0 => .ok machine
  | count + 1 => do
      let reached ← afterSteps count
      let transition ← reached.step
      return transition.machine

theorem afterSteps_succ {machine reached : Machine} {count : Nat} {transition : Transition}
    (hreached : machine.afterSteps count = .ok reached) (hstep : reached.step = .ok transition) :
    machine.afterSteps (count + 1) = .ok transition.machine := by
  rw [afterSteps, hreached, ok_bind, hstep, ok_bind]
  rfl

/-! ## Programs of one word -/

/-- A machine at power-on about to execute a program of one word. -/
def facing (word : Word) : Machine :=
  let space : AddressSpace := { AddressSpace.blank with romLength := wordSize }
  { new {} with space := (space.withWord ⟨0x8000, by decide⟩ word).setPc 0x8000 }

theorem pc_facing (word : Word) : (facing word).pc = 0x8000 :=
  RegisterFile.read_write _ _ _ _

theorem ofFetch_facing (word : Word) :
    WordAddress.ofFetch (facing word).pc = .ok ⟨0x8000, by decide⟩ := by
  rw [pc_facing]
  rfl

theorem wordAt_facing (word : Word) : (facing word).space.wordAt ⟨0x8000, by decide⟩ = word :=
  AddressSpace.wordAt_withWord _ _ _

/-- The word after a program of one word is zero. -/
theorem wordAt_facing_after (word : Word) :
    (facing word).space.wordAt ⟨0x8002, by decide⟩ = 0 := by
  have hbyte (place : Nat) (hplace : 0x8001 < place) : (facing word).space.byteAt place = 0 := by
    rw [facing, AddressSpace.setPc_eq_setRegister]
    refine (AddressSpace.byteAt_withWord _ ⟨0x8000, by decide⟩ _ _).trans ?_
    refine (if_neg (Nat.ne_of_gt (Nat.lt_of_succ_lt hplace))).trans ?_
    refine (if_neg (Nat.ne_of_gt hplace)).trans ?_
    exact Buffer.byteAt_zeroed _ _
  rw [AddressSpace.wordAt, hbyte _ (by decide), hbyte _ (by decide)]
  rfl

theorem not_ended_facing (word : Word) :
    (facing word).pc.toNat < (facing word).space.programEnd := by
  have hend : (facing word).space.programEnd = Layout.romBase + wordSize := rfl
  rw [pc_facing, hend]
  decide

theorem instruction?_facing {word : Word} {entry : Entry}
    (hdecode : Table.standard.decode? word = some entry) :
    (facing word).instruction? =
      some ⟨0x8000, word, entry, .decoded entry.shape word, .ofDecoding {}⟩ := by
  rw [instruction?_eq_some_iff]
  refine ⟨not_ended_facing word, _, ofFetch_facing word, entry, ?_, ?_⟩
  · rw [wordAt_facing]
    exact hdecode
  · rw [wordAt_facing, pc_facing]
    rfl

end Machine

end WordMachine
