import WordMachine.Proofs.Step

/-!
# The outcome of a step

Which outcome a step has is decided by the program counter, the end of the
program, the word at the program counter and the table, in this order.  A step
that executes nothing touches nothing, except that a word that is no instruction
is stepped over and counted.
-/

namespace WordMachine

namespace Machine

variable (machine : Machine)

/-- The program counter is past the end of the program. -/
def Ended : Prop := machine.space.programEnd ≤ machine.pc.toNat

/-- The word at the program counter does not lie in the region of the program. -/
def Outside : Prop :=
  machine.pc.toNat < Layout.romBase ∨ Layout.spaceSize ≤ machine.pc.toNat + 1

def Misaligned : Prop := machine.pc.toNat % 2 = 1

/-- The word at the program counter, low byte first. -/
def wordAtPc : Word :=
  .ofBytes (machine.space.byteAt machine.pc.toNat) (machine.space.byteAt (machine.pc.toNat + 1))

/-- No entry of the table selects the word at the program counter. -/
def Undecoded : Prop := ∀ entry ∈ machine.table.entries, entry.selects machine.wordAtPc = false

/-! ## The conditions of the exits -/

variable {machine : Machine}

theorem ofFetch_eq_error {fault : MemoryFault}
    (hfault : WordAddress.ofFetch machine.pc = .error fault) :
    machine.Outside ∧ fault = .fetchOutOfRange machine.pc ∨
      ¬machine.Outside ∧ machine.Misaligned ∧ fault = .misalignedFetch machine.pc := by
  by_cases houtside : machine.Outside
  · rw [WordAddress.ofFetch_of_outside houtside] at hfault
    cases hfault
    exact .inl ⟨houtside, rfl⟩
  · have hinside := houtside
    rw [Outside, not_or, Nat.not_lt, Nat.not_le] at hinside
    by_cases hodd : machine.Misaligned
    · rw [WordAddress.ofFetch_of_odd hinside.1 hinside.2 (by rw [wordSize, hodd]; decide)] at hfault
      cases hfault
      exact .inr ⟨houtside, hodd, rfl⟩
    · have heven := Nat.mod_two_not_eq_one.mp hodd
      rw [WordAddress.ofFetch_of_even hinside.1 hinside.2 heven] at hfault
      cases hfault

theorem inside_of_ofFetch {address : WordAddress}
    (hfetch : WordAddress.ofFetch machine.pc = .ok address) :
    ¬machine.Outside ∧ ¬machine.Misaligned ∧ machine.space.wordAt address = machine.wordAtPc := by
  obtain ⟨hval, hrom, heven⟩ := WordAddress.ofFetch_eq_ok_iff.mp hfetch
  refine ⟨?_, Nat.mod_two_not_eq_one.mpr heven, ?_⟩
  · rw [Outside, not_or, Nat.not_lt, Nat.not_le, ← hval]
    exact ⟨hval ▸ hrom, address.inSpace⟩
  · rw [AddressSpace.wordAt, WordAddress.offset, hval, wordAtPc]

theorem undecoded_iff {address : WordAddress}
    (hfetch : WordAddress.ofFetch machine.pc = .ok address) :
    machine.Undecoded ↔ machine.table.decode? (machine.space.wordAt address) = none := by
  rw [Table.decode?_eq_none_iff, (inside_of_ofFetch hfetch).2.2, Undecoded]

/-- The conditions under which an instruction is executed. -/
theorem conditions_of_instruction? {fetched : Fetched}
    (hinstruction : machine.instruction? = some fetched) :
    ¬machine.Ended ∧ ¬machine.Outside ∧ ¬machine.Misaligned ∧ ¬machine.Undecoded := by
  obtain ⟨hrunning, address, hfetch, entry, hdecode, -⟩ := instruction?_eq_some_iff.mp hinstruction
  obtain ⟨hinside, heven, -⟩ := inside_of_ofFetch hfetch
  refine ⟨Nat.not_le.mpr hrunning, hinside, heven, ?_⟩
  rw [undecoded_iff hfetch, hdecode]
  exact Option.some_ne_none entry

/-! ## The outcome -/

/-- Every step has one of five outcomes, each under its own condition.  A step
that finds the program ended or cannot fetch leaves the machine as it is; after a
word that is no instruction, the program counter is past the word and the word is
counted.  The entries of the table have effects of the kinds that `Effect` lists; a
function of the user's own, which could do anything at all, is not among them. -/
theorem step_outcome (machine : Machine) (hshaped : machine.table.WellShaped) :
    ∃ transition, machine.step = .ok transition ∧
      (transition.outcome = .ok .finished ↔ machine.Ended) ∧
      (transition.outcome = .error (.fetch (.fetchOutOfRange machine.pc)) ↔
        ¬machine.Ended ∧ machine.Outside) ∧
      (transition.outcome = .error (.fetch (.misalignedFetch machine.pc)) ↔
        ¬machine.Ended ∧ ¬machine.Outside ∧ machine.Misaligned) ∧
      (transition.outcome = .error (.invalidOpcode machine.wordAtPc machine.pc) ↔
        ¬machine.Ended ∧ ¬machine.Outside ∧ ¬machine.Misaligned ∧ machine.Undecoded) ∧
      (transition.outcome = .ok .continuing ↔
        ¬machine.Ended ∧ ¬machine.Outside ∧ ¬machine.Misaligned ∧ ¬machine.Undecoded) ∧
      ((transition.outcome = .ok .finished ∨
          ∃ fault, transition.outcome = .error (.fetch fault)) →
        transition.machine = machine) ∧
      ((∃ word pc, transition.outcome = .error (.invalidOpcode word pc)) →
        transition.machine = { machine with
          space := machine.space.setPc (machine.pc + 2)
          stats := { machine.stats with
            invalidOpcodes := machine.stats.invalidOpcodes + 1 } }) := by
  obtain ⟨transition, hstep, hexit⟩ := machine.exists_exit hshaped
  refine ⟨transition, hstep, ?_⟩
  cases hexit with
  | ended hended =>
      have hended : machine.Ended := hended
      simp [hended]
  | unfetched hrunning hfault =>
      have hrunning : ¬machine.Ended := Nat.not_le.mpr hrunning
      obtain ⟨houtside, rfl⟩ | ⟨hinside, hodd, rfl⟩ := ofFetch_eq_error hfault
      · simp [hrunning, houtside]
      · simp [hrunning, hinside, hodd]
  | undecoded hrunning hfetch hword =>
      have hrunning : ¬machine.Ended := Nat.not_le.mpr hrunning
      have hundecoded := (undecoded_iff hfetch).mpr hword
      obtain ⟨hinside, heven, hread⟩ := inside_of_ofFetch hfetch
      simp [hrunning, hinside, heven, hundecoded, hread, skipped, operandSpace]
  | executed hinstruction =>
      obtain ⟨hrunning, hinside, heven, hdecoded⟩ := conditions_of_instruction? hinstruction
      simp [retire, hrunning, hinside, heven, hdecoded]

/-- No standard instruction has all bits set. -/
theorem step_outcome_of_all_ones :
    Table.standard.WellShaped ∧ ∃ transition,
      (facing 0o177777).step = .ok transition ∧
      transition.outcome = .error (.invalidOpcode 0o177777 0x8000) ∧
      transition.machine.pc = 0x8002 ∧
      transition.machine.stats.invalidOpcodes = 1 := by
  obtain ⟨transition, hstep, -, -, -, hinvalid, -, -, hskipped⟩ :=
    step_outcome (facing 0o177777) Table.standard_wellShaped
  obtain ⟨hinside, heven, hword⟩ := inside_of_ofFetch (ofFetch_facing 0o177777)
  rw [wordAt_facing] at hword
  have hundecoded : (facing 0o177777).Undecoded := by
    rw [Undecoded, ← hword]
    exact (by decide : ∀ entry ∈ Table.standard.entries, entry.selects 0o177777 = false)
  have houtcome := hinvalid.mpr
    ⟨Nat.not_le.mpr (not_ended_facing 0o177777), hinside, heven, hundecoded⟩
  rw [← hword, pc_facing] at houtcome
  refine ⟨Table.standard_wellShaped, transition, hstep, houtcome, ?_, ?_⟩
  · rw [hskipped ⟨_, _, houtcome⟩, pc_facing]
    exact RegisterFile.read_write _ _ _ _
  · rw [hskipped ⟨_, _, houtcome⟩]
    rfl

end Machine

end WordMachine
