import WordMachine.Proofs.InstructionLength
import WordMachine.Proofs.Text
import WordMachine.Proofs.Trace

/-!
# The trace as a listing

An instruction can be listed from memory alone: its word tells its operands, and the
words that they take follow it in the order of the operands.  A machine finds out about
these words only while it follows the operands.  The line that it traces is all the same
the one that a listing made before the step would show, whatever becomes of the operands
and whatever the instruction overwrites.
-/

namespace WordMachine

/-- The word at a place in a buffer, if both of its bytes lie in the buffer. -/
def Buffer.wordAt? {size : Nat} (memory : Buffer size) (place : Nat) : Option Word :=
  if place + 1 < size then some (.ofBytes (memory.byteAt place) (memory.byteAt (place + 1)))
  else none

/-! ## The words that operands show -/

section Shown

variable {size : Nat}

/-- The word that an operand takes, with the instruction stream at `cursor`. -/
def OperandSpec.shownWord (spec : OperandSpec) (memory : Buffer size) (cursor : Nat) :
    Option Word :=
  if spec.takesWord then memory.wordAt? cursor else none

/-- The words that the operands of an instruction take, with the instruction stream at
`cursor`.  The source takes its word before the destination. -/
def Fields.shownWords (fields : Fields) (memory : Buffer size) (cursor : Nat) : Extensions :=
  match fields with
  | .noOperand | .branch _ => {}
  | .single dst => { dst := dst.shownWord memory cursor }
  | .double src dst =>
      ⟨src.shownWord memory cursor, dst.shownWord memory (src.nextCursor cursor)⟩

theorem OperandSpec.shows_shownWord (spec : OperandSpec) (memory : Buffer size) (cursor : Nat) :
    spec.Shows (spec.shownWord memory cursor) := by
  intro htakes
  rw [shownWord, htakes, if_neg Bool.false_ne_true]

theorem Fields.suit_shownWords (fields : Fields) (memory : Buffer size) (cursor : Nat) :
    (fields.shownWords memory cursor).Suit fields := by
  cases fields with
  | noOperand | branch displacement => rfl
  | single dst => exact ⟨rfl, dst.shows_shownWord memory cursor⟩
  | double src dst => exact ⟨src.shows_shownWord memory cursor, dst.shows_shownWord memory _⟩

end Shown

/-! ## Listing an instruction -/

namespace Table

variable {size : Nat} {table : Table}

/-- The instruction that a word stands for, with the words that its operands take out of
the memory behind it. -/
def Instruction.listed (memory : Buffer size) (place : Nat) {word : Word} {entry : Entry}
    (hdecode : table.decode? word = some entry) : table.Instruction where
  word := word
  entry := entry
  fields := .decoded entry.shape word
  extensions := (Fields.decoded entry.shape word).shownWords memory (place + wordSize)
  decodes := hdecode
  reads := Fields.ofWord_eq entry.shape word
  suits := Fields.suit_shownWords _ memory _

/-- The instruction at a place in memory, if there is one. -/
def instructionAt? (table : Table) (memory : Buffer size) (place : Nat) :
    Option table.Instruction :=
  (memory.wordAt? place).bind fun word =>
    match hdecode : table.decode? word with
    | some _ => some (.listed memory place hdecode)
    | none => none

theorem instructionAt?_eq_some {memory : Buffer size} {place : Nat} {word : Word} {entry : Entry}
    (hword : memory.wordAt? place = some word) (hdecode : table.decode? word = some entry) :
    table.instructionAt? memory place = some (.listed memory place hdecode) := by
  rw [instructionAt?, hword, Option.bind_some]
  split
  · rename_i other hother
    obtain rfl := Option.some.inj (hdecode.symm.trans hother)
    rfl
  · rename_i hnone
    cases hdecode.symm.trans hnone

end Table

/-! ## What a machine sees its operands take -/

namespace AddressSpace

variable (space : AddressSpace)

theorem wordAt?_memory (address : WordAddress) :
    space.memory.wordAt? address.offset = some (space.wordAt address) :=
  if_pos address.offset_lt

theorem toOption_wordAt? (address : Word) :
    (space.wordAt? address).toOption = space.memory.wordAt? address.toNat := by
  rw [wordAt?, WordAddress.ofWord, Buffer.wordAt?]
  split <;> rfl

/-- Inside memory, a move of the program counter by one word can be told from no move. -/
theorem pc_eq_add_two_iff {moved : Word} (hpc : space.pc.toNat ≤ Layout.spaceSize) :
    moved = space.pc + 2 ↔ moved.toNat = space.pc.toNat + wordSize := by
  have hsize : Layout.spaceSize = 0xC000 := rfl
  have htwo : (2 : Word).toNat = wordSize := rfl
  have hword : wordSize = 2 := rfl
  rw [← BitVec.toNat_inj, BitVec.toNat_add_of_lt (by omega), htwo]

/-- The word that an operand is seen to take is the one that it takes out of memory. -/
theorem extensionOf_eq_shownWord {spec : OperandSpec} (hback : spec.backsUp = false)
    (hpc : space.pc.toNat ≤ Layout.spaceSize) :
    space.extensionOf spec = spec.shownWord space.memory space.pc.toNat := by
  have hmoved := space.toNat_pc_followed hback
  have hword : wordSize ≠ 0 := by decide
  simp only [extensionOf, toOption_wordAt?, space.pc_eq_add_two_iff hpc, hmoved,
    OperandSpec.nextCursor, OperandSpec.shownWord]
  cases htakes : spec.takesWord with
  | false => simp [hword]
  | true =>
      by_cases hroom : space.pc.toNat + 1 < Layout.spaceSize
      · simp [hroom]
      · simp [hroom, hword, Buffer.wordAt?]

theorem extensionsOf_eq_shownWords {fields : Fields}
    (hback : ∀ spec ∈ fields.specs, spec.backsUp = false)
    (hpc : space.pc.toNat ≤ Layout.spaceSize) :
    space.extensionsOf fields = fields.shownWords space.memory space.pc.toNat := by
  cases fields with
  | noOperand | branch displacement => rfl
  | single dst =>
      rw [extensionsOf, Fields.shownWords,
        space.extensionOf_eq_shownWord (hback dst (by simp [Fields.specs])) hpc]
  | double src dst =>
      have hsrc : src.backsUp = false := hback src (by simp [Fields.specs])
      have hdst : dst.backsUp = false := hback dst (by simp [Fields.specs])
      -- Following the source moves the stream, and keeps memory and its bounds.
      have hmoved := space.toNat_pc_followed hsrc
      have hroom : (space.followed src).pc.toNat ≤ Layout.spaceSize :=
        hmoved ▸ OperandSpec.nextCursor_le hpc
      rw [extensionsOf, Fields.shownWords, space.extensionOf_eq_shownWord hsrc hpc,
        (space.followed src).extensionOf_eq_shownWord hdst hroom, space.memory_followed, hmoved]

end AddressSpace

/-! ## The line of a step -/

namespace Machine

variable {machine : Machine}

/-- The instruction that a step executes is the one that a listing of memory shows. -/
theorem exists_listed_of_instruction? {fetched : Fetched}
    (hinstruction : machine.instruction? = some fetched) :
    ∃ instruction : machine.table.Instruction,
      machine.table.instructionAt? machine.space.memory machine.pc.toNat = some instruction ∧
      instruction.entry = fetched.entry ∧ instruction.fields = fetched.fields ∧
      instruction.extensions =
        fetched.fields.shownWords machine.space.memory (machine.pc.toNat + wordSize) := by
  obtain ⟨-, address, hfetch, entry, hdecode, rfl⟩ := instruction?_eq_some_iff.mp hinstruction
  obtain ⟨hval, -, -⟩ := WordAddress.ofFetch_eq_ok_iff.mp hfetch
  have hword := machine.space.wordAt?_memory address
  rw [WordAddress.offset, hval] at hword
  exact ⟨_, Table.instructionAt?_eq_some hword hdecode, rfl, rfl, rfl⟩

theorem tracedLine_eq_text {fetched : Fetched} (hinstruction : machine.instruction? = some fetched)
    {instruction : machine.table.Instruction}
    (hlisted :
      machine.table.instructionAt? machine.space.memory machine.pc.toNat = some instruction)
    (hback : ∀ spec ∈ instruction.fields.specs, spec.backsUp = false) :
    machine.tracedLine fetched = instruction.text := by
  obtain ⟨other, hother, hentry, hfields, hextensions⟩ :=
    exists_listed_of_instruction? hinstruction
  obtain rfl : other = instruction := Option.some.inj (hother.symm.trans hlisted)
  obtain ⟨-, -, hroom, -⟩ := pc_of_instruction? hinstruction
  have hcursor := toNat_pc_operandSpace hroom
  have hseen : machine.operandSpace.extensionsOf fetched.fields = other.extensions := by
    rw [hextensions, ← hcursor]
    exact machine.operandSpace.extensionsOf_eq_shownWords (hfields ▸ hback) (hcursor ▸ hroom)
  rw [tracedLine, hseen, ← hentry, ← hfields]
  rfl

/-- A step that continues traces the instruction that a listing of memory shows at the
program counter before the step, with the words that the listing shows for its operands,
as long as no operand moves the program counter back. -/
theorem trace_agrees_with_listing (hshaped : machine.table.WellShaped)
    (hdepth : 0 < machine.traces.disassembly.capacity) {transition : Transition}
    (hstep : machine.step = .ok transition) (hcontinuing : transition.outcome = .ok .continuing)
    (hback : ∀ instruction,
      machine.table.instructionAt? machine.space.memory machine.pc.toNat = some instruction →
        ∀ spec ∈ instruction.fields.specs, spec.backsUp = false) :
    ∃ instruction,
      machine.table.instructionAt? machine.space.memory machine.pc.toNat = some instruction ∧
      transition.machine.traces.disassembly =
        machine.traces.disassembly.push instruction.text ∧
      transition.machine.traces.disassembly.latest? = some instruction.text := by
  cases exit_of_step hshaped hstep with
  | ended | unfetched | undecoded => cases hcontinuing
  | executed hinstruction =>
      obtain ⟨instruction, hlisted, -⟩ := exists_listed_of_instruction? hinstruction
      have hline := tracedLine_eq_text hinstruction hlisted (hback instruction hlisted)
      refine ⟨instruction, hlisted, ?_, ?_⟩
      · rw [traces_retire_executed, ← hline]
        rfl
      · rw [traces_retire_executed, ← hline]
        exact TraceBuffer.latest?_push hdepth _

/-- An increment of an immediate value overwrites the word after the instruction, and
the line that is traced shows the word that stood there before. -/
theorem trace_agrees_with_listing_of_immediate :
    (Table.standard.WellShaped ∧ 0 < (facing 0o005227).traces.disassembly.capacity ∧
      ∀ instruction,
        Table.standard.instructionAt? (facing 0o005227).space.memory 0x8000 = some instruction →
          ∀ spec ∈ instruction.fields.specs, spec.backsUp = false) ∧
    ∃ transition, (facing 0o005227).step = .ok transition ∧
      transition.outcome = .ok .continuing ∧
      transition.machine.space.wordAt ⟨0x8002, by decide⟩ = 1 ∧
      transition.machine.traces.disassembly.latest? = some "inc #0" := by
  have hinstruction := instruction?_facing
    (rfl : Table.standard.decode? 0o005227 = some (.single "inc" 0o005200 .inc))
  have hstep := step_of_instruction (facing 0o005227) Table.standard_wellShaped hinstruction
  have hdepth : 0 < (facing 0o005227).traces.disassembly.capacity := by decide
  have hpc : (facing 0o005227).pc.toNat = 0x8000 := by
    rw [pc_facing]
    rfl
  obtain ⟨listed, hlisted, hentry, hfields, hextensions⟩ :=
    exists_listed_of_instruction? hinstruction
  have hback : ∀ instruction, (facing 0o005227).table.instructionAt?
      (facing 0o005227).space.memory (facing 0o005227).pc.toNat = some instruction →
        ∀ spec ∈ instruction.fields.specs, spec.backsUp = false := by
    intro instruction hinstruction
    obtain rfl := Option.some.inj (hlisted.symm.trans hinstruction)
    rw [hfields]
    decide
  obtain ⟨traced, htraced, -, hlatest⟩ :=
    trace_agrees_with_listing Table.standard_wellShaped hdepth hstep rfl hback
  have hword := wordAt_facing_after 0o005227
  refine ⟨⟨Table.standard_wellShaped, hdepth, hpc ▸ hback⟩, _, hstep, rfl, ?_, ?_⟩
  · have hstored : (0 : Word) + 1 = 1 := rfl
    rw [← hstored, ← hword]
    exact AddressSpace.wordAt_withWord _ _ _
  · obtain rfl := Option.some.inj (hlisted.symm.trans htraced)
    have hshown : listed.extensions = { dst := some 0 } := by
      rw [hextensions, hpc, ← hword, ← AddressSpace.wordAt?_memory]
      rfl
    rw [hlatest, Table.Instruction.text, hentry, hfields, hshown]
    decide +kernel

end Machine

end WordMachine
