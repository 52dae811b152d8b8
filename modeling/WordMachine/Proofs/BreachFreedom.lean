import WordMachine.Proofs.Command

/-!
# Freedom from breaches

Whatever a machine is told to do from power-on on, nothing that it does breaches a
promise, as long as the entries of its table were built by the functions that are there
to build them.  Their masks, opcodes and order are free: an entry so built has the shape
that its effect needs, and that is all that a step relies on.
-/

namespace WordMachine

namespace Entry

/-- Entries that were built by the functions that are there to build them, and that may
have had their masks set after that. -/
inductive Built : Entry → Prop where
  | noOperand (name : String) (opcode : Word) (operation : ControlOperation) :
      Built (.noOperand name opcode operation)
  | single (name : String) (opcode : Word) (operation : UnaryOperation) :
      Built (.single name opcode operation)
  | double (name : String) (opcode : Word) (operation : BinaryOperation) :
      Built (.double name opcode operation)
  | doubleReg (name : String) (opcode : Word) (operation : BinaryOperation) :
      Built (.doubleReg name opcode operation)
  | branch (name : String) (opcode : Word) (condition : Condition) :
      Built (.branch name opcode condition)
  | withMask {entry : Entry} (mask : Word) (hbuilt : Built entry) : Built (entry.withMask mask)

/-- An entry that was built gives its effect the operands it works on. -/
theorem Built.wellShaped {entry : Entry} (hbuilt : entry.Built) : entry.wellShaped = true := by
  induction hbuilt with
  | noOperand | single | double | doubleReg | branch => rfl
  | withMask mask hbuilt ih => rwa [wellShaped_withMask]

end Entry

/-- A table of entries that were built is well shaped. -/
theorem Table.wellShaped_of_built {table : Table}
    (hbuilt : ∀ entry ∈ table.entries, entry.Built) : table.WellShaped :=
  fun entry hentry => (hbuilt entry hentry).wellShaped

variable {Reason : Type}

namespace AddressSpace

variable (space : AddressSpace) (table : Table)

/-! ## The length of the program -/

/-- A step does not change how long the program is. -/
theorem romLength_stepped : (space.stepped table).2.romLength = space.romLength := by
  rw [stepped]
  split
  · rfl
  · cases WordAddress.ofFetch space.pc with
    | error fault => rfl
    | ok address =>
        simp only
        cases table.decode? (space.wordAt address) with
        | none => rfl
        | some entry => exact romLength_executed _ _ _

theorem romLength_loaded_le (hlength : space.romLength ≤ Layout.romSize) (image : List Byte) :
    (space.loaded image Reason).2.romLength ≤ Layout.romSize := by
  rw [loaded]
  split
  · exact hlength
  · rename_i hfits
    rw [romLength_withImage]
    exact Nat.not_lt.mp hfits

theorem romLength_loadedFile_le (hlength : space.romLength ≤ Layout.romSize)
    (file : Machine.ImageFile Reason) : (space.loadedFile file).2.romLength ≤ Layout.romSize := by
  rw [loadedFile]
  cases file.read with
  | error fault => exact hlength
  | ok image =>
      have hloaded : (space.loaded image Reason).2.romLength ≤ Layout.romSize :=
        space.romLength_loaded_le hlength image
      simp only
      split
      · rename_i after hafter
        rwa [hafter] at hloaded
      · exact hloaded

/-- No command makes the program longer than its region. -/
theorem romLength_answered_le (hlength : space.romLength ≤ Layout.romSize)
    (command : Command Reason) :
    (space.answered table command).2.romLength ≤ Layout.romSize := by
  cases command with
  | step =>
      rw [answered, romLength_stepped]
      exact hlength
  | load image => exact space.romLength_loaded_le hlength image
  | loadFile file => exact space.romLength_loadedFile_le hlength file
  | reset => exact Nat.zero_le _
  | storeWord address value =>
      rw [answered, storedWord]
      cases WordAddress.ofWord address with
      | error fault => exact hlength
      | ok checked => exact hlength
  | nextWord =>
      rw [answered, advance]
      split
      · exact hlength
      · exact hlength
  | resolve reg mode =>
      rw [answered, space.keeps_followed romLength (fun _ _ _ => rfl)]
      exact hlength
  | clearVideo =>
      rw [answered, romLength_withoutVideo]
      exact hlength
  | setRegister | setFlag | setTracing | resetRegisters => exact hlength

end AddressSpace

namespace Machine

/-- A machine whose entries were all built performs any commands from power-on on.  No
step among them breaches, and neither does a step that comes after them.  Memory keeps
its size, and the program never is longer than its region.  This is about entries whose
effects are of the kinds that `Effect` lists: what a function of the user's own would do
in their place, nothing here can say. -/
theorem never_breaches (config : Config) {table : Table}
    (hbuilt : ∀ entry ∈ table.entries, entry.Built) (commands : List (Command Reason)) :
    ∃ answers reached, (withTable config table).run commands = .ok (answers, reached) ∧
      reached.space.memory.bytes.toList.length = 0xC000 ∧
      reached.space.romLength ≤ 0x4000 ∧
      ∃ transition, reached.step = .ok transition := by
  have hshaped : (withTable config table).table.WellShaped := Table.wellShaped_of_built hbuilt
  obtain ⟨reached, hrun, htable, hspace⟩ := exists_run hshaped commands
  have hlength : reached.space.romLength ≤ Layout.romSize := by
    rw [hspace]
    exact AddressSpace.keeps_answers _ (fun space command hlength =>
      space.romLength_answered_le _ hlength command) (Nat.zero_le _) commands
  obtain ⟨transition, hstep, -⟩ := reached.exists_exit (htable ▸ hshaped)
  exact ⟨_, reached, hrun, Vector.length_toList, hlength, transition, hstep⟩

/-- An entry that claims every word, and hides the one behind it, does no harm. -/
theorem never_breaches_of_overlap :
    (∀ entry ∈ [(Entry.double "mov" 0 .mov).withMask 0, .noOperand "halt" 0 .halt],
      entry.Built) ∧
    ∃ (answers : List Answer) (reached : Machine),
      (withTable {} ⟨[(Entry.double "mov" 0 .mov).withMask 0, .noOperand "halt" 0 .halt]⟩).run
          [.load [0xDF, 0x15, 0xFF], .setRegister .pc 0x8000, .setFlag .c true,
            .storeWord 0xBFFF 0xFFFF, .step, .step, .reset, .step] =
        .ok (answers, reached) ∧
      reached.space.memory.bytes.toList.length = 0xC000 ∧
      reached.space.romLength ≤ 0x4000 ∧
      ∃ transition, reached.step = .ok transition := by
  have hbuilt : ∀ entry ∈ [(Entry.double "mov" 0 .mov).withMask 0, .noOperand "halt" 0 .halt],
      entry.Built := by
    intro entry hentry
    rcases List.mem_cons.mp hentry with rfl | hlast
    · exact .withMask 0 (.double "mov" 0 .mov)
    · obtain rfl := List.mem_singleton.mp hlast
      exact .noOperand "halt" 0 .halt
  exact ⟨hbuilt, never_breaches {} hbuilt _⟩

end Machine

end WordMachine
