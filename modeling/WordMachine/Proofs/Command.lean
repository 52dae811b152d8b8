import WordMachine.Machine.Command
import WordMachine.Proofs.Execution
import WordMachine.Proofs.WholeRegions

/-!
# What commands do to the address space

What a command answers, and what it leaves in the address space, depends on the
space and the table alone.  Both are given here as functions of these two that
cannot breach: `stepped` for a step, and `answered` for any command.  The accounts
that a machine keeps of its work have no part in them.
-/

namespace WordMachine

variable {Reason : Type}

namespace AddressSpace

variable (space : AddressSpace) (table : Table)

/-! ## Commands as functions of the space -/

/-- The outcome of a step, and the space after it. -/
def stepped : Except StepFault StepOutcome × AddressSpace :=
  if space.programEnd ≤ space.pc.toNat then (.ok .finished, space)
  else
    match WordAddress.ofFetch space.pc with
    | .error fault => (.error (.fetch fault), space)
    | .ok address =>
        let word := space.wordAt address
        let moved := space.setPc (space.pc + 2)
        match table.decode? word with
        | none => (.error (.invalidOpcode word space.pc), moved)
        | some entry => (.ok .continuing, moved.executed entry.effect (.decoded entry.shape word))

/-- What comes of loading an image, and the space after it. -/
def loaded (image : List Byte) (Reason : Type) : Except (LoadFault Reason) Unit × AddressSpace :=
  if Layout.romSize < image.length then
    (.error (.tooLarge image.length Layout.romSize), space)
  else (.ok (), space.withImage image)

/-- What comes of loading the image in a file, and the space after it.  The program
counter is moved only if the image was loaded. -/
def loadedFile (file : Machine.ImageFile Reason) : Except (LoadFault Reason) Unit × AddressSpace :=
  match file.read with
  | .error fault => (.error fault, space)
  | .ok image =>
      match space.loaded image Reason with
      | (.ok (), after) => (.ok (), after.setPc (.ofNat 16 Layout.romBase))
      | failed => failed

/-- What comes of storing a word at an address that may lie outside memory, and the
space after it. -/
def storedWord (address value : Word) : Except MemoryFault Unit × AddressSpace :=
  match WordAddress.ofWord address with
  | .error fault => (.error fault, space)
  | .ok address => (.ok (), space.withWord address value)

/-- The answer to a command, and the space after it. -/
def answered : Command Reason → Answer Reason × AddressSpace
  | .step => (.stepped (space.stepped table).1, (space.stepped table).2)
  | .load image => (.loaded (space.loaded image Reason).1, (space.loaded image Reason).2)
  | .loadFile file => (.loaded (space.loadedFile file).1, (space.loadedFile file).2)
  | .reset => (.done, .blank)
  | .setRegister reg value => (.done, space.setRegister reg value)
  | .setFlag flag value => (.done, space.setFlag flag value)
  | .setTracing _ => (.done, space)
  | .storeWord address value =>
      (.stored (space.storedWord address value).1, (space.storedWord address value).2)
  | .nextWord => (.word (space.wordAt? space.pc), space.advance)
  | .resolve reg mode => (.location (space.locate ⟨mode, reg⟩), space.followed ⟨mode, reg⟩)
  | .resetRegisters => (.done, space.resetRegisters)
  | .clearVideo => (.done, space.withoutVideo)

/-- The answers to commands that are given one after the other, and the space after
the last of them. -/
def answers : AddressSpace → List (Command Reason) → List (Answer Reason) × AddressSpace
  | space, [] => ([], space)
  | space, command :: rest =>
      let (answer, after) := space.answered table command
      let (later, last) := answers after rest
      (answer :: later, last)

/-- What every command keeps of the space, any list of commands keeps. -/
theorem keeps_answers {Keeps : AddressSpace → Prop}
    (hkeeps : ∀ space (command : Command Reason), Keeps space → Keeps (answered space table command).2)
    {space : AddressSpace} (hspace : Keeps space) (commands : List (Command Reason)) :
    Keeps (answers table space commands).2 := by
  induction commands generalizing space with
  | nil => exact hspace
  | cons command rest ih => exact ih (hkeeps space command hspace)

end AddressSpace

namespace Machine

variable {machine : Machine}

/-! ## Steps -/

/-- By whichever exit a step ends, its outcome and the space after it are those that
the space before it and the table determine. -/
theorem stepped_of_exit {transition : Transition} (hexit : machine.Exit transition) :
    machine.space.stepped machine.table = (transition.outcome, transition.machine.space) := by
  cases hexit with
  | ended hended => exact if_pos hended
  | unfetched hrunning hfault =>
      have hrunning : ¬machine.space.programEnd ≤ machine.space.pc.toNat := Nat.not_le.mpr hrunning
      have hfault : WordAddress.ofFetch machine.space.pc = _ := hfault
      simp only [AddressSpace.stepped, if_neg hrunning, hfault]
  | undecoded hrunning hfetch hword =>
      have hrunning : ¬machine.space.programEnd ≤ machine.space.pc.toNat := Nat.not_le.mpr hrunning
      have hfetch : WordAddress.ofFetch machine.space.pc = _ := hfetch
      simp only [AddressSpace.stepped, if_neg hrunning, hfetch, hword]
      rfl
  | executed hinstruction =>
      obtain ⟨hrunning, address, hfetch, entry, hdecode, rfl⟩ :=
        instruction?_eq_some_iff.mp hinstruction
      have hrunning : ¬machine.space.programEnd ≤ machine.space.pc.toNat := Nat.not_le.mpr hrunning
      have hfetch : WordAddress.ofFetch machine.space.pc = _ := hfetch
      simp only [AddressSpace.stepped, if_neg hrunning, hfetch, hdecode, retire, space_executed]
      rfl

/-! ## Other commands -/

@[simp]
theorem space_withSpace (space : AddressSpace) : (machine.withSpace space).space = space := rfl

@[simp]
theorem table_withSpace (space : AddressSpace) :
    (machine.withSpace space).table = machine.table := rfl

theorem load_eq (image : List Byte) (Reason : Type) :
    ∃ events, machine.load image Reason =
      .ok ((machine.space.loaded image Reason).1,
        machine.withSpace (machine.space.loaded image Reason).2, events) := by
  rw [load, AddressSpace.loadImage_eq, AddressSpace.loaded]
  split
  · exact ⟨_, rfl⟩
  · exact ⟨_, rfl⟩

theorem loadFile_eq (file : ImageFile Reason) :
    ∃ events, machine.loadFile file =
      .ok ((machine.space.loadedFile file).1,
        machine.withSpace (machine.space.loadedFile file).2, events) := by
  rw [loadFile, AddressSpace.loadedFile]
  cases file.read with
  | error fault => exact ⟨_, rfl⟩
  | ok image =>
      obtain ⟨events, hload⟩ := machine.load_eq image Reason
      simp only [hload, ok_bind]
      rcases machine.space.loaded image Reason with ⟨_ | _, after⟩
      · exact ⟨_, rfl⟩
      · exact ⟨_, rfl⟩

/-- A machine with a well-shaped table performs every command.  It gives the answer
and leaves the space that its own space and its table determine. -/
theorem exists_performed (hshaped : machine.table.WellShaped) (command : Command Reason) :
    ∃ performed, machine.perform command = .ok performed ∧
      performed.machine.table = machine.table ∧
      machine.space.answered machine.table command =
        (performed.answer, performed.machine.space) := by
  cases command with
  | step =>
      obtain ⟨transition, hstep, hexit⟩ := machine.exists_exit hshaped
      rw [AddressSpace.answered, stepped_of_exit hexit, perform, hstep]
      exact ⟨_, rfl, table_of_exit hexit, rfl⟩
  | load image =>
      obtain ⟨events, hload⟩ := machine.load_eq image Reason
      rw [perform, hload]
      exact ⟨_, rfl, rfl, rfl⟩
  | loadFile file =>
      obtain ⟨events, hload⟩ := machine.loadFile_eq file
      rw [perform, hload]
      exact ⟨_, rfl, rfl, rfl⟩
  | storeWord address value =>
      rw [perform, AddressSpace.answered, AddressSpace.storedWord]
      cases WordAddress.ofWord address with
      | error fault => exact ⟨_, rfl, rfl, rfl⟩
      | ok checked =>
          simp only [AddressSpace.storeWord_eq]
          exact ⟨_, rfl, rfl, rfl⟩
  | nextWord =>
      rw [perform, AddressSpace.nextWord_eq]
      exact ⟨_, rfl, rfl, rfl⟩
  | resolve reg mode =>
      rw [perform, machine.space.resolve_eq ⟨mode, reg⟩]
      exact ⟨_, rfl, rfl, rfl⟩
  | clearVideo =>
      rw [perform, AddressSpace.clearVideo_eq, AddressSpace.answered]
      exact ⟨⟨.done, machine.withSpace machine.space.withoutVideo, []⟩, rfl,
        table_withSpace _, congrArg _ (space_withSpace _).symm⟩
  | reset | setRegister | setFlag | setTracing | resetRegisters => exact ⟨_, rfl, rfl, rfl⟩

/-! ## Lists of commands -/

/-- A machine with a well-shaped table performs any list of commands. -/
theorem exists_run (hshaped : machine.table.WellShaped) (commands : List (Command Reason)) :
    ∃ reached, machine.run commands =
        .ok ((machine.space.answers machine.table commands).1, reached) ∧
      reached.table = machine.table ∧
      reached.space = (machine.space.answers machine.table commands).2 := by
  induction commands generalizing machine with
  | nil => exact ⟨machine, rfl, rfl, rfl⟩
  | cons command rest ih =>
      obtain ⟨performed, hperformed, htable, hanswered⟩ := exists_performed hshaped command
      obtain ⟨reached, hreached, hlast, hspace⟩ := ih (htable.symm ▸ hshaped)
      refine ⟨reached, ?_, hlast.trans htable, ?_⟩
      · rw [run, hperformed, ok_bind, hreached, AddressSpace.answers, hanswered, htable]
        rfl
      · rw [hspace, AddressSpace.answers, hanswered, htable]

/-- Machines that have the same table and the same space give the same answers to
commands and are left with the same space, whatever the stages cost them and whatever
they have traced, timed and counted.  That is so after each of the commands, as the
list of them can be cut off anywhere. -/
theorem run_ignores_accounts {left right : Machine} (hshaped : left.table.WellShaped)
    (htable : left.table = right.table) (hspace : left.space = right.space)
    (commands : List (Command Reason)) :
    ∃ answers leftReached rightReached,
      left.run commands = .ok (answers, leftReached) ∧
      right.run commands = .ok (answers, rightReached) ∧
      leftReached.space = rightReached.space := by
  obtain ⟨leftReached, hleft, -, hleftSpace⟩ := exists_run hshaped commands
  obtain ⟨rightReached, hright, -, hrightSpace⟩ := exists_run (htable ▸ hshaped) commands
  refine ⟨_, leftReached, rightReached, hleft, ?_, ?_⟩
  · rw [htable, hspace]
    exact hright
  · rw [hleftSpace, hrightSpace, htable, hspace]

/-- A machine that announces details, keeps no traces and finds every stage dear runs
as one at power-on does. -/
theorem run_ignores_accounts_of_detail :
    Table.standard.WellShaped ∧
    ∃ (answers : List Answer) (leftReached rightReached : Machine),
      (facing 0o005201).run [.step, .storeWord 0x1001 0xBEEF, .setTracing false, .step] =
        .ok (answers, leftReached) ∧
      Machine.run { facing 0o005201 with
          costs := ⟨9, 8, 7, 6⟩
          timer := ⟨5, 4, 3, 2⟩
          traces := .empty 0
          stats := { operandFaults := 1 }
          tracing := true }
        [.step, .storeWord 0x1001 0xBEEF, .setTracing false, .step] = .ok (answers, rightReached) ∧
      leftReached.space = rightReached.space := by
  have hshaped : (facing 0o005201).table.WellShaped := Table.standard_wellShaped
  refine ⟨Table.standard_wellShaped, run_ignores_accounts hshaped ?_ ?_ _⟩
  · rfl
  · rfl

end Machine

end WordMachine
