import Mathlib.Data.List.DropRight
import WordMachine.Proofs.BreachFreedom
import WordMachine.Proofs.Trace

/-!
# The accounts of a machine

A machine times, traces and counts what it executes, and counts the words that are no
instructions.  It does so in several places of a step.  After any commands from power-on
on, its accounts all the same agree with each other and with what was done since it was
last reset.
-/

namespace WordMachine

/-! ## Accounts -/

/-- What a machine keeps of its work. -/
structure Accounts where
  costs : StageCosts
  timer : Timer
  traces : TraceLog
  stats : Statistics

namespace Accounts

variable (accounts : Accounts)

/-- The accounts after an instruction was executed. -/
def retired (shape : Shape) (printed : Printed) (taken faulted : Bool) : Accounts :=
  let timer := accounts.timer.commit (.ofCosts accounts.costs)
  let stats := { accounts.stats with
    branchesTaken := accounts.stats.branchesTaken + taken.toNat
    operandFaults := accounts.stats.operandFaults + faulted.toNat }
  { accounts with
    timer := timer
    traces := accounts.traces.push printed.line printed.word
    stats := { stats.record shape with
      naiveTicks := timer.naive
      optimizedTicks := timer.optimized } }

/-- The accounts after a word that is no instruction. -/
def rejected : Accounts :=
  { accounts with
    stats := { accounts.stats with invalidOpcodes := accounts.stats.invalidOpcodes + 1 } }

/-- The accounts after a reset. -/
def cleared : Accounts :=
  { accounts with timer := {}, traces := accounts.traces.clear, stats := {} }

end Accounts

/-- Instructions of the shape have operands that have to be found. -/
def Shape.hasOperands : Shape → Bool
  | .noOperand | .branch => false
  | .singleOperand | .doubleOperand | .doubleOperandReg => true

namespace Statistics

variable (stats : Statistics) (shape : Shape)

/-- Executed instructions, counted by their shapes. -/
def ofShapes : Nat := stats.noOperand + stats.single + stats.double + stats.branch

/-- Executed instructions with operands that had to be found. -/
def withOperands : Nat := stats.single + stats.double

@[simp]
theorem ofShapes_record : (stats.record shape).ofShapes = stats.ofShapes + 1 := by
  cases shape <;> simp only [record, ofShapes] <;> omega

@[simp]
theorem withOperands_record :
    (stats.record shape).withOperands = stats.withOperands + shape.hasOperands.toNat := by
  cases shape <;> simp [record, withOperands, Shape.hasOperands] <;> omega

end Statistics

namespace Machine

variable (machine : Machine) (fetched : Fetched)

def accounts : Accounts := ⟨machine.costs, machine.timer, machine.traces, machine.stats⟩

/-- What the traces show of an instruction that the machine executes. -/
def printed : Printed := ⟨machine.tracedLine fetched, fetched.word⟩

/-- The instruction is a branch that is taken. -/
def takesBranch : Bool :=
  match machine.operandSpace.operandsOf fetched.fields with
  | .ok operands =>
      let space := machine.operandSpace.followedAll fetched.fields.specs
      (fetched.entry.effect.taken? operands space.codes).isSome
  | .error _ => false

variable {machine fetched}

/-! ## Steps -/

theorem stats_executed :
    (machine.executed fetched).machine.stats =
      { machine.stats with
        branchesTaken := machine.stats.branchesTaken + (machine.takesBranch fetched).toNat
        operandFaults := machine.stats.operandFaults + (machine.faulted fetched).toNat } := by
  cases hfound : machine.operandSpace.operandsOf fetched.fields with
  | error fault =>
      simp only [executed, takesBranch, hfound, faulted_of_fault hfound]
      rfl
  | ok operands =>
      simp only [executed, takesBranch, hfound, not_faulted_of_found hfound]
      split
      · rename_i htaken
        rw [htaken]
        rfl
      · rename_i htaken
        rw [Bool.not_eq_true] at htaken
        rw [htaken]
        rfl

/-- However a step passes its stages, it records the cost of every one of them. -/
theorem timing_retired (hinstruction : machine.instruction? = some fetched) :
    ((machine.executed fetched).toFetched.charge .memoryAccess machine.costs.memory
      |>.charge .memoryAccess machine.costs.memory).timing = .ofCosts machine.costs := by
  obtain ⟨-, address, -, entry, -, rfl⟩ := instruction?_eq_some_iff.mp hinstruction
  rw [toFetched_executed]
  exact StepRecord.record_record ..

theorem accounts_retire_executed (hinstruction : machine.instruction? = some fetched) :
    (retire (machine.executed fetched)).machine.accounts =
      machine.accounts.retired fetched.entry.shape (machine.printed fetched)
        (machine.takesBranch fetched) (machine.faulted fetched) := by
  have htiming := timing_retired hinstruction
  rw [toFetched_executed] at htiming
  simp only [accounts, retire, costs_executed, timer_executed, traces_executed, stats_executed,
    toFetched_executed, extensions_executed, htiming]
  rfl

theorem fields_of_instruction? (hinstruction : machine.instruction? = some fetched) :
    fetched.fields = .decoded fetched.entry.shape fetched.word := by
  obtain ⟨-, address, -, entry, -, rfl⟩ := instruction?_eq_some_iff.mp hinstruction
  rfl

/-- Only branches are taken. -/
theorem shape_of_takesBranch (hinstruction : machine.instruction? = some fetched)
    (htaken : machine.takesBranch fetched = true) : fetched.entry.shape = .branch := by
  rw [takesBranch] at htaken
  cases hfound : machine.operandSpace.operandsOf fetched.fields with
  | error fault =>
      rw [hfound] at htaken
      cases htaken
  | ok operands =>
      rw [hfound] at htaken
      obtain ⟨displacement, htaken⟩ := Option.isSome_iff_exists.mp htaken
      obtain ⟨rfl, -⟩ := Effect.taken?_eq_some_iff.mp htaken
      have hbranch := AddressSpace.eq_branch_of_operandsOf hfound
      rw [fields_of_instruction? hinstruction] at hbranch
      cases hshape : fetched.entry.shape with
      | branch => rfl
      | _ =>
          rw [hshape] at hbranch
          cases hbranch

/-- Only instructions with operands fault. -/
theorem hasOperands_of_faulted (hinstruction : machine.instruction? = some fetched)
    (hfaulted : machine.faulted fetched = true) : fetched.entry.shape.hasOperands = true := by
  rw [faulted, fields_of_instruction? hinstruction] at hfaulted
  cases hshape : fetched.entry.shape with
  | noOperand | branch =>
      rw [hshape] at hfaulted
      cases hfaulted
  | singleOperand | doubleOperand | doubleOperandReg => rfl

end Machine

/-! ## Commands -/

variable {Reason : Type}

namespace Answer

/-- The answer of a step that executed an instruction. -/
def continued : Answer Reason → Bool
  | stepped (.ok .continuing) => true
  | _ => false

/-- The answer of a step whose word was no instruction. -/
def invalid : Answer Reason → Bool
  | stepped (.error (.invalidOpcode _ _)) => true
  | _ => false

end Answer

def Command.isReset : Command Reason → Bool
  | reset => true
  | _ => false

namespace Machine

/-- What a command enters into the accounts of a machine, by what it answers. -/
inductive Enters (machine : Machine) : Command Reason → Performed Reason → Prop where
  | executed {performed : Performed Reason} {fetched : Fetched}
      (hinstruction : machine.instruction? = some fetched)
      (hanswer : performed.answer = .stepped (.ok .continuing))
      (haccounts : performed.machine.accounts =
        machine.accounts.retired fetched.entry.shape (machine.printed fetched)
          (machine.takesBranch fetched) (machine.faulted fetched)) :
      Enters machine .step performed
  | undecoded {performed : Performed Reason} {word pc : Word}
      (hanswer : performed.answer = .stepped (.error (.invalidOpcode word pc)))
      (haccounts : performed.machine.accounts = machine.accounts.rejected) :
      Enters machine .step performed
  | reset {performed : Performed Reason} (hanswer : performed.answer = .done)
      (haccounts : performed.machine.accounts = machine.accounts.cleared) :
      Enters machine .reset performed
  | nothing {command : Command Reason} {performed : Performed Reason}
      (hcommand : command.isReset = false)
      (hcontinued : performed.answer.continued = false)
      (hinvalid : performed.answer.invalid = false)
      (haccounts : performed.machine.accounts = machine.accounts) :
      Enters machine command performed

variable {machine : Machine}

theorem accounts_withSpace (space : AddressSpace) :
    (machine.withSpace space).accounts = machine.accounts := rfl

theorem enters_of_exit {transition : Transition} (hexit : machine.Exit transition) :
    machine.Enters .step
      (⟨.stepped transition.outcome, transition.machine, transition.events⟩ :
        Performed Reason) := by
  cases hexit with
  | ended | unfetched => exact .nothing rfl rfl rfl rfl
  | undecoded => exact .undecoded rfl rfl
  | executed hinstruction =>
      exact .executed hinstruction rfl (accounts_retire_executed hinstruction)

/-- A machine with a well-shaped table performs every command, and enters what it did
into its accounts. -/
theorem exists_enters (hshaped : machine.table.WellShaped) (command : Command Reason) :
    ∃ performed, machine.perform command = .ok performed ∧
      performed.machine.table = machine.table ∧ machine.Enters command performed := by
  cases command with
  | step =>
      obtain ⟨transition, hstep, hexit⟩ := machine.exists_exit hshaped
      rw [perform, hstep]
      exact ⟨_, rfl, table_of_exit hexit, enters_of_exit hexit⟩
  | load image =>
      obtain ⟨events, hload⟩ := machine.load_eq image Reason
      rw [perform, hload]
      exact ⟨_, rfl, rfl, .nothing rfl rfl rfl rfl⟩
  | loadFile file =>
      obtain ⟨events, hload⟩ := machine.loadFile_eq file
      rw [perform, hload]
      exact ⟨_, rfl, rfl, .nothing rfl rfl rfl rfl⟩
  | storeWord address value =>
      rw [perform]
      cases WordAddress.ofWord address with
      | error fault => exact ⟨_, rfl, rfl, .nothing rfl rfl rfl rfl⟩
      | ok checked =>
          simp only [AddressSpace.storeWord_eq]
          exact ⟨_, rfl, rfl, .nothing rfl rfl rfl rfl⟩
  | nextWord =>
      rw [perform, AddressSpace.nextWord_eq]
      exact ⟨_, rfl, rfl, .nothing rfl rfl rfl rfl⟩
  | resolve reg mode =>
      rw [perform, machine.space.resolve_eq ⟨mode, reg⟩]
      exact ⟨_, rfl, rfl, .nothing rfl rfl rfl rfl⟩
  | clearVideo =>
      rw [perform, AddressSpace.clearVideo_eq]
      exact ⟨⟨.done, machine.withSpace machine.space.withoutVideo, []⟩, rfl,
        table_withSpace _, .nothing rfl rfl rfl (accounts_withSpace _)⟩
  | reset => exact ⟨_, rfl, rfl, .reset rfl rfl⟩
  | setRegister | setFlag | setTracing | resetRegisters =>
      exact ⟨_, rfl, rfl, .nothing rfl rfl rfl rfl⟩

end Machine

/-- A property of accounts that nothing that is entered into them changes. -/
structure Accounts.Lasting (Keeps : Accounts → Prop) : Prop where
  retired : ∀ {accounts}, Keeps accounts → ∀ shape printed taken faulted,
    Keeps (accounts.retired shape printed taken faulted)
  rejected : ∀ {accounts}, Keeps accounts → Keeps accounts.rejected
  cleared : ∀ {accounts}, Keeps accounts → Keeps accounts.cleared

theorem Accounts.Lasting.of_enters {Keeps : Accounts → Prop} (hlasting : Lasting Keeps)
    {machine : Machine} {command : Command Reason} {performed : Performed Reason}
    (henters : machine.Enters command performed) (hkeeps : Keeps machine.accounts) :
    Keeps performed.machine.accounts := by
  cases henters with
  | executed _ _ haccounts => exact haccounts ▸ hlasting.retired hkeeps _ _ _ _
  | undecoded _ haccounts => exact haccounts ▸ hlasting.rejected hkeeps
  | reset _ haccounts => exact haccounts ▸ hlasting.cleared hkeeps
  | nothing _ _ _ haccounts => exact haccounts ▸ hkeeps

namespace Machine

variable {machine : Machine}

/-! ## What was done -/

/-- A command that a machine performed. -/
structure Act (Reason : Type := ReadFailure) where
  before : Machine
  command : Command Reason
  performed : Performed Reason

namespace Act

def continued (act : Act Reason) : Bool := act.performed.answer.continued

def invalid (act : Act Reason) : Bool := act.performed.answer.invalid

/-- What the traces show of the instruction that was executed, if one was. -/
def printed? (act : Act Reason) : Option Printed :=
  if act.continued then act.before.instruction?.map act.before.printed else none

end Act

/-- What the traces show of the instructions that were executed. -/
def printedBy (acts : List (Act Reason)) : List Printed := acts.filterMap Act.printed?

theorem printedBy_append {acts : List (Act Reason)} {act : Act Reason} {printed : Printed}
    (hprinted : act.printed? = some printed) :
    printedBy (acts ++ [act]) = printedBy acts ++ [printed] := by
  simp [printedBy, hprinted]

theorem printedBy_append_of_not_continued {acts : List (Act Reason)} {act : Act Reason}
    (hcontinued : act.continued = false) : printedBy (acts ++ [act]) = printedBy acts := by
  simp [printedBy, Act.printed?, hcontinued]

/-- Performs commands one after the other, and gives a record of them and the machine at
the end. -/
def journal (machine : Machine) : List (Command Reason) → Checked (List (Act Reason) × Machine)
  | [] => return ([], machine)
  | command :: rest => do
      let performed ← machine.perform command
      let (acts, reached) ← performed.machine.journal rest
      return (⟨machine, command, performed⟩ :: acts, reached)

/-- The acts after the last reset. -/
def sinceReset (acts : List (Act Reason)) : List (Act Reason) :=
  acts.rtakeWhile fun act => !act.command.isReset

/-- The first act of a journal, and the journal of the acts after it. -/
theorem exists_of_journal_cons {table : Table} (hshaped : table.WellShaped)
    (htable : machine.table = table) {command : Command Reason} {rest : List (Command Reason)}
    {acts : List (Act Reason)} {reached : Machine}
    (hjournal : machine.journal (command :: rest) = .ok (acts, reached)) :
    ∃ performed later, acts = ⟨machine, command, performed⟩ :: later ∧
      performed.machine.journal rest = .ok (later, reached) ∧
      performed.machine.table = table ∧
      machine.space.answered table command = (performed.answer, performed.machine.space) := by
  subst htable
  obtain ⟨performed, hperformed, htable, hanswered⟩ := exists_performed hshaped command
  rw [journal, hperformed, ok_bind] at hjournal
  obtain ⟨⟨later, last⟩, hlater, hacts⟩ := exists_of_bind_eq_ok hjournal
  cases hacts
  exact ⟨performed, later, rfl, hlater, htable, hanswered⟩

/-- A run with a record of it is the run. -/
theorem run_of_journal {commands : List (Command Reason)} {acts : List (Act Reason)}
    {reached : Machine}
    (hjournal : machine.journal commands = .ok (acts, reached)) :
    acts.map (·.command) = commands ∧
      machine.run commands = .ok (acts.map (·.performed.answer), reached) := by
  induction commands generalizing machine acts with
  | nil =>
      cases hjournal
      exact ⟨rfl, rfl⟩
  | cons command rest ih =>
      obtain ⟨performed, hperformed, hrest⟩ := exists_of_bind_eq_ok hjournal
      obtain ⟨⟨later, last⟩, hlater, hacts⟩ := exists_of_bind_eq_ok hrest
      cases hacts
      obtain ⟨hcommands, hrun⟩ := ih hlater
      refine ⟨congrArg (command :: ·) hcommands, ?_⟩
      rw [run, hperformed, ok_bind, hrun]
      rfl

/-- What lasts, lasts through any commands. -/
theorem lasting_of_journal {Keeps : Accounts → Prop} (hlasting : Accounts.Lasting Keeps)
    (hshaped : machine.table.WellShaped) (hkeeps : Keeps machine.accounts)
    {commands : List (Command Reason)} {acts : List (Act Reason)} {reached : Machine}
    (hjournal : machine.journal commands = .ok (acts, reached)) : Keeps reached.accounts := by
  induction commands generalizing machine acts with
  | nil =>
      cases hjournal
      exact hkeeps
  | cons command rest ih =>
      obtain ⟨performed, hperformed, htable, henters⟩ := exists_enters hshaped command
      rw [journal, hperformed, ok_bind] at hjournal
      obtain ⟨⟨later, last⟩, hlater, hacts⟩ := exists_of_bind_eq_ok hjournal
      cases hacts
      exact ih (htable.symm ▸ hshaped) (hlasting.of_enters henters hkeeps) hlater

theorem sinceReset_append_reset {acts : List (Act Reason)} {act : Act Reason}
    (hreset : act.command.isReset = true) : sinceReset (acts ++ [act]) = [] :=
  List.rtakeWhile_concat_neg _ _ _ (by simp [hreset])

theorem sinceReset_append {acts : List (Act Reason)} {act : Act Reason}
    (hreset : act.command.isReset = false) :
    sinceReset (acts ++ [act]) = sinceReset acts ++ [act] :=
  List.rtakeWhile_concat_pos _ _ _ (by simp [hreset])

end Machine

/-! ## Accounts that agree with what was done -/

open Machine (Act sinceReset printedBy)

namespace Accounts

/-- The counts agree with each other, with the timer and with the acts that they count. -/
structure Tally (accounts : Accounts) (acts : List (Act Reason)) : Prop where
  instructions : accounts.stats.instructions = acts.countP Act.continued
  steps : accounts.timer.steps = accounts.stats.instructions
  shapes : accounts.stats.ofShapes = accounts.stats.instructions
  invalidOpcodes : accounts.stats.invalidOpcodes = acts.countP Act.invalid
  branchesTaken : accounts.stats.branchesTaken ≤ accounts.stats.branch
  operandFaults : accounts.stats.operandFaults ≤ accounts.stats.withOperands
  naiveTicks : accounts.stats.naiveTicks = accounts.timer.naive
  optimizedTicks : accounts.stats.optimizedTicks = accounts.timer.optimized
  printed : (printedBy acts).length = accounts.stats.instructions

variable {accounts : Accounts} {acts : List (Act Reason)} {act : Act Reason}

namespace Tally

theorem cleared (accounts : Accounts) : accounts.cleared.Tally ([] : List (Act Reason)) :=
  ⟨rfl, rfl, rfl, rfl, Nat.le_refl 0, Nat.le_refl 0, rfl, rfl, rfl⟩

theorem retired (htally : accounts.Tally acts) {shape : Shape} {printed : Printed}
    {taken faulted : Bool} (htaken : taken = true → shape = .branch)
    (hfaulted : faulted = true → shape.hasOperands = true) (hcontinued : act.continued = true)
    (hinvalid : act.invalid = false) (hprinted : act.printed? = some printed) :
    (accounts.retired shape printed taken faulted).Tally (acts ++ [act]) where
  instructions := by simp [Accounts.retired, hcontinued, htally.instructions]
  steps := by simp [Accounts.retired, Timer.commit, htally.steps]
  shapes := by
    change (Statistics.record _ shape).ofShapes = (Statistics.record _ shape).instructions
    rw [Statistics.ofShapes_record, Statistics.instructions_record]
    exact congrArg (· + 1) htally.shapes
  invalidOpcodes := by simp [Accounts.retired, hinvalid, htally.invalidOpcodes]
  branchesTaken := by
    have hcounted : taken ≤ (shape == .branch) := fun h => beq_iff_eq.mpr (htaken h)
    change (Statistics.record _ shape).branchesTaken ≤ (Statistics.record _ shape).branch
    rw [Statistics.branchesTaken_record, Statistics.branch_record]
    exact Nat.add_le_add htally.branchesTaken (Bool.toNat_le_toNat hcounted)
  operandFaults := by
    have hcounted : faulted ≤ shape.hasOperands := hfaulted
    change (Statistics.record _ shape).operandFaults ≤ (Statistics.record _ shape).withOperands
    rw [Statistics.operandFaults_record, Statistics.withOperands_record]
    exact Nat.add_le_add htally.operandFaults (Bool.toNat_le_toNat hcounted)
  naiveTicks := rfl
  optimizedTicks := rfl
  printed := by simp [Accounts.retired, Machine.printedBy_append hprinted, htally.printed]

theorem nothing (htally : accounts.Tally acts) (hcontinued : act.continued = false)
    (hinvalid : act.invalid = false) : accounts.Tally (acts ++ [act]) where
  instructions := by simp [hcontinued, htally.instructions]
  steps := htally.steps
  shapes := htally.shapes
  invalidOpcodes := by simp [hinvalid, htally.invalidOpcodes]
  branchesTaken := htally.branchesTaken
  operandFaults := htally.operandFaults
  naiveTicks := htally.naiveTicks
  optimizedTicks := htally.optimizedTicks
  printed := by rw [Machine.printedBy_append_of_not_continued hcontinued, htally.printed]

theorem rejected (htally : accounts.Tally acts) (hcontinued : act.continued = false)
    (hinvalid : act.invalid = true) : accounts.rejected.Tally (acts ++ [act]) where
  instructions := by simp [Accounts.rejected, hcontinued, htally.instructions]
  steps := htally.steps
  shapes := htally.shapes
  invalidOpcodes := by simp [Accounts.rejected, hinvalid, htally.invalidOpcodes]
  branchesTaken := htally.branchesTaken
  operandFaults := htally.operandFaults
  naiveTicks := htally.naiveTicks
  optimizedTicks := htally.optimizedTicks
  printed := by
    rw [Machine.printedBy_append_of_not_continued hcontinued]
    exact htally.printed

end Tally

/-- The accounts agree with each other and with the acts that they are about. -/
structure Reconcile (accounts : Accounts) (depth : Nat) (acts : List (Act Reason)) : Prop where
  tally : accounts.Tally acts
  traces : accounts.traces.Shows depth (printedBy acts)

namespace Reconcile

variable {machine : Machine} {depth : Nat} {past : List (Act Reason)}

/-- A command keeps the accounts in agreement with the acts since the last reset. -/
theorem entered (hreconcile : machine.accounts.Reconcile depth (sinceReset past))
    {command : Command Reason} {performed : Performed Reason}
    (henters : machine.Enters command performed) :
    performed.machine.accounts.Reconcile depth
      (sinceReset (past ++ [⟨machine, command, performed⟩])) := by
  obtain ⟨htally, htraces⟩ := hreconcile
  cases henters with
  | @executed _ fetched hinstruction hanswer haccounts =>
      have hcontinued : Act.continued ⟨machine, .step, performed⟩ = true := by
        rw [Act.continued, hanswer]
        rfl
      have hinvalid : Act.invalid ⟨machine, .step, performed⟩ = false := by
        rw [Act.invalid, hanswer]
        rfl
      have hprinted :
          Act.printed? ⟨machine, .step, performed⟩ = some (machine.printed fetched) := by
        rw [Act.printed?, if_pos hcontinued, hinstruction, Option.map_some]
      rw [Machine.sinceReset_append rfl, haccounts]
      refine ⟨htally.retired (Machine.shape_of_takesBranch hinstruction)
        (Machine.hasOperands_of_faulted hinstruction) hcontinued hinvalid hprinted, ?_⟩
      rw [Machine.printedBy_append hprinted]
      exact htraces.push _
  | undecoded hanswer haccounts =>
      have hcontinued : Act.continued ⟨machine, .step, performed⟩ = false := by
        rw [Act.continued, hanswer]
        rfl
      have hinvalid : Act.invalid ⟨machine, .step, performed⟩ = true := by
        rw [Act.invalid, hanswer]
        rfl
      rw [Machine.sinceReset_append rfl, haccounts]
      refine ⟨htally.rejected hcontinued hinvalid, ?_⟩
      rw [Machine.printedBy_append_of_not_continued hcontinued]
      exact htraces
  | reset hanswer haccounts =>
      rw [Machine.sinceReset_append_reset rfl, haccounts]
      exact ⟨.cleared _, htraces.clear⟩
  | nothing hcommand hcontinued hinvalid haccounts =>
      have hcontinued : Act.continued ⟨machine, command, performed⟩ = false := hcontinued
      rw [Machine.sinceReset_append hcommand, haccounts]
      refine ⟨htally.nothing hcontinued hinvalid, ?_⟩
      rw [Machine.printedBy_append_of_not_continued hcontinued]
      exact htraces

end Reconcile

end Accounts

namespace Machine

/-- Commands keep the accounts in agreement with the acts since the last reset. -/
theorem exists_journal {machine : Machine} (hshaped : machine.table.WellShaped) {depth : Nat}
    {past : List (Act Reason)} (hreconcile : machine.accounts.Reconcile depth (sinceReset past))
    (commands : List (Command Reason)) :
    ∃ acts reached, machine.journal commands = .ok (acts, reached) ∧
      reached.accounts.Reconcile depth (sinceReset (past ++ acts)) := by
  induction commands generalizing machine past with
  | nil =>
      refine ⟨[], machine, rfl, ?_⟩
      rwa [List.append_nil]
  | cons command rest ih =>
      -- The acts before these are carried along, as only they tell where the last reset was.
      obtain ⟨performed, hperformed, htable, henters⟩ := exists_enters hshaped command
      obtain ⟨acts, reached, hacts, hreached⟩ :=
        ih (htable.symm ▸ hshaped) (hreconcile.entered henters)
      refine ⟨⟨machine, command, performed⟩ :: acts, reached, ?_, ?_⟩
      · rw [journal, hperformed, ok_bind, hacts]
        rfl
      · rwa [List.append_assoc, List.singleton_append] at hreached

/-! ### A program of two instructions -/

/-- A step that reads an instruction executes it, and the traces show its word. -/
theorem exists_printed_of_decoded {table : Table} {space : AddressSpace}
    (htable : machine.table = table) (hspace : machine.space = space)
    (hrunning : space.pc.toNat < space.programEnd) {address : WordAddress}
    (hfetch : WordAddress.ofFetch space.pc = .ok address) {word : Word}
    (hword : space.wordAt address = word) {entry : Entry}
    (hdecode : table.decode? word = some entry) {performed : Performed Reason}
    (hanswered : machine.space.answered table .step =
      (performed.answer, performed.machine.space)) :
    performed.machine.space = (space.setPc (space.pc + 2)).executed entry.effect
        (.decoded entry.shape word) ∧
      performed.answer = .stepped (.ok .continuing) ∧
      ∃ printed, Act.printed? ⟨machine, .step, performed⟩ = some printed ∧
        printed.word = word := by
  subst htable hspace hword
  simp only [AddressSpace.answered, AddressSpace.stepped, if_neg (Nat.not_le.mpr hrunning),
    hfetch, hdecode, Prod.mk.injEq] at hanswered
  obtain ⟨hanswer, hspace⟩ := hanswered
  have hinstruction := instruction?_eq_some_iff.mpr
    ⟨hrunning, address, hfetch, entry, hdecode, rfl⟩
  have hprinted : Act.printed? ⟨machine, .step, performed⟩ =
      machine.instruction?.map machine.printed := by
    rw [Act.printed?, Act.continued, ← hanswer]
    rfl
  rw [hinstruction] at hprinted
  exact ⟨hspace.symm, hanswer.symm, _, hprinted, rfl⟩

/-- A table that reads every word as `clr`, with an entry that no word gets to. -/
def overlapping : Table :=
  ⟨[(Entry.single "clr" 0 .clr).withMask 0, .noOperand "halt" 0 .halt]⟩

/-- Memory with the program `clr -(r2); clr (r1)+`. -/
def twoClears (pc : Word) : AddressSpace :=
  (AddressSpace.blank.withImage (Word.bytesOf [0x0022, 0x0011])).setRegister .pc pc

theorem wordAt_twoClears (pc : Word) :
    (twoClears pc).wordAt ⟨0x8000, by decide⟩ = 0x0022 ∧
      (twoClears pc).wordAt ⟨0x8002, by decide⟩ = 0x0011 := by
  have hfits : 2 * [(0x0022 : Word), 0x0011].length ≤ Layout.romSize := by decide
  have hmemory : (twoClears pc).memory =
      (AddressSpace.blank.withImage (Word.bytesOf [0x0022, 0x0011])).memory :=
    AddressSpace.memory_setRegister _ _ _
  rw [AddressSpace.wordAt_congr hmemory]
  constructor
  · apply AddressSpace.wordAt_withImage _ hfits (show _ = Layout.romBase + 2 * 0 from rfl) rfl
  · apply AddressSpace.wordAt_withImage _ hfits (show _ = Layout.romBase + 2 * 1 from rfl) rfl

theorem setPc_twoClears (pc next : Word) : (twoClears pc).setPc next = twoClears next :=
  AddressSpace.setRegister_setRegister _ _ _ _

/-- The decrement goes below zero, so that the first instruction only moves on. -/
theorem executed_first_twoClears :
    (twoClears 0x8002).executed (.unary .clr) (.decoded .singleOperand 0x0022) =
      twoClears 0x8002 := by
  have hfields : Fields.decoded .singleOperand 0x0022 = .single ⟨.autoDecrement, .r2⟩ := rfl
  have hfault : (twoClears 0x8002).locate ⟨.autoDecrement, .r2⟩ =
      .error (.decrementUnderflow .r2) := rfl
  have hfollowed : (twoClears 0x8002).followed ⟨.autoDecrement, .r2⟩ = twoClears 0x8002 := by
    rw [AddressSpace.followed_of_not_takesWord _ rfl, hfault]
    rfl
  rw [hfields, AddressSpace.executed]
  exact hfollowed

/-- After the second instruction the program has ended. -/
theorem stepped_of_second_twoClears {last : AddressSpace}
    (hlast : last =
      (twoClears 0x8004).executed (.unary .clr) (.decoded .singleOperand 0x0011)) :
    last.stepped overlapping = (.ok .finished, last) := by
  have hfields : Fields.decoded .singleOperand 0x0011 = .single ⟨.autoIncrement, .r1⟩ := rfl
  have hended : last.programEnd ≤ last.pc.toNat := by
    rw [AddressSpace.programEnd, hlast, AddressSpace.romLength_executed, hfields,
      AddressSpace.executed]
    exact Nat.le_refl 0x8004
  exact if_pos hended

/-- A run with a fault, a reset and a second run of the same program up to its end. -/
def clearTwiceOver : List Command :=
  [.load (Word.bytesOf [0x0022, 0x0011]), .setRegister .pc 0x8000, .step, .reset,
    .load (Word.bytesOf [0x0022, 0x0011]), .setRegister .pc 0x8000, .step, .step, .step]

/-- After any commands from power-on on, the accounts of a machine agree with each other
and with what it did since its last reset.  Both traces show the last of the
instructions that it executed, as many as there is room for: one of them their lines,
and the other their words as four hexadecimal digits.  The entries of the table have
effects of the kinds that `Effect` lists, and no functions of the user's own. -/
theorem accounts_reconcile (config : Config) {table : Table}
    (hbuilt : ∀ entry ∈ table.entries, entry.Built) (commands : List (Command Reason)) :
    ∃ acts reached,
      (withTable config table).journal commands = .ok (acts, reached) ∧
      acts.map (·.command) = commands ∧
      (withTable config table).run commands = .ok (acts.map (·.performed.answer), reached) ∧
      reached.accounts.Tally (sinceReset acts) ∧
      reached.traces.disassembly.lines =
        (lastOf config.general.traceDepth (printedBy (sinceReset acts))).map Printed.line ∧
      reached.traces.bytes.lines =
        (lastOf config.general.traceDepth (printedBy (sinceReset acts))).map Printed.digits ∧
      reached.traces.disassembly.length =
        min config.general.traceDepth reached.stats.instructions ∧
      reached.traces.bytes.length = min config.general.traceDepth reached.stats.instructions ∧
      ∀ line ∈ reached.traces.bytes.lines, line.length = 4 := by
  have hstart : (withTable config table).accounts.Reconcile config.general.traceDepth
      (sinceReset ([] : List (Act Reason))) :=
    ⟨.cleared (withTable config table).accounts, TraceLog.shows_empty _⟩
  obtain ⟨acts, reached, hjournal, htally, htraces⟩ :=
    exists_journal (Table.wellShaped_of_built hbuilt) hstart commands
  obtain ⟨hcommands, hrun⟩ := run_of_journal hjournal
  have hcount : (printedBy (sinceReset acts)).length = reached.stats.instructions :=
    htally.printed
  refine ⟨acts, reached, hjournal, hcommands, hrun, htally, htraces.disassembly_lines,
    htraces.bytes_lines, ?_, ?_, fun _ => htraces.length_of_mem_bytes⟩
  · rw [← hcount]
    exact htraces.disassembly_length
  · rw [← hcount]
    exact htraces.bytes_length

/-- Entries that overlap, a trace with room for one line, faults and resets do no harm
to the accounts. -/
theorem accounts_reconcile_of_overlap :
    (∀ entry ∈ overlapping.entries, entry.Built) ∧
    ∃ acts reached,
      (withTable { general := { traceDepth := 1 } } overlapping).run clearTwiceOver =
        .ok (acts.map (·.performed.answer), reached) ∧
      reached.accounts.Tally (sinceReset acts) ∧
      reached.stats.instructions = 2 ∧ reached.traces.bytes.lines = ["0011"] ∧
      reached.traces.disassembly.length = 1 := by
  have hbuilt : ∀ entry ∈ overlapping.entries, entry.Built := by
    intro entry hentry
    rcases List.mem_cons.mp hentry with rfl | hlast
    · exact .withMask 0 (.single "clr" 0 .clr)
    · obtain rfl := List.mem_singleton.mp hlast
      exact .noOperand "halt" 0 .halt
  obtain ⟨acts, reached, hjournal, -, hrun, htally, -, hbytes, hlength, -⟩ :=
    accounts_reconcile { general := { traceDepth := 1 } } hbuilt clearTwiceOver
  refine ⟨hbuilt, acts, reached, hrun, htally, ?_⟩
  have hshaped := Table.wellShaped_of_built hbuilt
  obtain ⟨_, _, hacts, hlater, htable, -⟩ := exists_of_journal_cons hshaped rfl hjournal
  obtain ⟨_, _, rfl, hlater, htable, -⟩ := exists_of_journal_cons hshaped htable hlater
  obtain ⟨_, _, rfl, hlater, htable, -⟩ := exists_of_journal_cons hshaped htable hlater
  obtain ⟨blanked, _, rfl, hlater, htable, hblanked⟩ :=
    exists_of_journal_cons hshaped htable hlater
  obtain ⟨loaded, _, rfl, hlater, htable, hloaded⟩ := exists_of_journal_cons hshaped htable hlater
  obtain ⟨placed, _, rfl, hlater, htable, hplaced⟩ := exists_of_journal_cons hshaped htable hlater
  obtain ⟨first, _, rfl, hlater, hnext, hfirst⟩ := exists_of_journal_cons hshaped htable hlater
  obtain ⟨second, _, rfl, hlater, hlast, hsecond⟩ := exists_of_journal_cons hshaped hnext hlater
  obtain ⟨third, _, rfl, hlater, -, hthird⟩ := exists_of_journal_cons hshaped hlast hlater
  cases hlater
  -- Both loads end with the same space, as the reset blanks it.
  rw [← (Prod.mk.inj hblanked).2, AddressSpace.answered, AddressSpace.loaded,
    if_neg (by decide)] at hloaded
  rw [← (Prod.mk.inj hloaded).2] at hplaced
  obtain ⟨hfirstSpace, -, shown, hshown, -⟩ := exists_printed_of_decoded htable
    (Prod.mk.inj hplaced).2.symm (by decide) rfl (wordAt_twoClears 0x8000).1 rfl hfirst
  rw [← twoClears, setPc_twoClears] at hfirstSpace
  obtain ⟨hsecondSpace, -, last, hshownLast, hword⟩ := exists_printed_of_decoded hnext
    (hfirstSpace.trans executed_first_twoClears) (by decide) rfl (wordAt_twoClears _).2 rfl hsecond
  rw [setPc_twoClears] at hsecondSpace
  rw [AddressSpace.answered, stepped_of_second_twoClears hsecondSpace] at hthird
  have hprinted : printedBy (sinceReset acts) = [shown, last] := by
    have hquiet (before : Machine) (command : Command) {performed : Performed}
        (hcontinued : false = performed.answer.continued) :
        Act.printed? ⟨before, command, performed⟩ = none := by
      rw [Act.printed?, Act.continued, ← hcontinued]
      rfl
    have hloaded := hquiet blanked.machine (.load (Word.bytesOf [0x0022, 0x0011]))
      (congrArg (·.1.continued) hloaded)
    have hplaced := hquiet loaded.machine (.setRegister .pc 0x8000)
      (congrArg (·.1.continued) hplaced)
    have hthird := hquiet second.machine .step (congrArg (·.1.continued) hthird)
    rw [hacts]
    refine (List.filterMap_cons_none hloaded).trans ?_
    rw [List.filterMap_cons_none hplaced, List.filterMap_cons_some hshown,
      List.filterMap_cons_some hshownLast, List.filterMap_cons_none hthird, List.filterMap_nil]
  have hcount : third.machine.stats.instructions = 2 := by
    refine htally.printed.symm.trans ?_
    rw [hprinted]
    rfl
  have hdigits : last.digits = "0011" := by
    rw [Printed.digits, hword]
    rfl
  refine ⟨hcount, ?_, ?_⟩
  · rw [hbytes, hprinted]
    exact congrArg (fun digits => [digits]) hdigits
  · rw [hlength, hcount]
    rfl

end Machine

end WordMachine
