import WordMachine.Instruction.Resolution
import WordMachine.Machine.Basic
import WordMachine.Machine.Event

/-!
# One step

A step executes the instruction at the program counter.  The program counter
moves past a word as soon as it was fetched, so that operands and branches see
the address of the word after it.  An instruction whose operands are not found
has no effect, but is executed all the same: it is traced, counted and paid
for.  What each stage costs is recorded as the instruction passes it, and the
record is handed to the timer at the end.
-/

namespace WordMachine

inductive StepOutcome where
  /-- An instruction was executed. -/
  | continuing
  /-- The program counter is past the end of the program. -/
  | finished
deriving DecidableEq, Repr

inductive StepFault where
  /-- The word at this address belongs to no entry of the table. -/
  | invalidOpcode (word pc : Word)
  | fetch (fault : MemoryFault)
deriving DecidableEq, Repr

def StepFault.message : StepFault → String
  | invalidOpcode word pc =>
      "invalid opcode " ++ Numeral.opcode word.toNat ++ " at " ++ Numeral.address pc.toNat
  | fetch fault => "fetch failed: " ++ fault.message

/-- What came of a step. -/
structure Transition where
  outcome : Except StepFault StepOutcome
  machine : Machine
  events : List Event

namespace Machine

/-- An instruction that was fetched and decoded. -/
structure Fetched where
  pc : Word
  word : Word
  entry : Entry
  fields : Fields
  /-- The costs of the stages that the instruction has passed. -/
  timing : StepRecord

/-- The instruction after another stage. -/
def Fetched.charge (fetched : Fetched) (stage : Stage) (ticks : Nat) : Fetched :=
  { fetched with timing := fetched.timing.record stage ticks }

/-- An instruction that was executed, and what has been announced so far. -/
structure Executed extends Fetched where
  extensions : Extensions
  machine : Machine
  events : List Event

/-- Finds the operands and applies the effect to them. -/
def execute (machine : Machine) (fetched : Fetched) : Checked Executed := do
  let resolved ← machine.space.resolveOperands fetched.fields
  let machine := { machine with space := resolved.space }
  match resolved.operands with
  | .ok operands =>
      let (space, taken) ← fetched.entry.effect.apply operands machine.space
      let stats := if taken then
          { machine.stats with branchesTaken := machine.stats.branchesTaken + 1 }
        else machine.stats
      return {
        toFetched := fetched.charge .execute machine.costs.execute
        extensions := resolved.extensions
        machine := { machine with space := space, stats := stats }
        events := [] }
  | .error fault =>
      let stats := { machine.stats with operandFaults := machine.stats.operandFaults + 1 }
      return {
        toFetched := fetched.charge .execute machine.costs.execute
        extensions := resolved.extensions
        machine := { machine with stats := stats }
        events := [.operandUnresolved fetched.pc fetched.word fetched.entry.name fault] }

/-- Enters an executed instruction into the traces, the timer and the
statistics. -/
def retire (executed : Executed) : Transition :=
  let machine := executed.machine
  let text := executed.entry.text executed.fields executed.extensions
  -- Writing back shares the stage of reading, and takes the place of its entry.
  let passed := executed.toFetched
    |>.charge .memoryAccess machine.costs.memory
    |>.charge .memoryAccess machine.costs.memory
  let timer := machine.timer.commit passed.timing
  let stats := machine.stats.record executed.entry.shape
  let detail := if machine.tracing then
      [.detailed text executed.pc machine.codes machine.pc]
    else []
  { outcome := .ok .continuing
    machine := { machine with
      traces := machine.traces.push text executed.word
      timer := timer
      stats := { stats with naiveTicks := timer.naive, optimizedTicks := timer.optimized } }
    events := executed.events ++ [.executed executed.pc executed.word executed.entry.name] ++
      detail }

/-- Executes one instruction.  A machine whose program has ended, or that cannot
fetch, is left as it is; a word that is no instruction is only stepped over and
counted. -/
def step (machine : Machine) : Checked Transition :=
  let pc := machine.pc
  if machine.space.programEnd ≤ pc.toNat then return ⟨.ok .finished, machine, []⟩
  else
    match WordAddress.ofFetch pc with
    | .error fault => return ⟨.error (.fetch fault), machine, [.fetchFailed pc fault]⟩
    | .ok address => do
        let word ← machine.space.loadWord address
        let machine := machine.setPc (pc + 2)
        let timing := StepRecord.empty.record .fetch machine.costs.fetch
        match machine.table.decode? word with
        | none =>
            let stats := { machine.stats with invalidOpcodes := machine.stats.invalidOpcodes + 1 }
            return ⟨.error (.invalidOpcode word pc), { machine with stats := stats },
              [.invalidOpcode pc word]⟩
        | some entry =>
            let fields ← Fields.ofWord entry.shape word
            let timing := timing.record .decode machine.costs.decode
            return retire (← machine.execute ⟨pc, word, entry, fields, timing⟩)

end Machine

end WordMachine
